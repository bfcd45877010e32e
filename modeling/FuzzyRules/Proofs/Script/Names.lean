import FuzzyRules.Proofs.Compilation.Run
import FuzzyRules.Proofs.Host.Reading
import FuzzyRules.Proofs.Number.Text
import FuzzyRules.Proofs.Program.Compile

namespace FuzzyRules

open Script

/-! Names stand in comments at the ends of lines, as they are, so a line feed in
a name breaks the line and a last backslash joins the next. -/

inductive ArgumentForm where
  | count
  | reference
  | coordinate

def ArgumentForm.Accepts : ArgumentForm → String → Prop
  | count, text => text.toList ∈ Word.digits
  | reference, text => text = "-1" ∨ text.toList ∈ Word.digits
  | coordinate, text =>
      text ∈ ["NAN", "INFINITY", "-INFINITY"] ∨ text.toList ∈ Word.decimals

structure Template where
  function : String
  arguments : List ArgumentForm
  commented : Bool

namespace Template

def init : Template := ⟨"FRI_init", [.count, .count], false⟩

def initUniverse : Template := ⟨"FRI_initUniverseById", [.count, .count], true⟩

def addElement : Template :=
  ⟨"FRI_addUniverseElement", [.coordinate, .coordinate], false⟩

def initRulebase : Template :=
  ⟨"FRI_initRuleBaseById", [.count, .count, .reference], true⟩

def addRule : Template := ⟨"FRI_addRuleToRulebase", [.count, .count], false⟩

def addAntecedent : Template :=
  ⟨"FRI_addAntecedentToRule", [.reference, .reference], false⟩

def all : List Template :=
  [init, initUniverse, addElement, initRulebase, addRule, addAntecedent]

/-- What may stand behind a call: nothing, or a comment that does not go on in
the next line. -/
def Trails (template : Template) (comment : String) : Prop :=
  if template.commented then
    " // ".toList <+: comment.toList ∧ comment.toList.getLast? ≠ some '\\'
  else comment = ""

end Template

/-- The line belongs to the frame of a program or is one call in the form of its
template. -/
inductive Conforms : String → Prop where
  | frame {line : String} (member : line ∈ Host.frame) : Conforms line
  | call {template : Template} {arguments : List String} {comment : String}
      (known : template ∈ Template.all)
      (accepts : List.Forall₂ ArgumentForm.Accepts template.arguments arguments)
      (trails : template.Trails comment) :
      Conforms (template.function ++ "(" ++ ", ".intercalate arguments ++
        ");" ++ comment)

/-- The statement of a call ends in a semicolon. -/
theorem getLast?_statement_append (function inside comment : String) :
    (function ++ "(" ++ inside ++ ");" ++ comment).toList.getLast? =
      comment.toList.getLast?.or (some ';') := by
  have closes : (function ++ "(" ++ inside ++ ");").toList.getLast? =
      some ';' := by
    rw [String.toList_append, List.getLast?_append]
    rfl
  rw [String.toList_append, List.getLast?_append, closes]

theorem Conforms.getLast?_ne {line : String} (conforms : Conforms line) :
    line.toList.getLast? ≠ some '\\' := by
  cases conforms with
  | frame member => revert line; decide
  | @call template _ comment known accepts trails =>
      rw [getLast?_statement_append]
      have ends : comment.toList.getLast? ≠ some '\\' := by
        unfold Template.Trails at trails
        split at trails
        · exact trails.2
        · simp [trails]
      cases last : comment.toList.getLast? with
      | none => simp
      | some c => simpa [last] using ends

theorem Conforms.mem_frame_or_call {line : String} (conforms : Conforms line) :
    line ∈ Host.frame ∨ '(' ∈ line.toList := by
  cases conforms with
  | frame member => exact Or.inl member
  | call known accepts trails => exact Or.inr (by simp)

private theorem accepts_count (n : Nat) :
    ArgumentForm.count.Accepts (Nat.repr n) :=
  Word.repr_mem_digits n

private theorem accepts_reference (reference : Option Nat) :
    ArgumentForm.reference.Accepts (referenceText reference) := by
  cases reference with
  | none => exact Or.inl rfl
  | some id => exact Or.inr (Word.repr_mem_digits id)

private theorem accepts_coordinate (number : Binary64) :
    ArgumentForm.coordinate.Accepts number.text := by
  cases number with
  | nan => exact Or.inl (by decide)
  | infinite negative => exact Or.inl (by cases negative <;> decide)
  | finite negative rank =>
      exact Or.inr (Binary64.text_mem_decimals negative rank)

namespace Call

def template : Call → Template
  | init .. => .init
  | initUniverse .. => .initUniverse
  | addElement .. => .addElement
  | initRulebase .. => .initRulebase
  | addRule .. => .addRule
  | addAntecedent .. => .addAntecedent

private theorem accepts_arguments (call : Call) :
    List.Forall₂ ArgumentForm.Accepts call.template.arguments
      call.arguments := by
  cases call <;>
    simp [template, Template.init, Template.initUniverse, Template.addElement,
      Template.initRulebase, Template.addRule, Template.addAntecedent,
      arguments, accepts_count, accepts_reference, accepts_coordinate]

private theorem trails_comment {call : Call}
    (ends : call.comment.toList.getLast? ≠ some '\\') :
    call.template.Trails call.comment := by
  cases call with
  | initUniverse id elements name =>
      refine ⟨?_, ends⟩
      simp [comment]
  | initRulebase id rules consequent name =>
      refine ⟨?_, ends⟩
      simp [comment]
  | _ => rfl

theorem getLast?_text (call : Call) :
    call.text.toList.getLast? = call.comment.toList.getLast?.or (some ';') :=
  getLast?_statement_append _ _ _

private theorem conforms_text {call : Call}
    (ends : call.text.toList.getLast? ≠ some '\\') : Conforms call.text := by
  have known : call.template ∈ Template.all := by
    cases call <;> simp [template, Template.all]
  have named : call.template.function = call.function := by cases call <;> rfl
  have trails : call.template.Trails call.comment := by
    apply trails_comment
    intro continues
    rw [getLast?_text, continues] at ends
    exact ends rfl
  rw [text, ← named]
  exact .call known call.accepts_arguments trails

end Call

private theorem Script.Line.conforms_iff (line : Line) :
    Conforms line.text ↔ line.text.toList.getLast? ≠ some '\\' := by
  refine ⟨Conforms.getLast?_ne, ?_⟩
  intro ends
  cases line with
  | call c => exact Call.conforms_text ends
  | blank | entry | success | exit => exact .frame (by decide)

namespace Script

/-- The line feeds inside a line. -/
def Line.breaks (line : Line) : Nat :=
  line.text.toList.count '\n'

def breaks (script : Script) : Nat :=
  (script.map Line.breaks).sum

private theorem breaks_cons (line : Line) (script : Script) :
    breaks (line :: script) = line.breaks + breaks script :=
  List.sum_cons

private theorem breaks_append (first second : Script) :
    breaks (first ++ second) = breaks first + breaks second := by
  unfold breaks
  rw [List.map_append, List.sum_append]

private theorem count_text (script : Script) :
    (text script).toList.count '\n' = script.length + breaks script := by
  induction script with
  | nil => rfl
  | cons line others ih =>
      rw [text_cons, String.toList_append, String.toList_append,
        List.count_append, List.count_append, ih, breaks_cons, List.length_cons,
        Line.breaks]
      change _ + 1 + _ = _
      omega

private theorem length_linesOf_text (script : Script) :
    (linesOf (text script)).length = script.length + 1 + breaks script := by
  rw [length_linesOf, count_text]
  omega

theorem oneLine_of_breaks {script : Script} (unbroken : breaks script = 0) :
    ∀ line ∈ script, Host.OneLine line := by
  intro line member
  exact List.count_eq_zero.mp
    (List.sum_eq_zero_iff.mp unbroken _ (List.mem_map_of_mem member))

/-- The lines of the text are those of the script if none of them has a line
feed inside. -/
theorem linesOf_text_iff (script : Script) :
    linesOf (text script) = script.map Line.text ++ [""] ↔
      breaks script = 0 := by
  constructor
  · intro same
    have lengths := congrArg List.length same
    rw [length_linesOf_text, List.length_append, List.length_map,
      List.length_singleton] at lengths
    omega
  · intro unbroken
    rw [linesOf, Host.splitOn_text (oneLine_of_breaks unbroken),
      List.map_append, List.map_map]
    simp

/-- Only the comment of a call can hold line feeds. -/
theorem Line.breaks_call (call : Call) :
    (Line.call call).breaks = call.comment.toList.count '\n' := by
  have parts : (Line.call call).text = call.statement ++ call.comment := rfl
  have statement : call.statement.toList.count '\n' = 0 := by
    apply List.count_eq_zero.mpr
    intro member
    exact absurd (Host.isStatementChar_statement call '\n' member) (by decide)
  rw [Line.breaks, parts, String.toList_append, List.count_append, statement,
    Nat.zero_add]

/-- A line without a name in it. -/
def Line.Plain : Line → Prop
  | call c => c.comment = ""
  | _ => True

namespace Line.Plain

theorem breaks_eq_zero {line : Line} (plain : line.Plain) :
    line.breaks = 0 := by
  cases line with
  | call c =>
      have bare : c.comment = "" := plain
      rw [breaks_call, bare]
      rfl
  | blank | entry | success | exit => decide

theorem getLast?_ne {line : Line} (plain : line.Plain) :
    line.text.toList.getLast? ≠ some '\\' := by
  cases line with
  | call c =>
      have bare : c.comment = "" := plain
      rw [Line.text, Call.getLast?_text, bare]
      decide
  | blank | entry | success | exit => decide

end Line.Plain

theorem breaks_of_plain {script : Script}
    (plain : ∀ line ∈ script, line.Plain) :
    breaks script = 0 := by
  apply List.sum_eq_zero
  intro count member
  obtain ⟨line, inside, rfl⟩ := List.mem_map.mp member
  exact (plain line inside).breaks_eq_zero

end Script

private theorem Rule.plain_of_mem_lines (scope : Scope) (index : Nat)
    (rule : Rule) : ∀ line ∈ rule.lines scope index, line.Plain := by
  rw [Rule.lines, List.cons_append, List.forall_mem_cons,
    List.forall_mem_append, List.forall_mem_map]
  exact ⟨rfl, fun antecedent _ => rfl, List.forall_mem_singleton.mpr trivial⟩

/-- Behind a label, a line ends in a backslash only if the name does. -/
theorem getLast?_labelled_ne_iff {label : String}
    (blank : label.toList.getLast? = some ' ') (name : String) :
    (label ++ name).toList.getLast?.or (some ';') ≠ some '\\' ↔
      name.toList.getLast? ≠ some '\\' := by
  rw [String.toList_append, List.getLast?_append, blank]
  cases name.toList.getLast? with
  | none => simp
  | some c => simp

namespace Declaration

/-- The call with which a declaration starts, the only one that has a name. -/
def announcement : Declaration → Call
  | ofUniverse u => .initUniverse u.id u.elements.length u.name
  | ofRulebase _ rulebase =>
      .initRulebase rulebase.id rulebase.rules.length rulebase.consequent
        rulebase.name

/-- The comment ends with the name, unless it says that there is no universe of
this name. -/
def endsWithName : Declaration → Bool
  | ofUniverse _ => true
  | ofRulebase _ rulebase => rulebase.consequent.isSome

/-- The name neither breaks its line nor continues it in the next. -/
def Confined (declaration : Declaration) : Prop :=
  '\n' ∉ declaration.name.toList ∧
    (declaration.endsWithName = true →
      declaration.name.toList.getLast? ≠ some '\\')
  deriving Decidable

private theorem exists_lines_eq (declaration : Declaration) :
    ∃ plain, declaration.lines = .call declaration.announcement :: plain ∧
      ∀ line ∈ plain, line.Plain := by
  cases declaration with
  | ofUniverse u =>
      refine ⟨u.elements.map Element.line ++ [.blank], rfl, ?_⟩
      rw [List.forall_mem_append, List.forall_mem_map]
      exact ⟨fun element _ => rfl, List.forall_mem_singleton.mpr trivial⟩
  | ofRulebase scope rulebase =>
      have rules : ∀ line ∈ (rulebase.rules.mapIdx fun index rule =>
          rule.lines scope index).flatten, line.Plain := by
        intro line member
        obtain ⟨lines, isLines, inLines⟩ := List.mem_flatten.mp member
        obtain ⟨index, _, rfl⟩ := List.mem_mapIdx.mp isLines
        exact Rule.plain_of_mem_lines scope index _ line inLines
      rw [lines, Rulebase.lines]
      split
      · exact ⟨[.blank], rfl, List.forall_mem_singleton.mpr trivial⟩
      · refine ⟨_ ++ [.blank], rfl, ?_⟩
        exact List.forall_mem_append.mpr ⟨rules,
          List.forall_mem_singleton.mpr trivial⟩

theorem breaks_lines (declaration : Declaration) :
    breaks declaration.lines = declaration.name.toList.count '\n' := by
  obtain ⟨plain, lines, isPlain⟩ := declaration.exists_lines_eq
  rw [lines, breaks_cons, breaks_of_plain isPlain, Line.breaks_call,
    Nat.add_zero]
  cases declaration with
  | ofUniverse u => simp [announcement, Call.comment, name]
  | ofRulebase scope rulebase =>
      rw [announcement, Call.comment]
      split <;> simp [name]

private theorem getLast?_lines_iff (declaration : Declaration) :
    (∀ line ∈ declaration.lines, line.text.toList.getLast? ≠ some '\\') ↔
      (declaration.endsWithName = true →
        declaration.name.toList.getLast? ≠ some '\\') := by
  obtain ⟨plain, lines, isPlain⟩ := declaration.exists_lines_eq
  have others : ∀ line ∈ plain, line.text.toList.getLast? ≠ some '\\' :=
    fun line member => (isPlain line member).getLast?_ne
  rw [lines, List.forall_mem_cons, and_iff_left others, Line.text,
    Call.getLast?_text]
  cases declaration with
  | ofUniverse u =>
      rw [announcement, Call.comment, getLast?_labelled_ne_iff rfl]
      exact (imp_iff_right rfl).symm
  | ofRulebase scope rulebase =>
      rw [announcement, Call.comment, endsWithName]
      cases rulebase.consequent with
      | none =>
          have closed : " (INVALID)".toList.getLast? = some ')' := rfl
          rw [if_pos rfl, String.toList_append, List.getLast?_append, closed]
          simp
      | some consequent =>
          rw [if_neg (by simp), String.append_empty,
            getLast?_labelled_ne_iff rfl]
          exact (imp_iff_right rfl).symm

end Declaration

namespace Script

theorem plain_opening (universes rulebases : Nat) :
    ∀ line ∈ opening universes rulebases, line.Plain := by
  simp [opening, initLines, Line.Plain, Call.comment]

theorem plain_closing : ∀ line ∈ closing, line.Plain := by
  simp [closing, Line.Plain]

private theorem breaks_program (universes rulebases : Nat)
    (declarations : List Declaration) :
    breaks
      (program universes rulebases (declarations.flatMap Declaration.lines)) =
      (declarations.map fun declaration =>
        declaration.name.toList.count '\n').sum := by
  have body : breaks (declarations.flatMap Declaration.lines) =
      (declarations.map fun declaration =>
        declaration.name.toList.count '\n').sum := by
    induction declarations with
    | nil => rfl
    | cons declaration others ih =>
        rw [List.flatMap_cons, breaks_append, Declaration.breaks_lines, ih,
          List.map_cons, List.sum_cons]
  rw [program_eq, breaks_append, breaks_append,
    breaks_of_plain (plain_opening _ _), breaks_of_plain plain_closing, body,
    Nat.zero_add, Nat.add_zero]

private theorem conforms_program_iff (universes rulebases : Nat)
    (declarations : List Declaration) :
    (∀ line ∈
        program universes rulebases (declarations.flatMap Declaration.lines),
      Conforms line.text) ↔
      ∀ declaration ∈ declarations, declaration.endsWithName = true →
        declaration.name.toList.getLast? ≠ some '\\' := by
  have frame {script : Script} (plain : ∀ line ∈ script, line.Plain) :
      ∀ line ∈ script, Conforms line.text :=
    fun line member => line.conforms_iff.mpr (plain line member).getLast?_ne
  rw [program_eq, List.forall_mem_append, List.forall_mem_append,
    and_iff_right (frame (plain_opening _ _)),
    and_iff_left (frame plain_closing), List.forall_mem_flatMap]
  apply forall₂_congr
  intro declaration _
  rw [← declaration.getLast?_lines_iff]
  exact forall₂_congr fun line _ => line.conforms_iff

private theorem sum_breaks_eq_zero_iff (declarations : List Declaration) :
    (declarations.map fun declaration =>
      declaration.name.toList.count '\n').sum = 0 ↔
      ∀ declaration ∈ declarations, '\n' ∉ declaration.name.toList := by
  rw [List.sum_eq_zero_iff, List.forall_mem_map]
  exact forall₂_congr fun declaration _ => List.count_eq_zero

private theorem linesOf_program_iff (universes rulebases : Nat)
    (declarations : List Declaration) :
    let script :=
      program universes rulebases (declarations.flatMap Declaration.lines)
    (linesOf script.text = script.map Line.text ++ [""] ∧
        ∀ line ∈ linesOf script.text, Conforms line) ↔
      ∀ declaration ∈ declarations, declaration.Confined := by
  intro script
  have forms (same : linesOf script.text = script.map Line.text ++ [""]) :
      (∀ line ∈ linesOf script.text, Conforms line) ↔
        ∀ line ∈ script, Conforms line.text := by
    rw [same, List.forall_mem_append, List.forall_mem_map,
      List.forall_mem_singleton]
    exact and_iff_left (.frame (by decide))
  rw [and_congr_right forms, linesOf_text_iff, breaks_program,
    sum_breaks_eq_zero_iff, conforms_program_iff, ← forall₂_and]
  rfl

end Script

private theorem exists_script_of_compileSource {source output : String}
    (compiled : compileSource source = .ok output) :
    ∃ tokens script, Token.scan source = .ok tokens ∧
      (compile tokens).result = .ok script ∧
      output = script.text := by
  cases scanned : Token.scan source with
  | error error =>
      rw [compileSource, scanned] at compiled
      cases compiled
  | ok tokens =>
      rw [compileSource_of_scan scanned] at compiled
      cases result : (compile tokens).result with
      | error error =>
          rw [result] at compiled
          cases compiled
      | ok script =>
          rw [result] at compiled
          cases compiled
          exact ⟨tokens, script, rfl, result, rfl⟩

/-- Every line of a compiled text is a line of its script and has the form of a
call or of the frame exactly when no name holds a line feed and no name that
ends a line ends in a backslash. Each line feed in a name is one more line. -/
theorem compileSource_confines_names_iff {source output : String}
    (compiled : compileSource source = .ok output) :
    ∃ tokens script, Token.scan source = .ok tokens ∧
      (compile tokens).result = .ok script ∧
      output = script.text ∧
      (linesOf output).length = script.length + 1 +
        ((Progress.start tokens).declarations.map fun declaration =>
          declaration.name.toList.count '\n').sum ∧
      ((linesOf output = script.map Line.text ++ [""] ∧
        ∀ line ∈ linesOf output, Conforms line) ↔
        ∀ declaration ∈ (Progress.start tokens).declarations,
          declaration.Confined) := by
  obtain ⟨tokens, script, scanned, result, rfl⟩ :=
    exists_script_of_compileSource compiled
  obtain ⟨finish, ran, rfl⟩ := exists_run_of_compile result
  have written : finish.lines.toList =
      (Progress.start tokens).declarations.flatMap Declaration.lines :=
    (Progress.ran_of_run ran).lines_eq
  refine ⟨tokens, _, scanned, result, rfl, ?_, ?_⟩
  · rw [length_linesOf_text, written, breaks_program]
  · rw [written]
    exact linesOf_program_iff _ _ _

def emptyBlock (keyword name : String) : List Token :=
  [.keyword keyword, ⟨.literal, name⟩, .keyword "end"]

private theorem compileSource_of_onOneLine (source : String)
    {tokens : List Token} {script : Script}
    (scannable : ∀ token ∈ tokens, token.Scannable)
    (written : Program.onOneLine.render (tokens.map Token.piece) = source)
    (result : (compile tokens).result = .ok script) :
    Token.scan source = .ok tokens ∧
      compileSource source = .ok script.text := by
  have scanned : Token.scan source = .ok tokens := by
    rw [← written]
    exact Token.scan_render_scannable scannable Program.onOneLine
  refine ⟨scanned, ?_⟩
  rw [compileSource_of_scan scanned, result]
  rfl

/-- A line feed in a name adds a line, and a backslash at the end of a name
continues its comment in the next line, but not where the comment itself goes on
behind the name. -/
theorem compileSource_confines_names_broken :
    (∃ output, compileSource "universe \"a\nb\" end" = .ok output ∧
      (linesOf output).length = 11 ∧
      "b" ∈ linesOf output ∧ ¬Conforms "b") ∧
    (∃ output, compileSource "universe \"a\\\" end" = .ok output ∧
      "FRI_initUniverseById(0, 0); // Universe: a\\" ∈ linesOf output ∧
      ¬Conforms "FRI_initUniverseById(0, 0); // Universe: a\\") ∧
    ∃ output, compileSource "rulebase \"a\\\" end" = .ok output ∧
      "FRI_initRuleBaseById(0, 0, -1); // Rulebase: a\\ (INVALID)" ∈
        linesOf output ∧
      ∀ line ∈ linesOf output, Conforms line := by
  have broken : (compile (emptyBlock "universe" "a\nb")).result =
      .ok (program 1 0 [.call (.initUniverse 0 0 "a\nb"), .blank]) := by
    decide +kernel
  have continued : (compile (emptyBlock "universe" "a\\")).result =
      .ok (program 1 0 [.call (.initUniverse 0 0 "a\\"), .blank]) := by
    decide +kernel
  have closed : (compile (emptyBlock "rulebase" "a\\")).result =
      .ok (program 0 1 [.call (.initRulebase 0 0 none "a\\"), .blank]) := by
    decide +kernel
  obtain ⟨scannedBroken, compiledBroken⟩ :=
    compileSource_of_onOneLine "universe \"a\nb\" end" (by decide)
      (by decide +kernel) broken
  obtain ⟨_, compiledContinued⟩ :=
    compileSource_of_onOneLine "universe \"a\\\" end" (by decide)
      (by decide +kernel) continued
  obtain ⟨scannedClosed, compiledClosed⟩ :=
    compileSource_of_onOneLine "rulebase \"a\\\" end" (by decide)
      (by decide +kernel) closed
  refine ⟨⟨_, compiledBroken, ?_, by decide +kernel, ?_⟩,
    ⟨_, compiledContinued, by decide +kernel, ?_⟩, _, compiledClosed,
    by decide +kernel, ?_⟩
  · obtain ⟨tokens, script, scanned, result, _, count, _⟩ :=
      compileSource_confines_names_iff compiledBroken
    cases scannedBroken.symm.trans scanned
    cases broken.symm.trans result
    exact count.trans (by decide +kernel)
  · intro conforms
    exact absurd conforms.mem_frame_or_call (by decide)
  · intro conforms
    exact absurd rfl conforms.getLast?_ne
  · obtain ⟨tokens, script, scanned, _, _, _, confined⟩ :=
      compileSource_confines_names_iff compiledClosed
    cases scannedClosed.symm.trans scanned
    exact (confined.mpr (by decide +kernel)).2

end FuzzyRules
