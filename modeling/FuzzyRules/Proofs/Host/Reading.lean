import FuzzyRules.Proofs.Host.Basic
import FuzzyRules.Proofs.Number.Text
import FuzzyRules.Proofs.Script.Text
import FuzzyRules.Proofs.Text.Quoted

namespace FuzzyRules

namespace Host

def Request.ofCall : Call → Request
  | .init universes rulebases => .init universes rulebases
  | .initUniverse id elements _ => .initUniverse id elements
  | .addElement x y => .addElement x.text y.text
  | .initRulebase id rules consequent _ => .initRulebase id rules consequent
  | .addRule index antecedents => .addRule index antecedents
  | .addAntecedent universeId elementIndex =>
      .addAntecedent ⟨universeId, elementIndex⟩

def requests : Script.Line → List Request
  | .call c => [.ofCall c]
  | .blank | .entry | .success | .exit => []

def isArgumentChar (c : Char) : Bool :=
  c.isAlphanum || c = '-' || c = '.'

def IsArgument (text : String) : Prop :=
  ∀ c ∈ text.toList, isArgumentChar c = true

private theorem isArgumentChar_of_isDigit {c : Char}
    (digit : c.isDigit = true) :
    isArgumentChar c = true := by
  simp [isArgumentChar, Char.isAlphanum, digit]

private theorem isArgument_repr (n : Nat) : IsArgument (Nat.repr n) := by
  intro c member
  exact isArgumentChar_of_isDigit
    ((Word.mem_digits.mp (Word.repr_mem_digits n)).2 c member)

private theorem isArgument_reference (reference : Option Nat) :
    IsArgument (referenceText reference) := by
  cases reference with
  | none => simp [IsArgument, referenceText, isArgumentChar]
  | some id => exact isArgument_repr id

private theorem isArgument_binary64 (number : Binary64) :
    IsArgument number.text := by
  cases number with
  | nan => simp [IsArgument, Binary64.text, isArgumentChar]
  | infinite negative =>
      cases negative <;> simp [IsArgument, Binary64.text, isArgumentChar]
  | finite negative rank =>
      have chars :=
        Word.char_of_mem_decimals (Binary64.text_mem_decimals negative rank)
      intro c member
      rcases chars c member with digit | rfl | rfl
      · exact isArgumentChar_of_isDigit digit
      · rfl
      · rfl

private theorem isArgument_of_mem_arguments {call : Call} :
    ∀ argument ∈ call.arguments, IsArgument argument := by
  cases call <;>
    simp [Call.arguments, isArgument_repr, isArgument_reference,
      isArgument_binary64]

private theorem IsArgument.not_mem {text : String}
    (isArgument : IsArgument text) {c : Char}
    (separates : isArgumentChar c = false) : c ∉ text.toList := by
  intro member
  rw [isArgument c member] at separates
  cases separates

private theorem arguments_space (inside : List Char) :
    arguments (' ' :: inside) = arguments inside := by
  have nonempty := List.splitOn_ne_nil ',' inside
  rw [arguments, arguments, List.splitOn_cons_eq_if_modifyHead,
    if_neg (by decide)]
  cases parts : inside.splitOn ',' with
  | nil => exact absurd parts nonempty
  | cons first others => rfl

private theorem dropWhile_space {text : String} (isArgument : IsArgument text) :
    text.toList.dropWhile (· = ' ') = text.toList := by
  rw [List.dropWhile_eq_self_iff]
  intro nonempty space
  have member := List.getElem_mem nonempty
  rw [of_decide_eq_true space] at member
  exact isArgument.not_mem (by decide) member

private theorem toList_intercalate_cons (first next : String)
    (others : List String) :
    (", ".intercalate (first :: next :: others)).toList =
      first.toList ++ ',' :: ' ' ::
        (", ".intercalate (next :: others)).toList := by
  simp [String.toList_intercalate, List.intercalate]

private theorem arguments_intercalate {texts : List String}
    (nonempty : texts ≠ []) (isArgument : ∀ text ∈ texts, IsArgument text) :
    arguments (", ".intercalate texts).toList = texts := by
  induction texts with
  | nil => exact absurd rfl nonempty
  | cons first others ih =>
      have isFirst : IsArgument first := isArgument first List.mem_cons_self
      have noComma : ',' ∉ first.toList := isFirst.not_mem (by decide)
      cases others with
      | nil =>
          change arguments first.toList = [first]
          rw [arguments, List.splitOn_eq_singleton noComma, List.map_singleton,
            dropWhile_space isFirst, String.ofList_toList]
      | cons next others =>
          have isOther : ∀ text ∈ next :: others, IsArgument text :=
            fun text member =>
              isArgument text (List.mem_cons_of_mem first member)
          rw [toList_intercalate_cons, arguments,
            List.splitOn_append_cons_self_of_not_mem noComma, List.map_cons,
            dropWhile_space isFirst, String.ofList_toList, ← arguments,
            arguments_space, ih (List.cons_ne_nil next others) isOther]

def isStatementChar (c : Char) : Bool :=
  isArgumentChar c || c ∈ ['_', '(', ',', ' ', ')', ';']

private theorem isStatementChar_intercalate {texts : List String}
    (isArgument : ∀ text ∈ texts, IsArgument text) :
    ∀ c ∈ (", ".intercalate texts).toList,
      isStatementChar c = true ∧ c ≠ ')' := by
  induction texts with
  | nil => exact List.forall_mem_nil _
  | cons first others ih =>
      have isFirst :
          ∀ c ∈ first.toList, isStatementChar c = true ∧ c ≠ ')' := by
        intro c member
        have isChar := isArgument first List.mem_cons_self c member
        refine ⟨by rw [isStatementChar, isChar]; rfl, ?_⟩
        intro closes
        rw [closes] at isChar
        exact absurd isChar (by decide)
      cases others with
      | nil => exact isFirst
      | cons next others =>
          rw [toList_intercalate_cons, List.forall_mem_append,
            List.forall_mem_cons, List.forall_mem_cons]
          exact ⟨isFirst, by decide, by decide,
            ih fun text member =>
              isArgument text (List.mem_cons_of_mem first member)⟩

private theorem takeWhile_until {c : Char} {chars rest : List Char}
    (free : c ∉ chars) : (chars ++ c :: rest).takeWhile (· ≠ c) = chars := by
  rw [List.takeWhile_append_of_pos, List.takeWhile_cons_of_neg (by simp),
    List.append_nil]
  intro other member
  simpa using fun same : other = c => free (same ▸ member)

private theorem dropWhile_until {c : Char} {chars rest : List Char}
    (free : c ∉ chars) :
    (chars ++ c :: rest).dropWhile (· ≠ c) = c :: rest := by
  rw [List.dropWhile_append_of_pos, List.dropWhile_cons_of_neg (by simp)]
  intro other member
  simpa using fun same : other = c => free (same ▸ member)

end Host

def Call.statement (call : Call) : String :=
  call.function ++ "(" ++ ", ".intercalate call.arguments ++ ");"

namespace Host

private theorem isStatementChar_function (call : Call) :
    ∀ c ∈ call.function.toList, isStatementChar c = true ∧ c ≠ '(' := by
  cases call <;> simp [Call.function, isStatementChar, isArgumentChar]

private theorem toList_statement (call : Call) :
    call.statement.toList = call.function.toList ++
      '(' :: ((", ".intercalate call.arguments).toList ++ [')', ';']) := by
  simp [Call.statement]

theorem isStatementChar_statement (call : Call) :
    ∀ c ∈ call.statement.toList, isStatementChar c = true := by
  simp only [toList_statement, List.forall_mem_append, List.forall_mem_cons]
  refine ⟨?_, rfl, ?_, rfl, rfl, List.forall_mem_nil _⟩
  · exact fun c member => (isStatementChar_function call c member).1
  · exact fun c member =>
      (isStatementChar_intercalate isArgument_of_mem_arguments c member).1

private theorem request?_statement (call : Call) :
    request? call.statement.toList =
      Request.of? call.function call.arguments := by
  have named : '(' ∉ call.function.toList :=
    fun member => (isStatementChar_function call '(' member).2 rfl
  have closed : ')' ∉ (", ".intercalate call.arguments).toList :=
    fun member =>
      (isStatementChar_intercalate isArgument_of_mem_arguments ')' member).2 rfl
  have nonempty : call.arguments ≠ [] := by
    cases call <;> exact List.cons_ne_nil _ _
  rw [request?, toList_statement, dropWhile_until named, takeWhile_until named,
    List.drop_one, List.tail_cons, dropWhile_until closed,
    takeWhile_until closed, if_pos rfl, String.ofList_toList,
    arguments_intercalate nonempty isArgument_of_mem_arguments]

private theorem withoutComment_append {chars rest : List Char}
    (free : '/' ∉ chars) :
    withoutComment (chars ++ rest) = chars ++ withoutComment rest := by
  induction chars with
  | nil => rfl
  | cons c others ih =>
      have notSlash : c ≠ '/' := by
        rintro rfl
        exact free List.mem_cons_self
      rw [List.cons_append, withoutComment,
        ih fun member => free (List.mem_cons_of_mem c member)]
      · rfl
      · intro more slash
        exact absurd slash notSlash

private theorem comment_cases (call : Call) :
    call.comment = "" ∨ ∃ rest,
      call.comment.toList = ' ' :: '/' :: '/' :: rest := by
  cases call with
  | initUniverse id elements name =>
      exact Or.inr ⟨_, by rw [Call.comment, String.toList_append]; rfl⟩
  | initRulebase id rules consequent name =>
      exact Or.inr ⟨_,
        by rw [Call.comment, String.append_assoc, String.toList_append]; rfl⟩
  | _ => exact Or.inl rfl

private theorem rdropWhile_statement (call : Call) :
    call.statement.toList.rdropWhile (· = ' ') = call.statement.toList := by
  have ending : call.statement.toList = (call.function.toList ++
      '(' :: ((", ".intercalate call.arguments).toList ++ [')'])) ++ [';'] := by
    simp [toList_statement]
  rw [ending, List.rdropWhile_concat_neg _ _ _ (by decide)]

/-- Dropping the comment and the blanks before it leaves the statement. -/
theorem withoutComment_text (call : Call) :
    (withoutComment call.text.toList).rdropWhile (· = ' ') =
      call.statement.toList := by
  have free : '/' ∉ call.statement.toList :=
    fun member => absurd (isStatementChar_statement call '/' member) (by decide)
  have parts : call.text.toList =
      call.statement.toList ++ call.comment.toList := by
    rw [← String.toList_append]
    rfl
  rw [parts, withoutComment_append free]
  rcases comment_cases call with empty | ⟨rest, commented⟩
  · rw [empty]
    exact (congrArg _ (List.append_nil _)).trans (rdropWhile_statement call)
  · rw [commented]
    exact (List.rdropWhile_concat_pos _ _ _ rfl).trans
      (rdropWhile_statement call)

private theorem reference?_referenceText (reference : Option Nat) :
    reference? (referenceText reference) = some reference := by
  cases reference with
  | none => rfl
  | some id =>
      have notMinus : Nat.repr id ≠ "-1" := by
        intro minus
        cases (referenceText_eq_minus_iff (some id)).mp minus
      rw [referenceText, reference?, if_neg notMinus, Nat.toNat?_repr]
      rfl

private theorem of?_call (call : Call) :
    Request.of? call.function call.arguments = some (.ofCall call) := by
  cases call <;>
    simp [Request.of?, Request.ofCall, Call.function, Call.arguments,
      Nat.toNat?_repr, reference?_referenceText]

private theorem not_mem_frame (call : Call) : call.statement ∉ frame := by
  have initial : call.statement.toList.head? = some 'F' := by
    rw [toList_statement, List.head?_append]
    cases call <;> simp [Call.function]
  have others : ∀ text ∈ frame, text.toList.head? ≠ some 'F' := by decide
  intro member
  exact others call.statement member initial

private theorem readLine?_text (line : Script.Line) :
    readLine? line.text.toList = some (requests line) := by
  cases line with
  | call c =>
      rw [Script.Line.text, readLine?, withoutComment_text,
        String.ofList_toList, if_neg (not_mem_frame c), request?_statement,
        of?_call]
      rfl
  | _ => decide +kernel

def OneLine (line : Script.Line) : Prop :=
  '\n' ∉ line.text.toList
  deriving Decidable

theorem splitOn_text {script : Script}
    (oneLine : ∀ line ∈ script, OneLine line) :
    (Script.text script).toList.splitOn '\n' =
      (script.map fun line => line.text.toList) ++ [[]] := by
  have unbroken : ∀ text ∈ script.map Script.Line.text, '\n' ∉ text.toList :=
    List.forall_mem_map.mpr oneLine
  have lines := splitOn_join unbroken
  rw [List.map_map, List.map_map] at lines
  exact lines

private theorem mapM_readLine? (script : Script) :
    ((script.map fun line : Script.Line => line.text.toList) ++ [[]]).mapM
        readLine? =
      some (script.map requests ++ [[]]) := by
  induction script with
  | nil => decide +kernel
  | cons line others ih =>
      rw [List.map_cons, List.cons_append, List.mapM_cons, readLine?_text, ih]
      rfl

theorem read?_text {script : Script} (oneLine : ∀ line ∈ script, OneLine line) :
    read? (Script.text script) = some (script.flatMap requests) := by
  rw [read?, splitOn_text oneLine, mapM_readLine?, Option.map_some,
    List.flatten_append, ← List.flatMap_def]
  simp

end Host

end FuzzyRules
