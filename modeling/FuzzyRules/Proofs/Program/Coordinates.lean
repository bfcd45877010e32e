import FuzzyRules.Proofs.Number.RoundTrip
import FuzzyRules.Proofs.Program.Compile

namespace FuzzyRules

/-! A program keeps its meaning when its coordinates are replaced by the ones in
its script. -/

private theorem Word.decimals_le_numbers : decimals ≤ numbers := by
  intro text member
  exact ⟨text, member, [], Or.inl rfl, List.append_nil text⟩

private theorem Binary64.isNumber_text {number : Binary64}
    (isFinite : number.IsFinite) : Program.IsNumber number.text := by
  cases number with
  | nan => cases isFinite
  | infinite negative => cases isFinite
  | finite negative rank =>
      exact Word.decimals_le_numbers (text_mem_decimals negative rank)

private theorem Word.split?_number_self {word : List Char}
    (member : word ∈ numbers) :
    Grammar.number.split? word = some (word, []) := by
  have split := split?_number (Pattern.mem_kstar_letter.mp (numbers_le member))
    (show Stops isWordChar [] from trivial)
  rwa [List.append_nil, if_pos member] at split

private theorem Token.scan_number {text : String}
    (number : Program.IsNumber text) : scan text = .ok [⟨.literal, text⟩] := by
  have spelled :=
    (spelledBy_number number).scanChars (show Stops isWordChar [] from trivial)
  have nothing : scanChars [] = .ok [] := scanChars_after []
  rw [Piece.text, List.append_nil, nothing] at spelled
  rw [scan, spelled]
  rfl

private theorem Coordinate.value_text {number : Binary64}
    (isFinite : number.IsFinite) :
    value number.text = number.withoutZeroSign := by
  rw [value, Binary64.read?_text isFinite]

private theorem Coordinate.text_value_text {number : Binary64}
    (isFinite : number.IsFinite) : (value number.text).text = number.text := by
  rw [value_text isFinite, Binary64.text_withoutZeroSign]

def Element.IsFinite (element : Element) : Prop :=
  element.x.IsFinite ∧ element.y.IsFinite
  deriving Decidable

namespace Program

/-- An element written with the coordinates that a script holds for it. -/
def Entry.ofElement (element : Element) : Entry :=
  ⟨element.name, element.x.text, element.y.text⟩

private theorem Entry.text_ofElement {element : Element}
    (isFinite : element.IsFinite) :
    (Entry.ofElement element).text =
      "FRI_addUniverseElement(" ++ element.x.text ++ ", " ++ element.y.text ++
        ");\n" := by
  unfold Entry.text ofElement
  rw [Coordinate.text_value_text isFinite.1,
    Coordinate.text_value_text isFinite.2]

private theorem universeText_ofElement (id : Nat) (name : String)
    {elements : List Element}
    (isFinite : ∀ element ∈ elements, element.IsFinite) :
    universeText id name (elements.map Entry.ofElement) =
      "FRI_initUniverseById(" ++ Nat.repr id ++ ", " ++
        Nat.repr elements.length ++ "); // Universe: " ++ name ++ "\n" ++
        String.join (elements.map fun element =>
          "FRI_addUniverseElement(" ++ element.x.text ++ ", " ++
            element.y.text ++ ");\n") ++
        "\n" := by
  have entries : (elements.map Entry.ofElement).map Entry.text =
      elements.map fun element =>
        "FRI_addUniverseElement(" ++ element.x.text ++ ", " ++ element.y.text ++
          ");\n" := by
    rw [List.map_map]
    exact List.map_congr_left fun element member =>
      Entry.text_ofElement (isFinite element member)
  unfold universeText
  rw [entries, List.length_map]

/-- Wherever a compilation comes to a universe, it adds the text of its
entries. -/
theorem step_entries {progress : Progress} {named : Token}
    {entries : List Entry} {after : List Token}
    (closed : (after.headD .empty).kind ≠ .literal)
    (rest : progress.cursor.rest = Token.keyword "universe" :: named ::
      (entries.flatMap (Entry.write asTokens) ++ after)) :
    ∃ next, progress.step = .ok next ∧ next.cursor.rest = after.tail ∧
      Script.text next.lines.toList = Script.text progress.lines.toList ++
        universeText progress.scope.universes.length named.value entries := by
  have opens : progress.cursor.peek.isKeyword "universe" = true := by
    rw [Cursor.peek_of_rest rest]
    rfl
  obtain ⟨read, stopsAt⟩ := read_entries progress.scope closed rest
  refine ⟨progress.compileUniverse, Progress.step_of_universe opens,
    stopsAt, ?_⟩
  rw [Progress.compileUniverse, read, Array.toList_appendList,
    Script.text_append, Scope.newUniverse, text_universe]

def Entry.emitted (entry : Entry) : Entry :=
  .ofElement entry.element

namespace Block

def emitted : Block → Block
  | ofUniverse name entries => ofUniverse name (entries.map Entry.emitted)
  | ofRulebase name rules => ofRulebase name rules

def IsFinite : Block → Prop
  | ofUniverse _ entries => ∀ entry ∈ entries, entry.element.IsFinite
  | ofRulebase _ _ => True

instance : (block : Block) → Decidable block.IsFinite
  | .ofUniverse _ entries =>
      inferInstanceAs (Decidable (∀ entry ∈ entries, entry.element.IsFinite))
  | .ofRulebase _ _ => inferInstanceAs (Decidable True)

private theorem wellFormed_emitted {block : Block}
    (wellFormed : block.WellFormed) (isFinite : block.IsFinite) :
    block.emitted.WellFormed := by
  cases block with
  | ofRulebase name rules => exact wellFormed
  | ofUniverse name entries =>
      refine ⟨wellFormed.1, List.forall_mem_map.mpr ?_⟩
      intro entry member
      obtain ⟨x, y⟩ := isFinite entry member
      exact ⟨(wellFormed.2 entry member).1, Binary64.isNumber_text x,
        Binary64.isNumber_text y⟩

end Block

private theorem universes_map_emitted (blocks : List Block) :
    universes (blocks.map Block.emitted) = universes blocks := by
  rw [universes, universes, List.filterMap_map]
  apply List.filterMap_congr
  intro block _
  cases block with
  | ofUniverse name entries =>
      simp [Block.emitted, Entry.emitted, Entry.ofElement, Entry.element]
  | ofRulebase name rules => rfl

theorem rulebases_map_emitted (blocks : List Block) :
    rulebases (blocks.map Block.emitted) = rulebases blocks := by
  rw [rulebases, rulebases, List.filterMap_map]
  apply List.filterMap_congr
  intro block _
  cases block <;> rfl

private theorem ruleText_congr {earlier other : List Block}
    (same : universes earlier = universes other) :
    ruleText earlier = ruleText other := by
  have antecedents : antecedentText earlier = antecedentText other := by
    funext antecedent
    unfold antecedentText universeId? elementIndex?
    rw [same]
  funext index rule
  unfold ruleText
  rw [antecedents]

private theorem universeText_emitted (id : Nat) (name : String)
    {entries : List Entry}
    (isFinite : ∀ entry ∈ entries, entry.element.IsFinite) :
    universeText id name (entries.map Entry.emitted) =
      universeText id name entries := by
  have emitted : entries.map Entry.emitted =
      (entries.map Entry.element).map Entry.ofElement := by
    rw [List.map_map]
    rfl
  rw [emitted,
    universeText_ofElement id name (List.forall_mem_map.mpr isFinite),
    List.length_map, List.map_map]
  rfl

private theorem Block.text_emitted (earlier : List Block) {block : Block}
    (isFinite : block.IsFinite) :
    block.emitted.text (earlier.map Block.emitted) = block.text earlier := by
  have same := universes_map_emitted earlier
  cases block with
  | ofUniverse name entries =>
      rw [emitted, Block.text, Block.text, same,
        universeText_emitted _ name isFinite]
  | ofRulebase name rules =>
      rw [emitted, Block.text, Block.text, rulebases_map_emitted, universeId?,
        universeId?, same]
      unfold rulebaseText
      rw [ruleText_congr same]

private theorem textFrom_map_emitted (earlier : List Block)
    {blocks : List Block} (isFinite : ∀ block ∈ blocks, block.IsFinite) :
    textFrom (earlier.map Block.emitted) (blocks.map Block.emitted) =
      textFrom earlier blocks := by
  induction blocks generalizing earlier with
  | nil => rfl
  | cons block others ih =>
      obtain ⟨first, rest⟩ := List.forall_mem_cons.mp isFinite
      have next := ih (earlier ++ [block]) rest
      rw [List.map_append, List.map_singleton] at next
      rw [List.map_cons, textFrom, textFrom,
        Block.text_emitted earlier first, next]

private theorem text_map_emitted {blocks : List Block}
    (isFinite : ∀ block ∈ blocks, block.IsFinite) :
    text (blocks.map Block.emitted) = text blocks := by
  have body : textFrom [] (blocks.map Block.emitted) = textFrom [] blocks :=
    textFrom_map_emitted [] isFinite
  unfold text
  rw [universes_map_emitted, rulebases_map_emitted, body]

/-- Of repeated names, one is the first to come a second time. -/
theorem exists_repeated {blocks : List Block}
    (repeated : ¬(rulebases blocks).Nodup) :
    ∃ first name rules others,
      blocks = first ++ .ofRulebase name rules :: others ∧
      (rulebases first).Nodup ∧ name ∈ rulebases first := by
  induction blocks using List.reverseRecOn with
  | nil => exact absurd List.nodup_nil repeated
  | append_singleton earlier last ih =>
      by_cases distinct : (rulebases earlier).Nodup
      · cases last with
        | ofUniverse name entries =>
            rw [rulebases_append_universe] at repeated
            exact absurd distinct repeated
        | ofRulebase name rules =>
            refine ⟨earlier, name, rules, [], rfl, distinct, ?_⟩
            by_contra fresh
            rw [rulebases_append_rulebase] at repeated
            exact repeated (distinct.append (List.nodup_singleton name)
              (List.disjoint_singleton.mpr fresh))
      · obtain ⟨first, name, rules, others, rfl, distinctFirst, member⟩ :=
          ih distinct
        exact ⟨first, name, rules, others ++ [last], by simp,
          distinctFirst, member⟩

theorem compileSource_emitted {blocks : List Block}
    (wellFormed : ∀ block ∈ blocks, block.WellFormed)
    (isFinite : ∀ block ∈ blocks, block.IsFinite) (layout other : Layout) :
    compileSource (other.render (pieces (blocks.map Block.emitted))) =
      compileSource (layout.render (pieces blocks)) := by
  have wellFormedEmitted : ∀ block ∈ blocks.map Block.emitted,
      block.WellFormed :=
    List.forall_mem_map.mpr fun block member =>
      Block.wellFormed_emitted (wellFormed block member) (isFinite block member)
  rw [compileSource_of_scan (scan_render wellFormedEmitted other),
    compileSource_of_scan (scan_render wellFormed layout)]
  by_cases distinct : (rulebases blocks).Nodup
  · have distinctEmitted : (rulebases (blocks.map Block.emitted)).Nodup := by
      rwa [rulebases_map_emitted]
    obtain ⟨script, compiled, written⟩ := compile_tokens wellFormed distinct
    obtain ⟨again, compiledAgain, writtenAgain⟩ :=
      compile_tokens wellFormedEmitted distinctEmitted
    rw [text_map_emitted isFinite, ← written] at writtenAgain
    rw [compiled, compiledAgain]
    exact congrArg Except.ok writtenAgain
  · -- Names are left alone, so the same one is the first to come a second time.
    obtain ⟨first, name, rules, others, rfl, distinctFirst, member⟩ :=
      exists_repeated distinct
    have wellFormedFirst := (List.forall_mem_append.mp wellFormed).1
    rw [List.map_append, List.forall_mem_append] at wellFormedEmitted
    have failed :
        (compile (tokens (first ++ .ofRulebase name rules :: others))).result =
        .error (.duplicateRulebase name) :=
      compile_repeated wellFormedFirst distinctFirst member
    rw [← rulebases_map_emitted] at distinctFirst member
    have failedAgain : (compile (tokens (first.map Block.emitted ++
        .ofRulebase name rules :: others.map Block.emitted))).result =
        .error (.duplicateRulebase name) :=
      compile_repeated wellFormedEmitted.1 distinctFirst member
    rw [List.map_append, List.map_cons, Block.emitted, failed, failedAgain]

/-- Every finite number, by its bit pattern, is written as a number of the
grammar, which is scanned as one literal and read as a whole; the bits that are
read are the same, but that the sign of a negative zero is lost. So wherever a
compilation comes to a universe that is written with the coordinates of a
script, it writes these coordinates again, and a program whose coordinates are
all replaced by the ones that are written for them is compiled as before, under
every layout. -/
theorem emitted_coordinates_read_back :
    (∀ bits : UInt64, bits >>> 52 &&& 0x7ff ≠ 0x7ff →
      let text := (Binary64.ofBits bits).text
      Grammar.number.split? text.toList = some (text.toList, []) ∧
      Token.scan text = .ok [⟨.literal, text⟩] ∧
      ∃ number, Numeral.read? text.toList = some (number, []) ∧
        Numeral.readBytes? text = some (some (number, text.utf8ByteSize)) ∧
        number.toBits = if bits = 0x8000000000000000 then 0 else bits) ∧
    (∀ (progress : Progress) (named : Token) (elements : List Element)
      (after : List Token),
      (∀ element ∈ elements, element.x.IsFinite ∧ element.y.IsFinite) →
      (after.headD .empty).kind ≠ .literal →
      progress.cursor.rest = Token.keyword "universe" :: named ::
        (elements.flatMap (fun element =>
          [⟨.literal, element.name⟩, ⟨.literal, element.x.text⟩,
            ⟨.literal, element.y.text⟩]) ++ after) →
      ∃ next, progress.step = .ok next ∧ next.cursor.rest = after.tail ∧
        Script.text next.lines.toList = Script.text progress.lines.toList ++
          ("FRI_initUniverseById(" ++
            Nat.repr progress.scope.universes.length ++ ", " ++
            Nat.repr elements.length ++ "); // Universe: " ++ named.value ++
            "\n" ++ String.join (elements.map fun element =>
              "FRI_addUniverseElement(" ++ element.x.text ++ ", " ++
                element.y.text ++ ");\n") ++
            "\n")) ∧
    ∀ (blocks : List Block) (layout other : Layout),
      (∀ block ∈ blocks, block.WellFormed) →
      (∀ block ∈ blocks, block.IsFinite) →
      compileSource (other.render (pieces (blocks.map Block.emitted))) =
        compileSource (layout.render (pieces blocks)) := by
  refine ⟨?_, ?_, ?_⟩
  · intro bits exponent text
    obtain ⟨inside, ofBits⟩ := Binary64.ofBits_of_exponent exponent
    have isFinite : (Binary64.ofBits bits).IsFinite := by
      rw [ofBits]
      trivial
    have number : IsNumber text := Binary64.isNumber_text isFinite
    have read := Binary64.read?_text isFinite
    exact ⟨Word.split?_number_self number, Token.scan_number number, _, read,
      Numeral.readBytes?_of_read? read,
      Binary64.toBits_withoutZeroSign exponent⟩
  · intro progress named elements after isFinite closed rest
    have entries : progress.cursor.rest = Token.keyword "universe" :: named ::
        ((elements.map Entry.ofElement).flatMap (Entry.write asTokens) ++
          after) := by
      rw [rest, List.flatMap_map]
      rfl
    obtain ⟨next, stepped, stopsAt, written⟩ := step_entries closed entries
    rw [universeText_ofElement _ _ isFinite] at written
    exact ⟨next, stepped, stopsAt, written⟩
  · intro blocks layout other wellFormed isFinite
    exact compileSource_emitted wellFormed isFinite layout other

def minusTenth : Binary64 := .ofBits 0xbfb999999999999a

def minusZero : Binary64 := .ofBits 0x8000000000000000

/-- A tenth and a zero, neither of them as short as they can be. -/
def spelledOut : List Block :=
  [.ofUniverse "low" [⟨"end", "-10e-2", "-0.0"⟩], .ofRulebase "high" []]

/-- The least magnitude above zero has 324 digits behind the point. -/
theorem emitted_coordinates_read_back_least :
    ((1 : UInt64) >>> 52 &&& 0x7ff ≠ 0x7ff ∧
      ∃ text number, text =
        "0." ++ String.ofList (List.replicate 323 '0') ++ "5" ∧
        Token.scan text = .ok [⟨.literal, text⟩] ∧
        Numeral.readBytes? text = some (some (number, 326)) ∧
        number.toBits = 1) ∧
    (minusZero.text = "0" ∧
      ∃ number, Numeral.read? "0".toList = some (number, []) ∧
      number.toBits = 0) ∧
    (∃ next, (Progress.start [.keyword "universe", ⟨.other, "low"⟩,
        ⟨.literal, "end"⟩, ⟨.literal, "-0.1"⟩, ⟨.literal, "0"⟩]).step =
        .ok next ∧
      Script.text next.lines.toList =
        "FRI_initUniverseById(0, 1); // Universe: low\n" ++
        "FRI_addUniverseElement(-0.1, 0);\n\n") ∧
    compileSource "universe \"low\" \"end\" -0.1 0 end rulebase \"high\" end" =
      compileSource
        "universe \"low\" \"end\" -10e-2 -0.0 end rulebase \"high\" end" := by
  obtain ⟨numbers, universes, programs⟩ := emitted_coordinates_read_back
  have zeroText : minusZero.text = "0" := by decide +kernel
  have least : (1 : UInt64) >>> 52 &&& 0x7ff ≠ 0x7ff := by decide
  refine ⟨⟨least, ?_⟩, ⟨zeroText, ?_⟩, ?_, ?_⟩
  · obtain ⟨_, scanned, number, _, bytes, bits⟩ := numbers 1 least
    have text : (Binary64.ofBits 1).text =
        "0." ++ String.ofList (List.replicate 323 '0') ++ "5" := by
      decide +kernel
    have size : (Binary64.ofBits 1).text.utf8ByteSize = 326 := by decide +kernel
    rw [size] at bytes
    exact ⟨_, number, text, scanned, bytes, bits⟩
  · obtain ⟨_, _, number, read, _, bits⟩ :=
      numbers 0x8000000000000000 (by decide)
    exact ⟨number, zeroText ▸ read, bits⟩
  · obtain ⟨next, stepped, _, written⟩ := universes
      (.start [.keyword "universe", ⟨.other, "low"⟩, ⟨.literal, "end"⟩,
        ⟨.literal, "-0.1"⟩, ⟨.literal, "0"⟩])
      ⟨.other, "low"⟩ [⟨"end", minusTenth, minusZero⟩] []
      (by decide) (by decide) (by decide +kernel)
    refine ⟨next, stepped, written.trans ?_⟩
    decide +kernel
  · have same :=
      programs spelledOut onOneLine onOneLine (by decide) (by decide +kernel)
    refine Eq.trans (congrArg compileSource ?_)
      (same.trans (congrArg compileSource ?_))
    · decide +kernel
    · decide +kernel

end Program

end FuzzyRules
