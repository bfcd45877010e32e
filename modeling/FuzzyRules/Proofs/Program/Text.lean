import FuzzyRules.Proofs.Program.Reading
import FuzzyRules.Proofs.Scope.History
import FuzzyRules.Proofs.Script.Text

namespace FuzzyRules

namespace Program

section Append

variable (earlier : List Block) (name : String)

private theorem universes_append_universe (entries : List Entry) :
    universes (earlier ++ [.ofUniverse name entries]) =
      universes earlier ++ [(name, entries.map Entry.name)] := by
  simp [universes]

private theorem universes_append_rulebase (rules : List Rule) :
    universes (earlier ++ [.ofRulebase name rules]) = universes earlier := by
  simp [universes]

theorem rulebases_append_universe (entries : List Entry) :
    rulebases (earlier ++ [.ofUniverse name entries]) = rulebases earlier := by
  simp [rulebases]

theorem rulebases_append_rulebase (rules : List Rule) :
    rulebases (earlier ++ [.ofRulebase name rules]) =
      rulebases earlier ++ [name] := by
  simp [rulebases]

end Append

theorem textFrom_append (earlier first : List Block) (block : Block) :
    textFrom earlier (first ++ [block]) =
      textFrom earlier first ++ block.text (earlier ++ first) := by
  induction first generalizing earlier with
  | nil => simp [textFrom]
  | cons next others ih =>
      rw [List.cons_append, textFrom, textFrom, ih, List.append_assoc,
        String.append_assoc]
      rfl

structure Matches (scope : Scope) (earlier : List Block) : Prop where
  -- Ids are places in this list, so equal lists of names resolve alike.
  universes : scope.universes.map
    (fun u => (u.name, u.elements.map Element.name)) =
    Program.universes earlier
  rulebases : scope.rulebases = Program.rulebases earlier
  lawful : scope.Lawful

namespace Matches

variable {scope : Scope} {earlier : List Block}
  (matched : Matches scope earlier)

theorem empty : Matches {} [] :=
  ⟨rfl, rfl, .empty⟩

include matched

theorem length_universes :
    scope.universes.length = (Program.universes earlier).length := by
  rw [← matched.universes, List.length_map]

theorem universeId? (name : String) :
    scope.universeId? name = Program.universeId? earlier name := by
  rw [matched.lawful.universeId?_eq, Program.universeId?, ← matched.universes,
    List.map_map, List.idxOf?, List.findIdx?_map]
  rfl

theorem elementIndex? (id : Nat) (name : String) :
    ((scope.universe? id).bind fun u => u.elementIndex? name) =
      Program.elementIndex? earlier id name := by
  rw [Scope.universe?, Program.elementIndex?, ← matched.universes,
    List.getElem?_map, Option.bind_map]
  congr 1
  funext u
  change u.elementIndex? name = (u.elements.map Element.name).idxOf? name
  rw [Universe.elementIndex?, List.idxOf?, List.findIdx?_map]
  rfl

theorem resolve (antecedent : Antecedent) :
    scope.resolve antecedent =
      { universeId := Program.universeId? earlier antecedent.subject
        elementIndex :=
          (Program.universeId? earlier antecedent.subject).bind fun id =>
          Program.elementIndex? earlier id antecedent.condition } := by
  rw [Scope.resolve, matched.universeId?]
  simp only [← matched.elementIndex?]
  rfl

theorem declare (name : String) (entries : List Entry) :
    Matches (scope.declare name (entries.map Entry.element))
      (earlier ++ [.ofUniverse name entries]) where
  universes := by
    rw [universes_append_universe, ← matched.universes, Scope.declare,
      List.map_append, List.map_singleton, Scope.newUniverse, List.map_map]
    rfl
  rulebases := by
    rw [rulebases_append_universe]
    exact matched.rulebases
  lawful := matched.lawful.declare name (entries.map Entry.element)

theorem claim (name : String) (rules : List Rule) :
    Matches (scope.claimed name) (earlier ++ [.ofRulebase name rules]) where
  universes := by
    rw [universes_append_rulebase]
    exact matched.universes
  rulebases := by
    rw [rulebases_append_rulebase, Scope.claimed, matched.rulebases]
  lawful := matched.lawful.withRulebases (scope.rulebases ++ [name])

end Matches

private theorem text_entries (entries : List Entry) :
    Script.text ((entries.map Entry.element).map Element.line) =
      String.join (entries.map Entry.text) := by
  rw [List.map_map, Script.text_map]
  apply congrArg String.join
  apply List.map_congr_left
  intro entry _
  exact Call.text_addElement (Coordinate.value entry.x)
    (Coordinate.value entry.y)

theorem text_universe (id : Nat) (name : String) (entries : List Entry) :
    Script.text (Universe.mk id name (entries.map Entry.element)).lines =
      universeText id name entries := by
  unfold universeText
  rw [Universe.lines, List.cons_append, Script.text_cons, Script.text_append,
    text_entries, Script.Line.text, Call.text_initUniverse, List.length_map,
    ← String.append_assoc]
  rfl

section Texts

variable {scope : Scope} {earlier : List Block}
  (matched : Matches scope earlier)

include matched

private theorem text_antecedents (antecedents : List Antecedent) :
    Script.text (antecedents.map fun antecedent =>
      (scope.resolve antecedent).line) =
      String.join (antecedents.map (antecedentText earlier)) := by
  rw [Script.text_map]
  apply congrArg String.join
  apply List.map_congr_left
  intro antecedent _
  rw [matched.resolve]
  exact Call.text_addAntecedent _ _

private theorem text_rule (index : Nat) (rule : Rule) :
    Script.text (rule.lines scope index) = ruleText earlier index rule := by
  unfold ruleText
  rw [Rule.lines, List.cons_append, Script.text_cons, Script.text_append,
    text_antecedents matched, Script.Line.text, Call.text_addRule,
    ← String.append_assoc]
  rfl

theorem text_rulebase (id : Nat) (name : String) (rules : List Rule)
    (consequent : Nat) :
    Script.text ((Rulebase.mk id name (some consequent) rules).lines scope) =
      rulebaseText earlier id name rules (some consequent) := by
  have ruleTexts :
      (rules.mapIdx fun index rule => rule.lines scope index).map Script.text =
      rules.mapIdx (ruleText earlier) := by
    apply List.ext_getElem
    · simp
    · intro index _ _
      simp [text_rule matched]
  unfold rulebaseText
  rw [Rulebase.lines, List.cons_append, Script.text_cons, Script.text_append,
    Script.text_flatten, ruleTexts, Script.Line.text, Call.text_initRulebase,
    ← String.append_assoc]
  rfl

omit matched in
theorem text_unmatched (id : Nat) (name : String) (rules : List Rule) :
    Script.text ((Rulebase.mk id name none []).lines scope) =
      rulebaseText earlier id name rules none := by
  unfold rulebaseText
  rw [Rulebase.lines, Script.text_cons, Script.Line.text, List.length_nil]
  exact Call.text_initRulebase_unmatched id name

end Texts

end Program

end FuzzyRules
