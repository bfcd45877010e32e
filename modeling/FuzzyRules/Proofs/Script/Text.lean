import FuzzyRules.Script.Basic
import Mathlib

namespace FuzzyRules

namespace Call

theorem text_addElement (x y : Binary64) :
    (addElement x y).text ++ "\n" =
      "FRI_addUniverseElement(" ++ x.text ++ ", " ++ y.text ++ ");\n" := by
  simp [text, function, arguments, comment, ← String.toList_inj]

theorem text_initUniverse (id elements : Nat) (name : String) :
    (initUniverse id elements name).text =
      "FRI_initUniverseById(" ++ Nat.repr id ++ ", " ++ Nat.repr elements ++
        "); // Universe: " ++ name := by
  simp [text, function, arguments, comment, ← String.toList_inj]

theorem text_addAntecedent (universeId elementIndex : Option Nat) :
    (addAntecedent universeId elementIndex).text ++ "\n" =
      "FRI_addAntecedentToRule(" ++ referenceText universeId ++ ", " ++
        referenceText elementIndex ++ ");\n" := by
  simp [text, function, arguments, comment, ← String.toList_inj]

theorem text_addRule (index antecedents : Nat) :
    (addRule index antecedents).text ++ "\n" =
      "FRI_addRuleToRulebase(" ++ Nat.repr index ++ ", " ++
        Nat.repr antecedents ++ ");\n" := by
  simp [text, function, arguments, comment, ← String.toList_inj]

theorem text_initRulebase (id rules consequent : Nat) (name : String) :
    (initRulebase id rules (some consequent) name).text =
      "FRI_initRuleBaseById(" ++ Nat.repr id ++ ", " ++ Nat.repr rules ++
        ", " ++ Nat.repr consequent ++ "); // Rulebase: " ++ name := by
  simp [text, function, arguments, comment, referenceText, ← String.toList_inj]

theorem text_initRulebase_unmatched (id : Nat) (name : String) :
    (initRulebase id 0 none name).text ++ "\n" ++ "\n" =
      "FRI_initRuleBaseById(" ++ Nat.repr id ++ ", 0, -1); // Rulebase: " ++
        name ++ " (INVALID)\n\n" := by
  simp [text, function, arguments, comment, referenceText, ← String.toList_inj]

private theorem text_init (universes rulebases : Nat) :
    (init universes rulebases).text ++ "\n" =
      "FRI_init(" ++ Nat.repr universes ++ ", " ++ Nat.repr rulebases ++
        ");\n" := by
  simp [text, function, arguments, comment, ← String.toList_inj]

end Call

namespace Script

theorem text_cons (line : Line) (script : Script) :
    text (line :: script) = line.text ++ "\n" ++ text script := by
  rw [text, List.map_cons, String.join_cons]
  rfl

theorem text_append (first second : Script) :
    text (first ++ second) = text first ++ text second := by
  rw [text, List.map_append, String.join_append]
  rfl

theorem text_flatten (scripts : List Script) :
    text scripts.flatten = String.join (scripts.map text) := by
  induction scripts with
  | nil => rfl
  | cons script others ih =>
      rw [List.flatten_cons, text_append, ih, List.map_cons, String.join_cons]

theorem text_map {α : Type} (line : α → Line) (list : List α) :
    text (list.map line) =
      String.join (list.map fun a => (line a).text ++ "\n") := by
  rw [text, List.map_map]
  rfl

theorem text_program (universes rulebases : Nat) (body : Script) :
    text (program universes rulebases body) =
      "int main()\x7b\n\n" ++ "FRI_init(" ++ Nat.repr universes ++ ", " ++
        Nat.repr rulebases ++ ");\n\n" ++ text body ++
        "\nreturn 0;\n\x7d\n" := by
  have announced : text (initLines universes rulebases) =
      "FRI_init(" ++ Nat.repr universes ++ ", " ++ Nat.repr rulebases ++
        ");\n\n" := by
    rw [initLines, text_cons, Line.text, Call.text_init, String.append_assoc]
    rfl
  rw [program, text_append, text_append, text_append, announced]
  simp only [String.append_assoc]
  rfl

/-- A program up to the line that announces the numbers of its blocks, and the
blank one below. -/
def opening (universes rulebases : Nat) : Script :=
  [.entry, .blank] ++ initLines universes rulebases

def closing : Script :=
  [.blank, .success, .exit]

theorem program_eq (universes rulebases : Nat) (body : Script) :
    program universes rulebases body =
      opening universes rulebases ++ body ++ closing :=
  rfl

end Script

end FuzzyRules
