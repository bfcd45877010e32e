import FuzzyRules.Number.Numeral
import FuzzyRules.Scope
import FuzzyRules.Token.Cursor

namespace FuzzyRules

namespace Coordinate

/-- The number at the front of a coordinate's text. -/
def value (text : String) : Binary64 :=
  match Numeral.read? text.toList with
  | none => .nan
  | some (number, _) => number

def diagnostics (universeName element text : String) : List Diagnostic :=
  match Numeral.read? text.toList with
  | none => [.notANumber universeName element text]
  | some (_, []) => []
  | some (_, _ :: _) => [.trailingText universeName element text]

end Coordinate

def Element.readOne (universeName : String) (cursor : Cursor) :
    Reading Element :=
  let name := cursor.peek.value
  let x := (cursor.peekNth 1).value
  let y := (cursor.peekNth 2).value
  { value := ⟨name, Coordinate.value x, Coordinate.value y⟩
    cursor := cursor.advance 3
    diagnostics :=
      Coordinate.diagnostics universeName name x ++
        Coordinate.diagnostics universeName name y }

def Element.readAll (universeName : String) (cursor : Cursor) :
    Reading (List Element) :=
  if _literal : cursor.peek.kind = .literal then
    let first := Element.readOne universeName cursor
    let others := Element.readAll universeName (cursor.advance 3)
    { value := first.value :: others.value
      cursor := others.cursor
      diagnostics := first.diagnostics ++ others.diagnostics }
  else ⟨[], cursor, []⟩
termination_by cursor.rest.length
decreasing_by
  exact Cursor.rest_length_advance_lt
    (Cursor.isAtEnd_of_peek_ne_empty (by simp [*])) (by omega)

/-- The universe at the cursor, with the id that it has when declared in
`scope`. -/
def Universe.read (scope : Scope) (cursor : Cursor) : Reading Universe :=
  let name := (cursor.peekNth 1).value
  let elements := Element.readAll name (cursor.advance 2)
  let declared := scope.newUniverse name elements.value
  { value := declared
    cursor := elements.cursor.advance 1
    diagnostics := elements.diagnostics ++ elements.cursor.mismatch "end" ++
      [.universeRead declared.id name elements.value.length] }

theorem Element.exists_readAll_cursor (universeName : String)
    (cursor : Cursor) :
    ∃ n, (Element.readAll universeName cursor).cursor = cursor.advance n := by
  fun_induction Element.readAll universeName cursor with
  | case1 cursor _ _ _ ih =>
      obtain ⟨n, hn⟩ := ih
      exact ⟨3 + n, hn.trans (Cursor.advance_advance cursor 3 n)⟩
  | case2 cursor _ => exact ⟨0, rfl⟩

theorem Universe.exists_read_cursor (scope : Scope) (cursor : Cursor) :
    ∃ n, (Universe.read scope cursor).cursor = cursor.advance (3 + n) := by
  obtain ⟨n, hn⟩ :=
    Element.exists_readAll_cursor (cursor.peekNth 1).value (cursor.advance 2)
  refine ⟨n, ?_⟩
  simp only [Universe.read, hn, Cursor.advance_advance]
  congr 1
  omega

end FuzzyRules
