import FuzzyRules.Proofs.Rulebase.Reading

namespace FuzzyRules

namespace Element

/-- The element whose name stands at a position, with the coordinates that
follow it. -/
def standingAt (tokens : List Token) (position : Nat) : Element where
  name := (tokens.getD position .empty).value
  x := Coordinate.value (tokens.getD (position + 1) .empty).value
  y := Coordinate.value (tokens.getD (position + 2) .empty).value

/-- Of the positions in steps of three, the numbers of those at which no element
starts. -/
def closings (tokens : List Token) (position : Nat) : Set Nat :=
  {n | (tokens.getD (position + 3 * n) .empty).kind ≠ .literal}

private theorem exists_isLeast_closings (tokens : List Token) (position : Nat) :
    ∃ count, IsLeast (closings tokens position) count := by
  -- Past the end there are no literals.
  have past : (tokens.getD (position + 3 * tokens.length) .empty).kind ≠
      .literal := by
    rw [List.getD_eq_default _ _ (by omega)]
    decide
  exact ⟨_, isLeast_csInf ⟨tokens.length, past⟩⟩

private theorem closings_add_three (tokens : List Token) (position n : Nat) :
    n ∈ closings tokens (position + 3) ↔ n + 1 ∈ closings tokens position := by
  have same : position + 3 + 3 * n = position + 3 * (n + 1) := by omega
  change (tokens.getD (position + 3 + 3 * n) .empty).kind ≠ .literal ↔ _
  rw [same]
  rfl

private theorem isLeast_closings_succ {tokens : List Token}
    {position count : Nat}
    (least : IsLeast (closings tokens position) (count + 1)) :
    (tokens.getD position .empty).kind = .literal ∧
      IsLeast (closings tokens (position + 3)) count := by
  refine ⟨?_, (closings_add_three tokens position count).mpr least.1, ?_⟩
  · by_contra notLiteral
    exact absurd (least.2 (show 0 ∈ closings tokens position from notLiteral))
      (Nat.not_succ_le_zero _)
  · intro n closes
    exact Nat.le_of_succ_le_succ
      (least.2 ((closings_add_three tokens position n).mp closes))

private theorem readAll_of_isLeast (universeName : String) {tokens : List Token}
    {position count : Nat} (least : IsLeast (closings tokens position) count) :
    let reading := readAll universeName ((Cursor.start tokens).advance position)
    reading.value =
      (List.range count).map (fun n => standingAt tokens (position + 3 * n)) ∧
      reading.cursor =
        (Cursor.start tokens).advance (position + 3 * count) := by
  have peek : ((Cursor.start tokens).advance position).peek =
      tokens.getD position .empty :=
    Cursor.peekNth_advance_start tokens position 0
  induction count generalizing position with
  | zero =>
      have notLiteral : ((Cursor.start tokens).advance position).peek.kind ≠
          .literal := by
        rw [peek]
        exact least.1
      rw [readAll, dif_neg notLiteral]
      exact ⟨rfl, rfl⟩
  | succ count ih =>
      obtain ⟨literal, others⟩ := isLeast_closings_succ least
      obtain ⟨values, moved⟩ :=
        ih others (Cursor.peekNth_advance_start tokens (position + 3) 0)
      rw [← Cursor.advance_advance] at values moved
      rw [readAll, dif_pos (peek ▸ literal)]
      constructor
      · have first : (readOne universeName
            ((Cursor.start tokens).advance position)).value =
            standingAt tokens position := by
          rw [readOne, peek, Cursor.peekNth_advance_start,
            Cursor.peekNth_advance_start]
          rfl
        rw [List.range_succ_eq_map, List.map_cons, List.map_map]
        refine congrArg₂ List.cons first
          (values.trans (List.map_congr_left fun n _ => ?_))
        rw [Function.comp, Nat.succ_eq_add_one, Nat.mul_succ, Nat.add_assoc,
          Nat.add_comm 3]
      · rw [Nat.mul_succ, ← Nat.add_assoc, Nat.add_right_comm]
        exact moved

end Element

/-- Declaring a universe gives a meaning to its name, if it had none, and to no
other name. -/
theorem Scope.universeId?_declare_ne_iff (scope : Scope) (name : String)
    (elements : List Element) (other : String) :
    (scope.declare name elements).universeId? other ≠ scope.universeId? other ↔
      other = name ∧ scope.universeId? name = none := by
  rw [Scope.universeId?_declare]
  by_cases same : other = name
  · subst same
    cases scope.universeId? other <;> simp
  · simp [same, Ne.symm same]

private theorem Coordinate.value_of_past {tokens : List Token} {position : Nat}
    (past : tokens.length ≤ position) :
    value (tokens.getD position .empty).value = .nan := by
  rw [List.getD_eq_default _ _ past]
  rfl

namespace Universe

/-- From any position, as many elements are read as literals stand at every
third position from the third on, up to the first that is none. The universe has
the next id and the value of the second token for its name, and the reading ends
behind the token that follows the elements. Coordinates past the end are no
numbers. A compilation that stands there declares this universe; all else in its
scope stays, but that the name now stands for the universe if it stood for
none. -/
theorem read_takes_triples (scope : Scope) (tokens : List Token)
    (position : Nat) :
    let cursor := (Cursor.start tokens).advance position
    let reading := read scope cursor
    let name := (tokens.getD (position + 1) .empty).value
    let declared := scope.declare reading.value.name reading.value.elements
    (∃ count, IsLeast {n |
      (tokens.getD (position + 2 + 3 * n) .empty).kind ≠ .literal} count ∧
      reading.value = ⟨scope.universes.length, name,
        (List.range count).map fun n =>
          Element.standingAt tokens (position + 2 + 3 * n)⟩ ∧
      reading.cursor =
        (Cursor.start tokens).advance (position + 3 + 3 * count)) ∧
    (∀ place, tokens.length ≤ place →
      Coordinate.value (tokens.getD place .empty).value = .nan) ∧
    declared.universes = scope.universes ++ [reading.value] ∧
    declared.rulebases = scope.rulebases ∧
    (∀ other, declared.universeId? other ≠ scope.universeId? other ↔
      other = name ∧ scope.universeId? name = none) ∧
    (scope.universeId? name = none →
      declared.universeId? name = some reading.value.id) ∧
    ∀ progress : Progress, progress.cursor = cursor → progress.scope = scope →
      progress.compileUniverse.cursor = reading.cursor ∧
        progress.compileUniverse.scope = declared := by
  intro cursor reading name declared
  have named : reading.value.name = name :=
    congrArg Token.value (Cursor.peekNth_advance_start tokens position 1)
  refine ⟨?_, fun _ => Coordinate.value_of_past, rfl, rfl, ?_, ?_, ?_⟩
  · obtain ⟨count, least⟩ :=
      Element.exists_isLeast_closings tokens (position + 2)
    obtain ⟨values, moved⟩ := Element.readAll_of_isLeast name least
    rw [← Cursor.advance_advance] at values moved
    have isName : (cursor.peekNth 1).value = name := named
    refine ⟨count, least, ?_, ?_⟩
    · unfold reading
      rw [read, isName]
      exact congrArg (Universe.mk _ _) values
    · unfold reading
      rw [read, isName]
      refine (congrArg (Cursor.advance · 1) moved).trans ?_
      rw [Cursor.advance_advance]
      congr 1
      omega
  · intro other
    rw [← named]
    exact scope.universeId?_declare_ne_iff reading.value.name
      reading.value.elements other
  · intro unknown
    rw [← named] at unknown ⊢
    rw [Scope.universeId?_declare, unknown, if_pos rfl]
    rfl
  · rintro progress isCursor rfl
    rw [Progress.compileUniverse, isCursor]
    exact ⟨rfl, rfl⟩

/-- Keywords for a name and for a coordinate, and an element with one coordinate
only. -/
def misplaced : List Token :=
  [.keyword "universe", .keyword "end", ⟨.literal, "low"⟩, .keyword "universe",
    ⟨.other, "1"⟩, ⟨.literal, "high"⟩, ⟨.literal, "2"⟩]

private theorem isLeast_misplaced :
    IsLeast
      {n | (misplaced.getD (0 + 2 + 3 * n) .empty).kind ≠ .literal} 2 := by
  refine ⟨by decide, ?_⟩
  intro n closes
  match n with
  | 0 => exact absurd rfl closes
  | 1 => exact absurd rfl closes
  | n + 2 => exact Nat.le_add_left 2 n

theorem read_takes_triples_misplaced :
    let scope : Scope := { rulebases := ["end"] }
    let reading := read scope (.start misplaced)
    let progress : Progress := { cursor := .start misplaced, scope := scope }
    reading.value = ⟨0, "end", [⟨"low", .nan, Coordinate.value "1"⟩,
        ⟨"high", Coordinate.value "2", .nan⟩]⟩ ∧
      progress.compileUniverse.cursor = (Cursor.start misplaced).advance 9 ∧
      progress.compileUniverse.scope.universeId? "end" = some 0 := by
  intro scope reading progress
  obtain ⟨⟨count, least, value, moved⟩, past, _, _, _, resolved, compiled⟩ :=
    read_takes_triples scope misplaced 0
  obtain ⟨nextCursor, nextScope⟩ := compiled progress rfl rfl
  obtain rfl : count = 2 := least.unique isLeast_misplaced
  have lacking : Coordinate.value (misplaced.getD 7 .empty).value = .nan :=
    past 7 (by decide)
  have notNumber : Coordinate.value "universe" = .nan := by decide +kernel
  have elements : (List.range 2).map
      (fun n => Element.standingAt misplaced (0 + 2 + 3 * n)) =
      [⟨"low", Coordinate.value "universe", Coordinate.value "1"⟩,
        ⟨"high", Coordinate.value "2",
          Coordinate.value (misplaced.getD 7 .empty).value⟩] := rfl
  rw [notNumber, lacking] at elements
  refine ⟨value.trans (congrArg (Universe.mk _ _) elements),
    nextCursor.trans moved, ?_⟩
  rw [nextScope]
  exact resolved rfl

end Universe

end FuzzyRules
