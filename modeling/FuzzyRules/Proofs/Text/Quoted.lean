import FuzzyRules.Proofs.Token.Pattern
import FuzzyRules.Text.Quoted

namespace FuzzyRules

/-- The lines of a text; behind a last line feed there is an empty one. -/
def linesOf (text : String) : List String :=
  (text.toList.splitOn '\n').map String.ofList

theorem length_linesOf (text : String) :
    (linesOf text).length = text.toList.count '\n' + 1 := by
  rw [linesOf, List.length_map]
  induction text.toList with
  | nil => rfl
  | cons c others ih =>
      rw [List.splitOn_cons_eq_if_modifyHead, List.count_cons]
      split <;> simp [ih]

theorem splitOn_join {lines : List String}
    (unbroken : ∀ line ∈ lines, '\n' ∉ line.toList) :
    (String.join (lines.map (· ++ "\n"))).toList.splitOn '\n' =
      lines.map String.toList ++ [[]] := by
  induction lines with
  | nil => rfl
  | cons line others ih =>
      have chars : (String.join ((line :: others).map (· ++ "\n"))).toList =
          line.toList ++ '\n' ::
            (String.join (others.map (· ++ "\n"))).toList := by
        simp [String.join_cons]
      rw [chars,
        List.splitOn_append_cons_self_of_not_mem
          (unbroken line List.mem_cons_self),
        ih fun other member =>
          unbroken other (List.mem_cons_of_mem line member)]
      rfl

theorem linesOf_join {lines : List String}
    (unbroken : ∀ line ∈ lines, '\n' ∉ line.toList) :
    linesOf (String.join (lines.map (· ++ "\n"))) = lines ++ [""] := by
  rw [linesOf, splitOn_join unbroken, List.map_append, List.map_map]
  simp

end FuzzyRules

namespace FuzzyRules.Text

def hexDigits : List Char :=
  "0123456789abcdef".toList

def hexValue (digits : List Char) : Nat :=
  digits.foldl (fun value c => 16 * value + hexDigits.idxOf c) 0

private theorem idxOf_digitChar {n : Nat} (small : n < 16) :
    hexDigits.idxOf n.digitChar = n := by
  revert n
  decide

private theorem digitChar_mem_hexDigits {n : Nat} (small : n < 16) :
    n.digitChar ∈ hexDigits := by
  revert n
  decide

private theorem mem_hexDigits_of_mem_toDigits {n : Nat} :
    ∀ c ∈ Nat.toDigits 16 n, c ∈ hexDigits := by
  induction n using Nat.base_induction 16 (by decide) with
  | single n small =>
      rw [Nat.toDigits_of_lt_base small]
      exact List.forall_mem_singleton.mpr (digitChar_mem_hexDigits small)
  | digit n last small positive ih =>
      rw [← Nat.toDigits_append_toDigits (by decide) positive small,
        List.forall_mem_append, Nat.toDigits_of_lt_base small]
      exact ⟨ih, List.forall_mem_singleton.mpr (digitChar_mem_hexDigits small)⟩

theorem hexValue_toDigits (n : Nat) : hexValue (Nat.toDigits 16 n) = n := by
  induction n using Nat.base_induction 16 (by decide) with
  | single n small =>
      rw [Nat.toDigits_of_lt_base small]
      exact (Nat.zero_add _).trans (idxOf_digitChar small)
  | digit n last small positive ih =>
      rw [← Nat.toDigits_append_toDigits (by decide) positive small, hexValue,
        List.foldl_append, ← hexValue, ih, Nat.toDigits_of_lt_base small]
      exact congrArg (16 * n + ·) (idxOf_digitChar small)

/-- The characters with a letter of their own, and that letter. -/
def marks : List (Char × Char) :=
  [('"', '"'), ('\\', '\\'), ('\x00', '0'), ('\t', 't'), ('\r', 'r'),
    ('\n', 'n')]

/-- The ways to write a character: by its letter, if it has one, as itself, or
by its number. -/
inductive Writes (c : Char) : List Char → Prop where
  | marked {letter : Char} (known : (c, letter) ∈ marks) :
      Writes c ['\\', letter]
  | itself (unmarked : c ∉ marks.map Prod.fst) : Writes c [c]
  | numbered :
      Writes c ('\\' :: 'u' :: '\x7b' :: (Nat.toDigits 16 c.toNat ++ ['\x7d']))

private theorem writes_escape (c : Char) : Writes c (escape c) := by
  rw [escape]
  split
  · next isQuote => exact .marked (by simp [marks, isQuote])
  split
  · next isBackslash => exact .marked (by simp [marks, isBackslash])
  split
  · next isNull => exact .marked (by simp [marks, isNull])
  split
  · next isTab => exact .marked (by simp [marks, isTab])
  split
  · next isReturn => exact .marked (by simp [marks, isReturn])
  split
  · next isLineFeed => exact .marked (by simp [marks, isLineFeed])
  split
  · exact .itself (by simp [marks, *])
  · exact .numbered

/-- The character that is written behind a backslash, and the rest. -/
def readEscape? : List Char → Option (Char × List Char)
  | [] => none
  | 'u' :: '\x7b' :: rest =>
      some (.ofNat (hexValue (rest.takeWhile (· ∈ hexDigits))),
        (rest.dropWhile (· ∈ hexDigits)).tail)
  | letter :: rest => (marks.find? (·.2 = letter)).map fun (c, _) => (c, rest)

/-- The character at the front of a text between quotes, and the rest; none
before a quote. -/
def readChar? : List Char → Option (Char × List Char)
  | [] => none
  | c :: rest =>
      if c = '"' then none
      else if c = '\\' then readEscape? rest
      else some (c, rest)

theorem Writes.readChar? {c : Char} {text : List Char} (writes : Writes c text)
    (rest : List Char) : readChar? (text ++ rest) = some (c, rest) := by
  cases writes with
  | marked known =>
      simp only [marks, List.mem_cons, Prod.mk.injEq, List.not_mem_nil,
        or_false] at known
      rcases known with ⟨rfl, rfl⟩ | ⟨rfl, rfl⟩ | ⟨rfl, rfl⟩ | ⟨rfl, rfl⟩ |
        ⟨rfl, rfl⟩ | ⟨rfl, rfl⟩ <;>
        rfl
  | itself unmarked =>
      have notQuote : c ≠ '"' :=
        fun isQuote => unmarked (by simp [marks, isQuote])
      have notBackslash : c ≠ '\\' :=
        fun isBackslash => unmarked (by simp [marks, isBackslash])
      simp [Text.readChar?, notQuote, notBackslash]
  | numbered =>
      have digits : ∀ d ∈ Nat.toDigits 16 c.toNat,
          decide (d ∈ hexDigits) = true := by
        simpa using mem_hexDigits_of_mem_toDigits
      have stops : Stops (· ∈ hexDigits) ('\x7d' :: rest) := rfl
      simp [Text.readChar?, readEscape?, stops.takeWhile_append digits,
        stops.dropWhile_append digits, hexValue_toDigits]

theorem Writes.lineFeed_not_mem {c : Char} {text : List Char}
    (writes : Writes c text) : '\n' ∉ text := by
  cases writes with
  | marked known =>
      have letters : ∀ mark ∈ marks, '\n' ∉ ['\\', mark.2] := by decide
      exact letters _ known
  | itself unmarked =>
      intro member
      rw [List.mem_singleton] at member
      exact unmarked (by simp [marks, ← member])
  | numbered =>
      have digits : '\n' ∉ Nat.toDigits 16 c.toNat := by
        intro member
        exact absurd (mem_hexDigits_of_mem_toDigits _ member) (by decide)
      simpa using digits

/-- What stands before the closing quote and what stands behind it are both told
by the text. -/
theorem interior_unique {write : Char → List Char}
    (writes : ∀ c, Writes c (write c)) {first second rest others : List Char}
    (same : first.flatMap write ++ '"' :: rest =
      second.flatMap write ++ '"' :: others) :
    first = second ∧ rest = others := by
  induction first generalizing second with
  | nil =>
      cases second with
      | nil => exact ⟨rfl, List.tail_eq_of_cons_eq same⟩
      | cons d second =>
          have read := congrArg readChar? same
          rw [List.flatMap_cons, List.append_assoc,
            (writes d).readChar?] at read
          cases read
  | cons c first ih =>
      -- Both texts are read alike, and no character is read where the closing
      -- quote stands.
      have read := congrArg readChar? same
      rw [List.flatMap_cons, List.append_assoc, (writes c).readChar?] at read
      cases second with
      | nil => cases read
      | cons d second =>
          rw [List.flatMap_cons, List.append_assoc,
            (writes d).readChar?] at read
          obtain ⟨rfl, behind⟩ := Prod.mk.inj (Option.some.inj read)
          obtain ⟨rfl, sameRest⟩ := ih behind
          exact ⟨rfl, sameRest⟩

theorem quote_injective : Function.Injective quote := by
  intro first second same
  have chars : first.toList.flatMap escape ++ '"' :: [] =
      second.toList.flatMap escape ++ '"' :: [] :=
    List.tail_eq_of_cons_eq (String.ofList_injective same)
  exact String.toList_injective (interior_unique writes_escape chars).1

theorem lineFeed_not_mem_quote (s : String) : '\n' ∉ (quote s).toList := by
  have inside : '\n' ∉ s.toList.flatMap escape := by
    rw [List.mem_flatMap]
    rintro ⟨c, _, member⟩
    exact (writes_escape c).lineFeed_not_mem member
  simpa [quote] using inside

end FuzzyRules.Text
