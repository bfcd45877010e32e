import FuzzyRules.Proofs.Token.Word
import FuzzyRules.Script.Call

namespace FuzzyRules

namespace Word

/-- An optional minus, digits and an optional fraction. -/
def decimals : Language Char :=
  (1 + {['-']}) * digits * (1 + fractions)

theorem repr_mem_digits (n : Nat) : (Nat.repr n).toList ∈ digits := by
  rw [Nat.repr, String.toList_ofList]
  apply mem_digits.mpr
  refine ⟨Nat.toDigits_ne_nil, ?_⟩
  intro c member
  exact Nat.isDigit_of_mem_toDigits (by decide) (by decide) member

theorem leftpad_mem_digits {text : List Char} (member : text ∈ digits)
    (length : Nat) : text.leftpad length '0' ∈ digits := by
  obtain ⟨nonempty, allDigits⟩ := mem_digits.mp member
  apply mem_digits.mpr
  refine ⟨List.append_ne_nil_of_right_ne_nil _ nonempty, ?_⟩
  intro c inside
  rcases List.mem_append.mp inside with padding | digit
  · rw [List.eq_of_mem_replicate padding]
    rfl
  · exact allDigits c digit

private theorem mem_decimals_of_digits {text : List Char}
    (member : text ∈ digits * (1 + fractions)) (negative : Bool) :
    (if negative then "-" else "").toList ++ text ∈ decimals := by
  have sign : (if negative then "-" else "").toList ∈
      (1 + {['-']} : Language Char) := by
    cases negative with
    | false => exact Or.inl rfl
    | true => exact Or.inr rfl
  rw [decimals, mul_assoc]
  exact ⟨_, sign, _, member, rfl⟩

theorem char_of_mem_decimals {text : List Char} (member : text ∈ decimals) :
    ∀ c ∈ text, c.isDigit = true ∨ c = '-' ∨ c = '.' := by
  obtain ⟨_, ⟨sign, isSign, whole, isWhole, rfl⟩, fraction, isFraction, rfl⟩ :=
    member
  have wholeDigits := (mem_digits.mp isWhole).2
  intro c inside
  rcases List.mem_append.mp inside with front | behind
  · rcases List.mem_append.mp front with signed | digit
    · rcases isSign with nothing | minus
      · rw [(Language.mem_one sign).mp nothing] at signed
        cases signed
      · rw [Pattern.mem_exactly.mp minus, List.mem_singleton] at signed
        exact Or.inr (Or.inl signed)
    · exact Or.inl (wholeDigits c digit)
  · rcases isFraction with nothing | ⟨_, point, places, isPlaces, rfl⟩
    · rw [(Language.mem_one fraction).mp nothing] at behind
      cases behind
    · rw [Pattern.mem_exactly.mp point] at behind
      rcases List.mem_cons.mp behind with isPoint | digit
      · exact Or.inr (Or.inr isPoint)
      · exact Or.inl ((mem_digits.mp isPlaces).2 c digit)

end Word

private theorem Decimal.text_mem_digits (decimal : Decimal) :
    decimal.text.toList ∈ Word.digits * (1 + Word.fractions) := by
  unfold Decimal.text
  cases decimal.exponent with
  | ofNat zeros =>
      exact ⟨_, Word.repr_mem_digits _, [], Or.inl rfl, List.append_nil _⟩
  | negSucc places =>
      have fraction := Word.leftpad_mem_digits
        (Word.repr_mem_digits (decimal.digits % Decimal.tenPow (places + 1)))
          (places + 1)
      refine ⟨_,
        Word.repr_mem_digits (decimal.digits / Decimal.tenPow (places + 1)), _,
        Or.inr ⟨['.'], rfl, _, fraction, rfl⟩, ?_⟩
      simp

namespace Binary64

theorem text_mem_decimals (negative : Bool) (rank : Fin infinityRank) :
    (finite negative rank).text.toList ∈ Word.decimals := by
  rw [text]
  split
  · exact Word.mem_decimals_of_digits ⟨['0'], Word.repr_mem_digits 0, [],
      Or.inl rfl, rfl⟩ false
  · rw [String.toList_append]
    exact Word.mem_decimals_of_digits (Decimal.text_mem_digits _) negative

theorem text_eq_nan_iff (number : Binary64) :
    number.text = "NAN" ↔ number = .nan := by
  cases number with
  | nan => simp [text]
  | infinite negative => cases negative <;> decide
  | finite negative rank =>
      refine iff_of_false ?_ (by simp)
      intro isNan
      have chars := Word.char_of_mem_decimals (text_mem_decimals negative rank)
      rw [isNan] at chars
      exact absurd (chars 'N' (by decide)) (by decide)

end Binary64

theorem referenceText_eq_minus_iff (reference : Option Nat) :
    referenceText reference = "-1" ↔ reference = none := by
  cases reference with
  | none => simp [referenceText]
  | some id =>
      refine iff_of_false ?_ (by simp)
      intro isMinus
      have digits := (Word.mem_digits.mp (Word.repr_mem_digits id)).2
      rw [show Nat.repr id = "-1" from isMinus] at digits
      exact absurd (digits '-' (by decide)) (by decide)

end FuzzyRules
