import FuzzyRules.Proofs.Number.Bytes
import FuzzyRules.Proofs.Number.Rounding
import FuzzyRules.Proofs.Number.Text

namespace FuzzyRules

namespace Numeral

private theorem natural_append (front rest : List Char) :
    natural (front ++ rest) = 10 ^ rest.length * natural front + natural rest :=
  (Nat.ofDigitChars_append 0).trans Nat.ofDigitChars_eq_ofDigitChars_zero

private theorem natural_repr (n : Nat) : natural (Nat.repr n).toList = n := by
  rw [Nat.toList_repr]
  exact Nat.ofDigitChars_ten_toDigits

private theorem natural_leftpad (length : Nat) (digits : List Char) :
    natural (digits.leftpad length '0') = natural digits := by
  have zeros : natural (List.replicate (length - digits.length) '0') = 0 :=
    Nat.ofDigitChars_replicate_zero.trans (Nat.mul_zero _)
  rw [List.leftpad, natural_append, zeros, Nat.mul_zero, Nat.zero_add]

namespace Mantissa

def ofWhole {whole : List Char} (isWhole : whole ∈ Word.digits) : Mantissa where
  whole := whole
  fraction := none
  digits := by simpa using (Word.mem_digits.mp isWhole).2
  nonempty := by simpa using (Word.mem_digits.mp isWhole).1

def ofParts {whole fraction : List Char} (isWhole : whole ∈ Word.digits)
    (isFraction : fraction ∈ Word.digits) : Mantissa where
  whole := whole
  fraction := some fraction
  digits := List.forall_mem_append.mpr
    ⟨(Word.mem_digits.mp isWhole).2, (Word.mem_digits.mp isFraction).2⟩
  nonempty := List.append_ne_nil_of_left_ne_nil (Word.mem_digits.mp isWhole).1 _

def decimal (mantissa : Mantissa) : Decimal :=
  ⟨natural (mantissa.whole ++ mantissa.fraction.getD []),
    -(mantissa.fraction.getD []).length⟩

end Mantissa

private theorem read?_mantissa (sign : Sign) (mantissa : Mantissa) :
    read? (sign.text ++ mantissa.text) =
      some (mantissa.decimal.toBinary64 sign.negative, []) := by
  have read := read?_text (.decimal sign mantissa none)
  rw [Form.text, Option.elim_none, List.append_nil] at read
  rw [read, Form.value, Option.elim_none, zero_sub]
  rfl

theorem readBytes?_of_read? {text : String} {number : Binary64}
    (read : read? text.toList = some (number, [])) :
    readBytes? text = some (some (number, text.utf8ByteSize)) := by
  have scanned := readBytes?_ofList text.toList
  rw [read, Option.map_some, ← utf8ByteSize_ofList,
    String.ofList_toList] at scanned
  exact scanned

end Numeral

namespace Decimal

open Numeral

/-- The last places of a number in a row, with zeros in front where it has fewer
digits. -/
def fractionText (digits places : Nat) : List Char :=
  (Nat.repr (digits % tenPow places)).toList.leftpad places '0'

private theorem length_fractionText (digits places : Nat) :
    (fractionText digits (places + 1)).length = places + 1 := by
  have short : (Nat.repr (digits % tenPow (places + 1))).toList.length ≤
      places + 1 := by
    rw [Nat.toList_repr,
      Nat.length_toDigits_le_iff (by decide) (Nat.succ_pos places)]
    exact Nat.mod_lt digits (tenPow_pos (places + 1))
  rw [fractionText, List.length_leftpad, Nat.max_eq_left short]

private theorem natural_parts (digits places : Nat) :
    natural ((Nat.repr (digits / tenPow (places + 1))).toList ++
      fractionText digits (places + 1)) =
      digits := by
  rw [natural_append, length_fractionText, fractionText, natural_leftpad,
    natural_repr, natural_repr]
  exact Nat.div_add_mod digits (tenPow (places + 1))

/-- The text of a decimal is a mantissa of its value. -/
theorem exists_mantissa (d : Decimal) :
    ∃ mantissa : Mantissa, mantissa.text = d.text.toList ∧
      mantissa.decimal.value = d.value := by
  obtain ⟨digits, zeros | places⟩ := d
  · refine ⟨.ofWhole (Word.repr_mem_digits (digits * tenPow zeros)),
      List.append_nil _, ?_⟩
    have whole : natural ((Nat.repr (digits * tenPow zeros)).toList ++ []) =
        digits * tenPow zeros := by
      rw [List.append_nil, natural_repr]
    rw [Mantissa.decimal, Mantissa.ofWhole, Option.getD_none, whole]
    simp [value, tenPow]
  · refine ⟨.ofParts (Word.repr_mem_digits (digits / tenPow (places + 1)))
      (Word.leftpad_mem_digits
        (Word.repr_mem_digits (digits % tenPow (places + 1))) (places + 1)),
      ?_, ?_⟩
    · simp [Mantissa.text, Mantissa.ofParts, text]
    · -- The fraction is padded up to the places of the exponent, so the decimal
      -- is read as it was.
      have same : Decimal.mk
          (natural ((Nat.repr (digits / tenPow (places + 1))).toList ++
            fractionText digits (places + 1)))
          (-(fractionText digits (places + 1)).length) =
          ⟨digits, .negSucc places⟩ := by
        rw [natural_parts, length_fractionText]
        rfl
      exact congrArg value same

theorem read?_text (sign : Sign) (d : Decimal) :
    read? (sign.text ++ d.text.toList) =
      some (d.toBinary64 sign.negative, []) := by
  obtain ⟨mantissa, isText, sameValue⟩ := d.exists_mantissa
  rw [← isText, read?_mantissa, toBinary64, rank_congr sameValue, toBinary64]

end Decimal

namespace Binary64

def IsFinite : Binary64 → Prop
  | nan => False
  | infinite _ => False
  | finite _ _ => True

instance : (number : Binary64) → Decidable number.IsFinite
  | nan => inferInstanceAs (Decidable False)
  | infinite _ => inferInstanceAs (Decidable False)
  | finite _ _ => inferInstanceAs (Decidable True)

/-- The same number, but that zero is not negative. -/
def withoutZeroSign : Binary64 → Binary64
  | finite negative rank => finite (negative && rank.val ≠ 0) rank
  | number => number

theorem text_withoutZeroSign (number : Binary64) :
    number.withoutZeroSign.text = number.text := by
  cases number with
  | nan => rfl
  | infinite negative => rfl
  | finite negative rank =>
      rw [withoutZeroSign, text, text]
      split
      · rfl
      · next nonzero => simp [nonzero]

private theorem exists_sign (negative : Bool) :
    ∃ sign : Numeral.Sign, sign.text = (if negative then "-" else "").toList ∧
      sign.negative = negative := by
  cases negative with
  | false => exact ⟨.none, rfl, rfl⟩
  | true => exact ⟨.minus, rfl, rfl⟩

private theorem read?_zero :
    Numeral.read? "0".toList = some (finite false ⟨0, by decide⟩, []) := by
  decide +kernel

/-- A finite number is read from its text, and nothing of the text is left. -/
theorem read?_text {number : Binary64} (isFinite : number.IsFinite) :
    Numeral.read? number.text.toList = some (number.withoutZeroSign, []) := by
  cases number with
  | nan => cases isFinite
  | infinite negative => cases isFinite
  | finite negative rank =>
      rw [text, withoutZeroSign]
      split
      · next zero =>
          obtain rfl : rank = ⟨0, by decide⟩ := Fin.ext zero
          rw [read?_zero, decide_eq_false (not_not.mpr rfl), Bool.and_false]
      · next nonzero =>
          obtain ⟨sign, isText, isNegative⟩ := exists_sign negative
          rw [String.toList_append, ← isText, Decimal.read?_text, isNegative,
            Decimal.toBinary64, Decimal.rank_shortest, ofRank,
            dif_pos rank.isLt, decide_eq_true nonzero, Bool.and_true]

theorem ofBits_of_exponent {bits : UInt64}
    (exponent : bits >>> 52 &&& 0x7ff ≠ 0x7ff) :
    ∃ inside : bits.toNat % signBit < infinityRank,
      ofBits bits =
        finite (signBit ≤ bits.toNat) ⟨bits.toNat % signBit, inside⟩ := by
  have field : (bits >>> 52 &&& 0x7ff).toNat =
      bits.toNat / 2 ^ 52 % 2 ^ 11 := by
    rw [UInt64.toNat_and, UInt64.toNat_shiftRight, Nat.shiftRight_eq_div_pow]
    exact Nat.and_two_pow_sub_one_eq_mod _ 11
  have inside : bits.toNat % signBit < infinityRank := by
    have notFull : bits.toNat / 2 ^ 52 % 2 ^ 11 ≠ 0x7ff := by
      rw [← field]
      exact fun full => exponent (UInt64.toNat_inj.mp full)
    simp only [signBit, infinityRank]
    omega
  refine ⟨inside, ?_⟩
  rw [ofBits, if_pos inside.le, ofRank, dif_pos inside]

theorem toBits_withoutZeroSign {bits : UInt64}
    (exponent : bits >>> 52 &&& 0x7ff ≠ 0x7ff) :
    (ofBits bits).withoutZeroSign.toBits =
      if bits = 0x8000000000000000 then 0 else bits := by
  obtain ⟨inside, isFinite⟩ := ofBits_of_exponent exponent
  have code :
      (if (signBit ≤ bits.toNat && bits.toNat % signBit ≠ 0) = true then signBit
        else 0) + bits.toNat % signBit =
      if bits.toNat = signBit then 0 else bits.toNat := by
    have bound : bits.toNat < 2 ^ 64 := bits.toNat_lt
    simp only [signBit, Bool.and_eq_true, decide_eq_true_eq]
    split <;> split <;> omega
  have isMinusZero : bits.toNat = signBit ↔ bits = 0x8000000000000000 := by
    rw [← UInt64.toNat_inj]
    rfl
  rw [isFinite, withoutZeroSign, toBits, code]
  simp only [isMinusZero]
  split
  · rfl
  · exact UInt64.ofNat_toNat

end Binary64

end FuzzyRules
