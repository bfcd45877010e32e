import FuzzyRules.Number.Decimal
import Mathlib

namespace FuzzyRules

/-! Which magnitude is nearest depends on the value of a decimal alone, and a
magnitude is nearest to its own exact value. -/

section Scaling

variable (dividend divisor : Nat) {factor : Nat}

private theorem roundDiv_mul_right (positive : 0 < factor) :
    roundDiv (dividend * factor) (divisor * factor) =
      roundDiv dividend divisor := by
  have twice : 2 * (dividend * factor % (divisor * factor)) =
      2 * (dividend % divisor) * factor := by
    rw [Nat.mul_mod_mul_right, Nat.mul_assoc]
  rw [roundDiv, roundDiv, twice, Nat.mul_div_mul_right _ _ positive]
  simp only [Nat.mul_lt_mul_right positive, Nat.mul_left_inj positive.ne']

private theorem roundDiv_mul_self (quotient : Nat) (positive : 0 < divisor) :
    roundDiv (quotient * divisor) divisor = quotient := by
  rw [roundDiv, Nat.mul_mod_left, Nat.mul_div_cancel _ positive]
  exact if_pos (Or.inl positive)

namespace Binary64

private theorem nearestRank_mul_right (positive : 0 < factor) :
    nearestRank (dividend * factor) (divisor * factor) =
      nearestRank dividend divisor := by
  have shift (n places : Nat) : (n * factor) <<< places =
      n <<< places * factor := by
    rw [Nat.shiftLeft_eq, Nat.shiftLeft_eq, Nat.mul_right_comm]
  rw [nearestRank, nearestRank, shift, shift,
    Nat.mul_div_mul_right _ _ positive, roundDiv_mul_right _ _ positive]

end Binary64

end Scaling

namespace Binary64

/-- Equal quotients have the same nearest magnitude. -/
theorem nearestRank_congr {dividend divisor otherDividend otherDivisor : Nat}
    (positive : 0 < divisor) (otherPositive : 0 < otherDivisor)
    (same : dividend * otherDivisor = otherDividend * divisor) :
    nearestRank dividend divisor = nearestRank otherDividend otherDivisor := by
  rw [← nearestRank_mul_right dividend divisor otherPositive, same,
    Nat.mul_comm divisor,
    nearestRank_mul_right otherDividend otherDivisor positive]

private theorem doublings_mul_add_significand (rank : Nat) :
    doublings rank * binade + significand rank = rank := by
  simp only [doublings, significand, binade]
  split <;> omega

private theorem significand_lt (rank : Nat) :
    significand rank < 2 * binade := by
  simp only [significand, binade]
  split <;> omega

private theorem doublings_eq_zero_or_le_significand (rank : Nat) :
    doublings rank = 0 ∨ binade ≤ significand rank := by
  simp only [doublings, significand, binade]
  split <;> omega

/-- A magnitude has 53 binary digits, or fewer where the distance has not
doubled yet. -/
theorem log2_significand_sub (rank : Nat) :
    (significand rank <<< doublings rank).log2 - 52 = doublings rank := by
  have small := significand_lt rank
  obtain none | large := doublings_eq_zero_or_le_significand rank
  · rw [none, Nat.shiftLeft_zero]
    by_cases zero : significand rank = 0
    · rw [zero, Nat.log2_zero]
    · have digits : (significand rank).log2 < 53 := (Nat.log2_lt zero).mpr small
      omega
  · have positive : significand rank * 2 ^ doublings rank ≠ 0 :=
      Nat.mul_ne_zero (by omega) (Nat.two_pow_pos _).ne'
    have digits : (significand rank * 2 ^ doublings rank).log2 =
        52 + doublings rank := by
      rw [Nat.log2_eq_iff positive, Nat.add_right_comm, Nat.pow_add,
        Nat.pow_add]
      exact ⟨Nat.mul_le_mul_right _ large,
        Nat.mul_lt_mul_of_pos_right small (Nat.two_pow_pos _)⟩
    rw [Nat.shiftLeft_eq, digits, Nat.add_sub_cancel_left]

private theorem one_shiftLeft_pos (places : Nat) : 0 < 1 <<< places := by
  rw [Nat.one_shiftLeft]
  exact Nat.two_pow_pos places

/-- The magnitude nearest to a number of units is the one with that number of
units, if there is one. -/
theorem nearestRank_exact (rank : Nat) :
    nearestRank (significand rank <<< doublings rank) (1 <<< unitPlaces) =
      rank := by
  have units : (significand rank <<< doublings rank) <<< unitPlaces =
      significand rank * (1 <<< unitPlaces) <<< doublings rank := by
    simp only [Nat.shiftLeft_eq, Nat.one_mul]
    rw [Nat.mul_assoc, Nat.mul_comm (2 ^ doublings rank)]
  have whole :
      (significand rank <<< doublings rank) <<< unitPlaces / 1 <<< unitPlaces =
        significand rank <<< doublings rank := by
    rw [Nat.shiftLeft_eq, Nat.one_shiftLeft,
      Nat.mul_div_cancel _ (Nat.two_pow_pos _)]
  rw [nearestRank, whole, log2_significand_sub, units, ← Nat.shiftLeft_add,
    roundDiv_mul_self _ _ (one_shiftLeft_pos _), doublings_mul_add_significand]

end Binary64

namespace Decimal

def value (d : Decimal) : ℚ :=
  d.digits * 10 ^ d.exponent

theorem tenPow_pos (places : Nat) : 0 < tenPow places :=
  Nat.pow_pos (by decide)

private theorem value_eq_div (d : Decimal) :
    d.value = (d.digits * tenPow d.exponent.toNat : Nat) /
      (tenPow (-d.exponent).toNat : Nat) := by
  have cast (places : Nat) : ((tenPow places : Nat) : ℚ) = 10 ^ places :=
    Nat.cast_pow 10 places
  rw [value, Nat.cast_mul, cast, cast]
  obtain ⟨n, whole | fraction⟩ := d.exponent.eq_nat_or_neg
  · simp [whole]
  · simp [fraction, div_eq_mul_inv]

/-- Decimals of one value are read as the same magnitude. -/
theorem rank_congr {d other : Decimal} (same : d.value = other.value) :
    d.rank = other.rank := by
  apply Binary64.nearestRank_congr (tenPow_pos _) (tenPow_pos _)
  have positive (places : Nat) : ((tenPow places : Nat) : ℚ) ≠ 0 :=
    Nat.cast_ne_zero.mpr (tenPow_pos places).ne'
  rw [value_eq_div, value_eq_div,
    div_eq_div_iff (positive _) (positive _)] at same
  exact_mod_cast same

theorem value_trim (d : Decimal) : d.trim.value = d.value := by
  fun_induction trim d with
  | case1 d zeros ih =>
      have digits : ((d.digits / 10 : Nat) : ℚ) * 10 = d.digits := by
        exact_mod_cast Nat.div_mul_cancel (Nat.dvd_of_mod_eq_zero zeros.2)
      rw [ih, value, value, zpow_add_one₀ (by norm_num),
        mul_comm (10 ^ d.exponent), ← mul_assoc, digits]
  | case2 d _ => rfl

/-- A half is five tenths: the halvings that doublings do not make up for come
to decimal places. -/
theorem halved_eq_tenths (significand : Nat)
    {left halvings doublings places : Nat}
    (balance : left + halvings = doublings + places) :
    significand * 2 ^ left * 5 ^ places * 2 ^ halvings =
      significand * 2 ^ doublings * 10 ^ places :=
  calc
    significand * 2 ^ left * 5 ^ places * 2 ^ halvings
        = significand * 5 ^ places * 2 ^ (left + halvings) := by ring
    _ = significand * 5 ^ places * 2 ^ (doublings + places) := by rw [balance]
    _ = significand * 2 ^ doublings * (2 * 5) ^ places := by rw [mul_pow]; ring

theorem rank_ofRank (rank : Nat) : (ofRank rank).rank = rank := by
  refine (Binary64.nearestRank_congr (tenPow_pos _)
    (Binary64.one_shiftLeft_pos _) ?_).trans (Binary64.nearestRank_exact rank)
  obtain ⟨places, isPlaces⟩ : ∃ n,
    n = Binary64.unitPlaces - Binary64.doublings rank := ⟨_, rfl⟩
  have noZeros : tenPow (-(places : Int)).toNat = 1 := by
    rw [Int.toNat_neg_natCast]
    rfl
  rw [ofRank]
  dsimp only
  rw [← isPlaces, noZeros, neg_neg, Int.toNat_natCast, Nat.mul_one,
    Nat.one_shiftLeft, Nat.shiftLeft_eq, Nat.shiftLeft_eq]
  -- Of the two differences between doublings and halvings, one is cut off at
  -- zero.
  exact halved_eq_tenths _ (by omega)

theorem rank_shorten {d : Decimal} {rank : Nat} (reads : d.rank = rank)
    (dropped : Nat) : (d.shorten rank dropped).rank = rank := by
  induction dropped with
  | zero => exact (rank_congr d.value_trim).trans reads
  | succ dropped ih =>
      rw [shorten]
      split
      · next candidate found =>
          have accepted := List.find?_some found
          exact of_decide_eq_true accepted
      · exact ih

theorem rank_shortest (rank : Nat) : (shortest rank).rank = rank :=
  rank_shorten (rank_ofRank rank) _

end Decimal

end FuzzyRules
