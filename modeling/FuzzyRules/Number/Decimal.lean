import FuzzyRules.Number.Binary64

namespace FuzzyRules

/-- The quotient to the nearest whole number; a half goes to the even
neighbour. -/
def roundDiv (dividend divisor : Nat) : Nat :=
  let quotient := dividend / divisor
  let twice := 2 * (dividend % divisor)
  if twice < divisor ∨ (twice = divisor ∧ quotient % 2 = 0) then quotient
  else quotient + 1

/-- The rank of the magnitude nearest to a quotient, of two equally near the
even one. The quotient is counted in units, then in the least distance that
leaves 53 binary digits before the point. A result of `infinityRank` or more is
past the finite magnitudes. -/
def Binary64.nearestRank (dividend divisor : Nat) : Nat :=
  let units := dividend <<< unitPlaces
  let doublings := (units / divisor).log2 - 52
  doublings * binade + roundDiv units (divisor <<< doublings)

/-- The number `digits * 10 ^ exponent`. -/
structure Decimal where
  digits : Nat
  exponent : Int
  deriving DecidableEq, Repr

namespace Decimal

def tenPow (places : Nat) : Nat :=
  Nat.pow 10 places

def rank (d : Decimal) : Nat :=
  Binary64.nearestRank (d.digits * tenPow d.exponent.toNat)
    (tenPow (-d.exponent).toNat)

def toBinary64 (negative : Bool) (d : Decimal) : Binary64 :=
  .ofRank negative d.rank

/-- The exact value of a finite magnitude. A half is five tenths, so each place
after the binary point becomes one after the decimal point. -/
def ofRank (rank : Nat) : Decimal :=
  let doublings := Binary64.doublings rank
  let places := Binary64.unitPlaces - doublings
  let whole := Binary64.significand rank <<< (doublings - Binary64.unitPlaces)
  ⟨whole * Nat.pow 5 places, -places⟩

/-- The same number without zeros at the end of its digits. -/
def trim (d : Decimal) : Decimal :=
  if h : d.digits ≠ 0 ∧ d.digits % 10 = 0 then
    trim ⟨d.digits / 10, d.exponent + 1⟩
  else d
termination_by d.digits
decreasing_by omega

/-- Positional text: no exponent, and a point only if digits follow it. -/
def text (d : Decimal) : String :=
  match d.exponent with
  | .ofNat zeros => Nat.repr (d.digits * tenPow zeros)
  | .negSucc places =>
      let one := tenPow (places + 1)
      let fraction :=
        (Nat.repr (d.digits % one)).toList.leftpad (places + 1) '0'
      Nat.repr (d.digits / one) ++ "." ++ String.ofList fraction

/-- The two decimals next to `d` that stop `dropped` digits earlier, the nearer
one first. Of two equally near, the larger comes first. -/
def neighbours (d : Decimal) (dropped : Nat) : List Decimal :=
  let one := tenPow dropped
  let below : Decimal := trim ⟨d.digits / one, d.exponent + dropped⟩
  let above : Decimal := trim ⟨d.digits / one + 1, d.exponent + dropped⟩
  if 2 * (d.digits % one) < one then [below, above] else [above, below]

/-- Drops as many digits of `d` as can be dropped, `dropped` at most, while the
rest reads back as `rank`. -/
def shorten (d : Decimal) (rank : Nat) : Nat → Decimal
  | 0 => d.trim
  | dropped + 1 =>
      match (d.neighbours (dropped + 1)).find?
        (fun candidate => candidate.rank = rank) with
      | some candidate => candidate
      | none => d.shorten rank dropped

/-- The fewest digits that read back as a magnitude, and of several decimals
with so few digits the one nearest to it. -/
def shortest (rank : Nat) : Decimal :=
  let exact := ofRank rank
  exact.shorten rank ((Nat.toDigits 10 exact.digits).length - 1)

end Decimal

end FuzzyRules
