namespace FuzzyRules

/-! A finite magnitude is known by its rank, its place among all of them in
ascending order. The rank is the bit pattern without the sign. -/

/-- The number of finite magnitudes. -/
abbrev Binary64.infinityRank : Nat := 0x7ff0000000000000

inductive Binary64 where
  | nan
  | infinite (negative : Bool)
  | finite (negative : Bool) (rank : Fin Binary64.infinityRank)
  deriving DecidableEq, Repr

namespace Binary64

abbrev signBit : Nat := 0x8000000000000000

/-- The number with a given sign and the magnitude of a given rank, infinite
past the last one. -/
def ofRank (negative : Bool) (rank : Nat) : Binary64 :=
  if h : rank < infinityRank then finite negative ⟨rank, h⟩
  else infinite negative

/-- The sign is the top bit, the rank is the rest; past infinity, all patterns
are `nan`. -/
def ofBits (bits : UInt64) : Binary64 :=
  let rank := bits.toNat % signBit
  if rank ≤ infinityRank then ofRank (signBit ≤ bits.toNat) rank else nan

def toBits : Binary64 → UInt64
  | nan => 0x7ff8000000000000
  | infinite negative =>
      .ofNat ((if negative then signBit else 0) + infinityRank)
  | finite negative rank => .ofNat ((if negative then signBit else 0) + rank)

/-- The number of magnitudes from one power of two up to the next. -/
abbrev binade : Nat := 0x10000000000000

/-- A magnitude of one is `1 <<< unitPlaces` units. -/
abbrev unitPlaces : Nat := 1074

/-- How often the distance between neighbours has doubled at a rank. Up to the
second binade neighbours are one unit apart; from there on the distance doubles
with every binade. -/
def doublings (rank : Nat) : Nat :=
  rank / binade - 1

/-- The magnitude of a rank, counted in the distance between neighbours
there. -/
def significand (rank : Nat) : Nat :=
  if rank < binade then rank else binade + rank % binade

end Binary64

end FuzzyRules
