/-!
# Finite binary64 numbers

A finite double is a sign and a magnitude, the exponent and fraction fields of
its encoding read as one natural number.  Magnitudes are ordered as the absolute
values they stand for, and every magnitude below the one of infinity is a
number, so the type holds the finite doubles and nothing else.
-/

namespace ShapeQuery

/-- A finite double. -/
structure Binary64 where
  negative : Bool
  magnitude : Nat
  finite : magnitude < 0x7ff0000000000000
deriving DecidableEq, Repr

namespace Binary64

def zero (negative : Bool) : Binary64 := ⟨negative, 0, by decide⟩

/-- The double of the largest absolute value, of either sign. -/
def greatest (negative : Bool) : Binary64 := ⟨negative, 0x7fefffffffffffff, by decide⟩

/-- The natural number `m` of the absolute value `m * 2 ^ e`. -/
def significand (x : Binary64) : Nat :=
  if x.magnitude < 0x10000000000000 then x.magnitude
  else x.magnitude % 0x10000000000000 + 0x10000000000000

/-- The exponent `e` of the absolute value `m * 2 ^ e`. -/
def exponent (x : Binary64) : Int :=
  if x.magnitude < 0x10000000000000 then -1074
  else (x.magnitude / 0x10000000000000 : Nat) - 1075

def isWhole (x : Binary64) : Bool :=
  0 ≤ x.exponent || x.significand % Nat.pow 2 (-x.exponent).toNat == 0

/-- Equality of values: the two zeros are one value, all other doubles are
equal only to themselves. -/
def same (x y : Binary64) : Bool :=
  x == y || (x.magnitude == 0 && y.magnitude == 0)

/-- The absolute value as a fraction: numerator and denominator. -/
def fraction (x : Binary64) : Nat × Nat :=
  (x.significand * Nat.pow 2 x.exponent.toNat, Nat.pow 2 (-x.exponent).toNat)

end Binary64

end ShapeQuery
