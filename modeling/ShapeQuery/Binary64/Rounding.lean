import ShapeQuery.Binary64.Basic

/-!
# Rounding to the nearest double

A positive fraction is scaled until its quotient has fifty-three bits, or as
many as the smallest exponent leaves, and the quotient is rounded to the nearest
integer with ties to even.  A quotient that rounds up to the next power of two
carries into the exponent field by itself, because a magnitude is the exponent
and fraction fields read as one number.
-/

namespace ShapeQuery.Binary64

/-- The natural number nearest to `num / den`, ties to even. -/
def roundHalfEven (num den : Nat) : Nat :=
  let quotient := num / den
  let twice := 2 * (num % den)
  if twice < den then quotient
  else if den < twice then quotient + 1
  else quotient + quotient % 2

/-- The fraction `num / den` divided by `2 ^ e`. -/
def scaled (num den : Nat) (e : Int) : Nat × Nat :=
  (num * Nat.pow 2 (-e).toNat, den * Nat.pow 2 e.toNat)

/-- The exponent at which `num / den` has a quotient of fifty-three bits, but
never one below the smallest. -/
def targetExponent (num den : Nat) : Int :=
  let guess : Int := (num.log2 : Int) - (den.log2 : Int) - 52
  let (n, d) := scaled num den guess
  let exact := if n / d < 0x10000000000000 then guess - 1 else guess
  max exact (-1074)

def nearestMagnitude (num den : Nat) : Nat :=
  let e := targetExponent num den
  let (n, d) := scaled num den e
  (e + 1074).toNat * 0x10000000000000 + roundHalfEven n d

/-- The double nearest to a fraction, or nothing when it lies beyond the finite ones. -/
def nearest? (negative : Bool) (num den : Nat) : Option Binary64 :=
  if num = 0 then some (zero negative)
  else
    let magnitude := nearestMagnitude num den
    if h : magnitude < 0x7ff0000000000000 then some ⟨negative, magnitude, h⟩ else none

def decimalLength (n : Nat) : Nat := (Nat.toDigits 10 n).length

/-- The double nearest to `digits * 10 ^ e`.  A value that is clearly below half
of the smallest double, or clearly above the largest one, is settled without
raising ten to a large power. -/
def ofDecimal? (negative : Bool) (digits : Nat) (e : Int) : Option Binary64 :=
  let top : Int := decimalLength digits + e
  if digits = 0 || top < -330 then some (zero negative)
  else if 330 < top then none
  else nearest? negative (digits * Nat.pow 10 e.toNat) (Nat.pow 10 (-e).toNat)

/-- The finite double nearest to an integer. -/
def ofInt (n : Int) : Binary64 :=
  (nearest? (n < 0) n.natAbs 1).getD (greatest (n < 0))

end ShapeQuery.Binary64
