import ShapeQuery.Binary64.Rounding

/-!
# Shortest decimals

A double is written with the fewest decimal digits that read back as the same
double; among those with the fewest digits the one nearest to the exact value
is taken, and an exact tie goes to the even digit.  For each number of digits
only the two neighbours of the value on that decimal grid have to be tried.
-/

namespace ShapeQuery.Binary64

/-- A decimal number `digits * 10 ^ exponent`. -/
structure Decimal where
  digits : Nat
  exponent : Int
deriving DecidableEq, Repr

/-- The power of ten of the leading digit of the positive fraction `num / den`. -/
def leadingPower (num den : Nat) : Int :=
  if den ≤ num then (decimalLength (num / den) : Int) - 1
  else -(decimalLength ((den - 1) / num) : Int)

def readsBack (x : Binary64) (d : Decimal) : Bool :=
  ofDecimal? x.negative d.digits d.exponent == some x

/-- The decimal with `count` digits that stands for `x` best, if one reads back. -/
def decimalOfLength? (x : Binary64) (count : Nat) : Option Decimal :=
  let (num, den) := x.fraction
  let e : Int := leadingPower num den - count + 1
  let n := num * Nat.pow 10 (-e).toNat
  let d := den * Nat.pow 10 e.toNat
  let below : Decimal := ⟨n / d, e⟩
  let above : Decimal := ⟨n / d + 1, e⟩
  let closest := if roundHalfEven n d = n / d then below else above
  if readsBack x closest then some closest
  else if readsBack x below then some below
  else if readsBack x above then some above
  else none

def exactDecimal (x : Binary64) : Decimal :=
  let k := (-x.exponent).toNat
  ⟨x.significand * Nat.pow 2 x.exponent.toNat * Nat.pow 5 k, -k⟩

/-- The shortest decimal of a double.  Seventeen digits always suffice; the exact
value stands behind the search so that the function needs no proof of that. -/
def shortest (x : Binary64) : Decimal :=
  if x.magnitude = 0 then ⟨0, 0⟩
  else ((List.range' 1 17).findSome? (decimalOfLength? x)).getD (exactDecimal x)

end ShapeQuery.Binary64
