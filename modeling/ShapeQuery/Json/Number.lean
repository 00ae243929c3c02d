import ShapeQuery.Binary64.Shortest

/-!
# JSON numbers

A number without fraction and exponent that fits sixty-four bits is kept as an
integer; every other number is a double.  The two never mix: the integer one and
the double one are different numbers and are written differently.
-/

namespace ShapeQuery

/-- An integer that is kept exactly: signed or unsigned, it fits sixty-four bits. -/
structure WideInt where
  value : Int
  fits : -0x8000000000000000 ≤ value ∧ value < 0x10000000000000000
deriving DecidableEq, Repr

inductive Number where
  | integer (value : WideInt)
  | float (value : Binary64)
deriving DecidableEq, Repr

namespace Number

/-- The number of an integer: kept exactly if it fits, else the nearest finite double. -/
def ofInt (n : Int) : Number :=
  if h : -0x8000000000000000 ≤ n ∧ n < 0x10000000000000000 then .integer ⟨n, h⟩
  else .float (Binary64.ofInt n)

/-- Equality of values, which keeps integers and doubles apart. -/
def same : Number → Number → Bool
  | .integer a, .integer b => a == b
  | .float a, .float b => a.same b
  | _, _ => false

/-- Whether the value is an integer, however it is kept. -/
def isWhole : Number → Bool
  | .integer _ => true
  | .float x => x.isWhole

def toBinary64 : Number → Binary64
  | .integer n => Binary64.ofInt n.value
  | .float x => x

/-- Places the decimal point, given the digits and the power of ten of the first
one.  Powers from -5 to 15 are written out, always with a fraction; beyond them
stand one digit before the point and a signed exponent without padding. -/
def layout (digits : List Char) (power : Int) : List Char :=
  if 0 ≤ power ∧ power ≤ 15 then
    let whole := power.toNat + 1
    digits.take whole ++ List.replicate (whole - digits.length) '0' ++
      '.' :: (if digits.length ≤ whole then ['0'] else digits.drop whole)
  else if -5 ≤ power ∧ power < 0 then
    '0' :: '.' :: List.replicate ((-power).toNat - 1) '0' ++ digits
  else
    let fraction := digits.drop 1
    digits.take 1 ++ (if fraction = [] then [] else '.' :: fraction) ++
      'e' :: (if 0 ≤ power then '+' else '-') :: Nat.toDigits 10 power.natAbs

/-- The text of a double: its shortest digits without trailing zeros. -/
def floatText (x : Binary64) : List Char :=
  let d := x.shortest
  let written := Nat.toDigits 10 d.digits
  let digits := (written.reverse.dropWhile (· == '0')).reverse
  let magnitude :=
    if digits = [] then ['0', '.', '0']
    else layout digits (d.exponent + written.length - 1)
  if x.negative then '-' :: magnitude else magnitude

def text : Number → String
  | .integer n => toString n.value
  | .float x => String.ofList (floatText x)

def digitsValue (digits : List Char) : Nat :=
  digits.foldl (fun value digit => 10 * value + (digit.toNat - '0'.toNat)) 0

def readExponent : List Char → Option Int
  | [] => some 0
  | mark :: rest =>
      if mark = 'e' ∨ mark = 'E' then
        let (negative, digits) :=
          match rest with
          | '-' :: digits => (true, digits)
          | '+' :: digits => (false, digits)
          | digits => (false, digits)
        if digits = [] ∨ !digits.all Char.isDigit then none
        else some (if negative then -(digitsValue digits : Int) else digitsValue digits)
      else none

/-- Reads an unsigned number.  A zero stands alone before the point, and there
are digits on both sides of a point. -/
def readMagnitude (negative : Bool) (word : List Char) : Option Number :=
  let whole := word.takeWhile Char.isDigit
  let rest := word.dropWhile Char.isDigit
  if whole = [] ∨ (whole.head? = some '0' ∧ whole ≠ ['0']) then none
  else
    let decimal (fraction : List Char) (e : Int) : Option Number :=
      (Binary64.ofDecimal? negative (digitsValue (whole ++ fraction)) (e - fraction.length)).map
        .float
    match rest with
    | [] =>
        let value : Int := if negative then -(digitsValue whole : Int) else digitsValue whole
        if h : (-0x8000000000000000 ≤ value ∧ value < 0x10000000000000000) ∧
            !(negative && value == 0) then
          some (.integer ⟨value, h.1⟩)
        else decimal [] 0
    | '.' :: rest =>
        let fraction := rest.takeWhile Char.isDigit
        if fraction = [] then none
        else (readExponent (rest.dropWhile Char.isDigit)).bind (decimal fraction)
    | rest => (readExponent rest).bind (decimal [])

def ofWord? : List Char → Option Number
  | '-' :: word => readMagnitude true word
  | word => readMagnitude false word

end Number

end ShapeQuery
