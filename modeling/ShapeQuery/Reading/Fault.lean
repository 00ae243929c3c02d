import ShapeQuery.Json.Basic
import ShapeQuery.Text.LogQuoted

/-!
# Faults in reading

Reading a value at a type stops at the first fault.  A fault says where it is, as
the steps that lead there from the root, and what is wrong.
-/

namespace ShapeQuery

inductive Step where
  | item (position : Nat)
  | key (name : String)
deriving DecidableEq, Repr

/-- The text of steps after others: a dot stands before every key. -/
def Step.laterText : List Step → String
  | [] => ""
  | .item position :: steps => "[" ++ toString position ++ "]" ++ laterText steps
  | .key name :: steps => "." ++ name ++ laterText steps

/-- The text of a path.  The root is a dot, and the first key has none before it. -/
def Step.pathText : List Step → String
  | [] => "."
  | .key name :: steps => name ++ laterText steps
  | steps => laterText steps

inductive Mismatch where
  /-- The value is of another type than the expected one. -/
  | wrongType (found : Json) (expected : String)
  /-- The value is of the right type, and still not one of the expected ones. -/
  | wrongValue (found : Json) (expected : String)
  /-- A sequence has too few or too many items. -/
  | wrongLength (length : Nat) (expected : String)
  | missingField (name : String)
  | unknownVariant (name : String) (known : List String)
  /-- The value is of none of the types that a name stands for. -/
  | noAlternative (name : String)

namespace Mismatch

def described : Json → String
  | .null => "null"
  | .bool true => "boolean `true`"
  | .bool false => "boolean `false`"
  | .number (.integer n) => "integer `" ++ toString n.value ++ "`"
  | .number (.float x) => "floating point `" ++ (Number.float x).text ++ "`"
  | .string s => "string " ++ LogQuoted.encode s
  | .array _ => "sequence"
  | .object _ => "map"

def ticked (name : String) : String := "`" ++ name ++ "`"

def alternatives : List String → String
  | [] => "there are no variants"
  | [only] => "expected " ++ ticked only
  | [left, right] => "expected " ++ ticked left ++ " or " ++ ticked right
  | names => "expected one of " ++ ", ".intercalate (names.map ticked)

def message : Mismatch → String
  | .wrongType found expected => "invalid type: " ++ described found ++ ", expected " ++ expected
  | .wrongValue found expected => "invalid value: " ++ described found ++ ", expected " ++ expected
  | .wrongLength length expected =>
      "invalid length " ++ toString length ++ ", expected " ++ expected
  | .missingField name => "missing field " ++ ticked name
  | .unknownVariant name known => "unknown variant " ++ ticked name ++ ", " ++ alternatives known
  | .noAlternative name => "data did not match any variant of untagged enum " ++ name

end Mismatch

structure Fault where
  path : List Step
  mismatch : Mismatch

namespace Fault

def here (mismatch : Mismatch) : Fault := ⟨[], mismatch⟩

/-- The fault of a part, seen from the whole. -/
def inside (step : Step) (fault : Fault) : Fault := { fault with path := step :: fault.path }

/-- The fault of a part, blamed on the whole. -/
def blamedHere (fault : Fault) : Fault := { fault with path := [] }

end Fault

end ShapeQuery
