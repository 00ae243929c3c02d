import ShapeQuery.Reading.Fault

/-!
# Reading values at types

A reading of a type takes a JSON value to a value of that type, or stops at the
first fault.  Readings of composed types are built from the readings of their
parts.
-/

namespace ShapeQuery

/-- How JSON values are read as values of a type. -/
abbrev Reading (α : Type) := Json → Except Fault α

namespace Reading

def wrongType {α : Type} (found : Json) (expected : String) : Except Fault α :=
  .error (.here (.wrongType found expected))

def any : Reading Json := fun value => .ok value

def text : Reading String
  | .string s => .ok s
  | value => wrongType value "a string"

def boolean : Reading Bool
  | .bool b => .ok b
  | value => wrongType value "a boolean"

/-- An integer between two bounds, of a type with a name.  Doubles are never read as integers. -/
def integer (name : String) (least greatest : Int) : Reading Int
  | .number (.integer n) =>
      if least ≤ n.value ∧ n.value ≤ greatest then .ok n.value
      else .error (.here (.wrongValue (.number (.integer n)) name))
  | value => wrongType value name

/-- A double.  An integer becomes the nearest one. -/
def float : Reading Binary64
  | .number n => .ok n.toBinary64
  | value => wrongType value "f64"

def optional {α : Type} (read : Reading α) : Reading (Option α)
  | .null => .ok none
  | value => (read value).map some

/-- Reads items one after another, numbered from `position`. -/
def items {α : Type} (read : Reading α) : Nat → List Json → Except Fault (List α)
  | _, [] => .ok []
  | position, item :: rest => do
      let first ← (read item).mapError (.inside (.item position))
      return first :: (← items read (position + 1) rest)

def sequence {α : Type} (read : Reading α) : Reading (List α)
  | .array values => items read 0 values
  | value => wrongType value "a sequence"

def entries {α : Type} (read : Reading α) :
    List (String × Json) → Except Fault (List (String × α))
  | [] => .ok []
  | (key, value) :: rest => do
      let first ← (read value).mapError (.inside (.key key))
      return (key, first) :: (← entries read rest)

def mapping {α : Type} (read : Reading α) : Reading (List (String × α))
  | .object fields => entries read fields
  | value => wrongType value "a map"

def variantOf {α : Type} (variants : List (String × α)) (name : String) : Except Fault α :=
  match variants.lookup name with
  | some variant => .ok variant
  | none => .error (.here (.unknownVariant name (variants.map Prod.fst)))

/-- One of several names, alone or as the only key of an object that holds null. -/
def choice {α : Type} (variants : List (String × α)) : Reading α
  | .string name => variantOf variants name
  | .object [(name, content)] => do
      let variant ← variantOf variants name
      match content with
      | .null => .ok variant
      | _ => wrongType content "unit"
  | .object fields => .error (.here (.wrongValue (.object fields) "map with a single key"))
  | value => wrongType value "string or map"

end Reading

end ShapeQuery
