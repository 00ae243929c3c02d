import ShapeQuery.Assoc
import ShapeQuery.Json.Number

/-!
# JSON values

Objects are ordered lists of fields.  Their order is kept and written, but it
does not count when two values are compared.
-/

namespace ShapeQuery

inductive Json where
  | null
  | bool (value : Bool)
  | number (value : Number)
  | string (value : String)
  | array (items : List Json)
  | object (fields : List (String × Json))
deriving Repr, Inhabited

namespace Json

def ofInt (n : Int) : Json := .number (.ofInt n)

def ofNat (n : Nat) : Json := ofInt n

mutual

/-- Equality of values: fields are compared by key, whatever their order. -/
def same : Json → Json → Bool
  | .null, .null => true
  | .bool a, .bool b => a == b
  | .number a, .number b => a.same b
  | .string a, .string b => a == b
  | .array items, .array others => sameItems items others
  | .object fields, .object others => fields.length == others.length && sameFields fields others
  | _, _ => false

def sameItems : List Json → List Json → Bool
  | [], [] => true
  | item :: items, other :: others => item.same other && sameItems items others
  | _, _ => false

/-- Whether every field has an equal one of the same key among the others. -/
def sameFields : List (String × Json) → List (String × Json) → Bool
  | [], _ => true
  | (key, value) :: fields, others =>
      (match others.lookup key with
        | some other => value.same other
        | none => false) &&
      sameFields fields others

end

def field? (value : Json) (key : String) : Option Json :=
  match value with
  | .object fields => fields.lookup key
  | _ => none

def isStringOrNull : Json → Bool
  | .null => true
  | .string _ => true
  | _ => false

end Json

end ShapeQuery
