import ShapeQuery.Reading.Basic

/-!
# Reading records

A record is read from an object, or from an array that holds the fields in their
declared order.  From an object the fields are read in the order in which the
object has them, attributes of other names are passed over, and what is missing
is found out last.
-/

namespace ShapeQuery.Reading

/-- What it means that a field is not there. -/
inductive Presence where
  | required
  /-- An object may lack the field, an array may not. -/
  | omissible
  /-- The field may be lacking everywhere. -/
  | defaulted
deriving DecidableEq, Repr

structure Field (α : Type) where
  name : String
  read : Reading α
  presence : Presence

def Field.required {α : Type} (name : String) (read : Reading α) : Field α :=
  ⟨name, read, .required⟩

/-- Reads those attributes of an object that are fields. -/
def attributes {α : Type} (fields : List (Field α)) :
    List (String × Json) → Except Fault (List (String × α))
  | [] => .ok []
  | (key, value) :: rest =>
      match fields.find? (·.name == key) with
      | some field => do
          let part ← (field.read value).mapError (.inside (.key key))
          return (key, part) :: (← attributes fields rest)
      | none => attributes fields rest

def fromObject {α : Type} (fields : List (Field α)) (values : List (String × Json)) :
    Except Fault (List (String × α)) := do
  let parts ← attributes fields values
  match fields.find? fun field =>
      field.presence == .required && (parts.lookup field.name).isNone with
  | some field => .error (.here (.missingField field.name))
  | none => return parts

def elementCount (count : Nat) : String :=
  toString count ++ (if count = 1 then " element" else " elements")

/-- Reads fields in their order from the items of an array, the first of which has
the number `position`. -/
def fromItems {α : Type} (tooShort tooLong : Nat → Mismatch) :
    List (Field α) → Nat → List Json → Except Fault (List (String × α))
  | [], _, [] => .ok []
  | [], position, rest => .error (.here (tooLong (position + rest.length)))
  | field :: fields, position, [] =>
      if field.presence = .defaulted then fromItems tooShort tooLong fields position []
      else .error (.here (tooShort position))
  | field :: fields, position, item :: rest => do
      let part ← (field.read item).mapError (.inside (.item position))
      return (field.name, part) :: (← fromItems tooShort tooLong fields (position + 1) rest)

def tooShortFor (title : String) (count length : Nat) : Mismatch :=
  .wrongLength length (title ++ " with " ++ elementCount count)

/-- The fields of a record that are there. -/
def record {α : Type} (title : String) (fields : List (Field α)) :
    Reading (List (String × α))
  | .object values => fromObject fields values
  | .array values =>
      fromItems (tooShortFor title fields.length)
        (fun length => .wrongLength length "fewer elements in array") fields 0 values
  | value => wrongType value title

/-- All declared fields in their order, null where one is not there. -/
def completed (fields : List (Field Json)) (parts : List (String × Json)) :
    List (String × Json) :=
  fields.map fun field => (field.name, (parts.lookup field.name).getD .null)

/-- A record, given back as an object of all its fields. -/
def object (title : String) (fields : List (Field Json)) : Reading Json := fun value =>
  (record title fields value).map fun parts => .object (completed fields parts)

/-- One of the records that a tag distinguishes. -/
structure Case where
  tag : String
  title : String
  fields : List (Field Json)

def caseOf (cases : List Case) : Reading Case
  | .string tag => variantOf (cases.map fun case => (case.tag, case)) tag
  | value => wrongType value "variant identifier"

def Case.object (key : String) (case : Case) (parts : List (String × Json)) : Json :=
  .object ((key, .string case.tag) :: completed case.fields parts)

/-- Reads the case of a tag, found at the given step, and then its fields, whose
faults are blamed on the record. -/
def readCase (key : String) (cases : List Case) (step : Step) (tag : Json)
    (fields : Case → Except Fault (List (String × Json))) : Except Fault Json := do
  let case ← (caseOf cases tag).mapError (.inside step)
  let parts ← (fields case).mapError .blamedHere
  return case.object key parts

/-- A record whose fields hang on a tag, which is an attribute of the object or the
first item of the array. -/
def tagged (title key : String) (cases : List Case) : Reading Json
  | .object values =>
      match values.lookup key with
      | none => .error (.here (.missingField key))
      | some tag =>
          readCase key cases (.key key) tag fun case =>
            fromObject case.fields (values.filter fun entry => entry.1 != key)
  | .array [] => .error (.here (.missingField key))
  | .array (tag :: rest) =>
      readCase key cases (.item 0) tag fun case =>
        let count := case.fields.length
        fromItems (tooShortFor case.title count)
          (fun length => .wrongLength length (elementCount count ++ " in sequence"))
          case.fields 0 rest
  | value => wrongType value title

end ShapeQuery.Reading
