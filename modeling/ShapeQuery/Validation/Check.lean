import ShapeQuery.Json.Text
import ShapeQuery.Schema.Node
import ShapeQuery.Validation.Issue

/-!
# Checking values against schemas

A check walks over schema and value together and appends an issue for every
mismatch to those found before.  Objects may have attributes that the schema does
not name, an attribute whose schema accepts null may be absent, and a union is
content as soon as one member finds nothing wrong.
-/

namespace ShapeQuery

namespace Check

/-- Appends an issue unless the condition holds. -/
def require (holds : Bool) (message path : String) (issues : Array Issue) : Array Issue :=
  if holds then issues else issues.push ⟨path, message⟩

/-- Checks that the key of a collection element, if it has one, is a string or null. -/
def elementKey (item : Json) (path : String) (issues : Array Issue) : Array Issue :=
  match item.field? "_key" with
  | some key => require key.isStringOrNull "Expected string" (Pointer.child path "_key") issues
  | none => issues

/-- Checks items one after another, numbered from `position`, and the keys of
elements where these are wanted. -/
def items (check : Json → String → Array Issue → Array Issue) (keyed : Bool) :
    Nat → List Json → String → Array Issue → Array Issue
  | _, [], _, issues => issues
  | position, item :: rest, path, issues =>
      let child := Pointer.child path (toString position)
      let issues := check item child issues
      let issues := if keyed then elementKey item child issues else issues
      items check keyed (position + 1) rest path issues

def array (check : Json → String → Array Issue → Array Issue) (keyed : Bool)
    (value : Json) (path : String) (issues : Array Issue) : Array Issue :=
  match value with
  | .array values => items check keyed 0 values path issues
  | _ => issues.push ⟨path, "Expected array"⟩

def attributes (check : Json → String → Array Issue → Array Issue) :
    List (String × Json) → String → Array Issue → Array Issue
  | [], _, issues => issues
  | (key, value) :: rest, path, issues =>
      attributes check rest path (check value (Pointer.child path key) issues)

def record (check : Json → String → Array Issue → Array Issue)
    (value : Json) (path : String) (issues : Array Issue) : Array Issue :=
  match value with
  | .object fields => attributes check fields path issues
  | _ => issues.push ⟨path, "Expected object"⟩

def isNull : Json → Bool
  | .null => true
  | _ => false

def isBoolean : Json → Bool
  | .bool _ => true
  | _ => false

def isNumber : Json → Bool
  | .number _ => true
  | _ => false

/-- Whether the value is a number without fraction, however it is written. -/
def isInteger : Json → Bool
  | .number n => n.isWhole
  | _ => false

def isString : Json → Bool
  | .string _ => true
  | _ => false

end Check

mutual

/-- Checks a value against a node. -/
def Node.checkInto : Node → Json → String → Array Issue → Array Issue
  | .mk _ kind, value, path, issues => kind.checkInto value path issues

def Kind.checkInto : Kind → Json → String → Array Issue → Array Issue
  | .leaf shape, value, path, issues => shape.checkInto value path issues
  | .fragment _ schema, value, path, issues => schema.checkInto value path issues
  | .nullable inner, value, path, issues =>
      if Check.isNull value then issues else inner.checkInto value path issues
  | .projection properties _, value, path, issues =>
      match value with
      | .object fields => checkProperties properties fields path issues
      | _ => issues.push ⟨path, "Expected object"⟩
  | .collection element _, value, path, issues =>
      Check.array element.checkInto element.isStructured value path issues
  | .select branches _, value, path, issues =>
      Check.require (anyBranchAccepts branches value path) "Expected union value" path issues

def Shape.checkInto : Shape → Json → String → Array Issue → Array Issue
  | .unknown, _, _, issues => issues
  | .null, value, path, issues =>
      Check.require (Check.isNull value) "Expected null" path issues
  | .boolean, value, path, issues =>
      Check.require (Check.isBoolean value) "Expected boolean" path issues
  | .number, value, path, issues =>
      Check.require (Check.isNumber value) "Expected number" path issues
  | .integer, value, path, issues =>
      Check.require (Check.isInteger value) "Expected integer" path issues
  | .string, value, path, issues =>
      Check.require (Check.isString value) "Expected string" path issues
  | .literal literal, value, path, issues =>
      Check.require (value.same literal) ("Expected " ++ literal.text) path issues
  | .object properties, value, path, issues =>
      match value with
      | .object fields => checkProperties properties fields path issues
      | _ => issues.push ⟨path, "Expected object"⟩
  | .record item, value, path, issues => Check.record item.checkInto value path issues
  | .array item, value, path, issues => Check.array item.checkInto false value path issues
  | .union members, value, path, issues =>
      Check.require (anyMemberAccepts members value path) "Expected union value" path issues

/-- Checks the attributes that properties name, in the order of the properties. -/
def checkProperties :
    List (String × Node) → List (String × Json) → String → Array Issue → Array Issue
  | [], _, _, issues => issues
  | (key, node) :: properties, fields, path, issues =>
      let child := Pointer.child path key
      let issues :=
        match fields.lookup key with
        | some value => node.checkInto value child issues
        | none =>
            Check.require (node.checkInto .null "" #[]).isEmpty "Expected required property" child
              issues
      checkProperties properties fields path issues

def anyMemberAccepts : List Node → Json → String → Bool
  | [], _, _ => false
  | member :: members, value, path =>
      (member.checkInto value path #[]).isEmpty || anyMemberAccepts members value path

def anyBranchAccepts : List (Guard × Node) → Json → String → Bool
  | [], _, _ => false
  | (_, node) :: branches, value, path =>
      (node.checkInto value path #[]).isEmpty || anyBranchAccepts branches value path

end

/-- Every issue that a schema has with a value. -/
def Node.check (schema : Node) (value : Json) : List Issue :=
  (schema.checkInto value "" #[]).toList

/-- A response that was turned down: what is wrong with it, and the value handed back. -/
structure Rejection where
  issues : List Issue
  value : Json

/-- The value itself, if a schema has no issue with it. -/
def Node.decode (schema : Node) (value : Json) : Except Rejection Json :=
  let issues := schema.check value
  if issues.isEmpty then .ok value else .error ⟨issues, value⟩

end ShapeQuery
