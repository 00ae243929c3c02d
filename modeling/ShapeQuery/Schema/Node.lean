import ShapeQuery.Json.Basic
import ShapeQuery.Schema.Identity
import ShapeQuery.Schema.Options

/-!
# Schema nodes

A node describes a value twice: what a query has to project, and what shape of
data comes back.  Plain data shapes are leaves of the query side.  They may hold
nodes again, whose query side then plays no part.
-/

namespace ShapeQuery

mutual

inductive Shape where
  | unknown
  | null
  | boolean
  | number
  | integer
  | string
  /-- Exactly one value. -/
  | literal (value : Json)
  /-- An object with at least these attributes. -/
  | object (properties : List (String × Node))
  /-- An object whose attributes all hold values of one kind. -/
  | record (value : Node)
  | array (item : Node)
  | union (members : List Node)

/-- What a node contributes to a query. -/
inductive Kind where
  /-- Nothing: the value is taken as it is. -/
  | leaf (shape : Shape)
  /-- A literal piece of query text. -/
  | fragment (text : String) (schema : Node)
  /-- The same as the inner node, whose value may also be null or absent. -/
  | nullable (inner : Node)
  | projection (properties : List (String × Node)) (options : ProjectionOptions)
  | collection (element : Node) (narrowing : Narrowing)
  /-- A projection per condition. -/
  | select (branches : List (Guard × Node)) (expansion : Option Expansion)

/-- Content with an identity. -/
inductive Node where
  | mk (id : Identity) (kind : Kind)

end

namespace Node

def id : Node → Identity
  | .mk id _ => id

def kind : Node → Kind
  | .mk _ kind => kind

/-- The named attributes of a projection or a plain object. -/
def properties? (node : Node) : Option (List (String × Node)) :=
  match node.kind with
  | .projection properties _ => some properties
  | .leaf (.object properties) => some properties
  | _ => none

/-- The string that the type attribute of a node is bound to be. -/
def discriminant? (node : Node) : Option String := do
  match (← (← node.properties?).lookup "_type").kind with
  | .leaf (.literal (.string value)) => some value
  | _ => none

end Node

mutual

/-- Whether values are objects, or one of several alternatives. -/
def Node.isStructured : Node → Bool
  | .mk _ kind => kind.isStructured

def Kind.isStructured : Kind → Bool
  | .projection _ _ => true
  | .select _ _ => true
  | .collection _ _ => false
  | .fragment _ schema => schema.isStructured
  | .nullable inner => inner.isStructured
  | .leaf (.object _) => true
  | .leaf (.record _) => true
  | .leaf (.union _) => true
  | .leaf _ => false

end

mutual

/-- Equality of nodes: identities and the order of properties do not count, the
order of branches and members does. -/
def Node.same : Node → Node → Bool
  | .mk _ kind, .mk _ other => kind.same other

def Kind.same : Kind → Kind → Bool
  | .leaf shape, .leaf other => shape.same other
  | .fragment text schema, .fragment text' schema' => text == text' && schema.same schema'
  | .nullable inner, .nullable inner' => inner.same inner'
  | .projection properties options, .projection properties' options' =>
      options == options' && properties.length == properties'.length &&
        sameProperties properties properties'
  | .collection element narrowing, .collection element' narrowing' =>
      narrowing == narrowing' && element.same element'
  | .select branches expansion, .select branches' expansion' =>
      expansion == expansion' && sameBranches branches branches'
  | _, _ => false

def Shape.same : Shape → Shape → Bool
  | .unknown, .unknown => true
  | .null, .null => true
  | .boolean, .boolean => true
  | .number, .number => true
  | .integer, .integer => true
  | .string, .string => true
  | .literal value, .literal value' => value.same value'
  | .object properties, .object properties' =>
      properties.length == properties'.length && sameProperties properties properties'
  | .record value, .record value' => value.same value'
  | .array item, .array item' => item.same item'
  | .union members, .union members' => sameMembers members members'
  | _, _ => false

/-- Whether every property has an equal one of the same key among the others. -/
def sameProperties : List (String × Node) → List (String × Node) → Bool
  | [], _ => true
  | (key, node) :: properties, others =>
      (match others.lookup key with
        | some other => node.same other
        | none => false) &&
      sameProperties properties others

def sameMembers : List Node → List Node → Bool
  | [], [] => true
  | member :: members, other :: others => member.same other && sameMembers members others
  | _, _ => false

def sameBranches : List (Guard × Node) → List (Guard × Node) → Bool
  | [], [] => true
  | (guard, node) :: branches, (guard', node') :: others =>
      guard == guard' && node.same node' && sameBranches branches others
  | _, _ => false

end

end ShapeQuery
