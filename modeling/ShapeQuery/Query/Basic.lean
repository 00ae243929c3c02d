import ShapeQuery.Groq.Text
import ShapeQuery.Predicate.Text
import ShapeQuery.Schema.Build

/-!
# Queries

A query selects documents by conditions, takes a slice of them, and projects what
is left by a schema.  Its arity says whether the answer is an array of results or
a single one.  Every operation gives a new query.
-/

namespace ShapeQuery

inductive Arity where
  | many
  | one
deriving DecidableEq, Repr

structure Query (arity : Arity) where
  schema : Node
  slice : Option Slice
  conditions : List Predicate

namespace Query

variable {arity : Arity}

def ofSchema (schema : Node) : Query arity := ⟨schema, none, []⟩

/-- All documents, as they are. -/
def all : Build (Query .many) := do
  return ofSchema (← Node.leaf .unknown)

def filter (query : Query arity) (condition : Predicate) : Query arity :=
  { query with conditions := query.conditions ++ [condition] }

def grab (query : Query arity) (schema : Node) : Query arity :=
  { query with schema }

/-- The results from `start` up to but without `stop`. -/
def range (query : Query .many) (start stop : Nat) : Query .many :=
  { query with slice := some (.range start stop) }

def nth (query : Query .many) (position : Nat) : Query .one :=
  { query with slice := some (.index position) }

def first (query : Query .many) : Query .one := query.nth 0

def ofType (discriminant : String) : Build (Query .many) := do
  return (← all).filter (.typeIs discriminant)

/-- The documents of a type for which a condition holds, as one condition. -/
def ofTypeWhere (discriminant : String) (condition : Predicate) : Build (Query .many) := do
  return (← all).filter ((Predicate.typeIs discriminant).and condition)

def conditionText (condition : Predicate) : String := "[" ++ condition.groq ++ "]"

/-- The text of the slice.  Without one, a pair of brackets traverses all results. -/
def sliceText (slice : Option Slice) : String := (slice.map Slice.text).getD "[]"

def groq (query : Query arity) : String :=
  "*" ++ String.join (query.conditions.map conditionText) ++ sliceText query.slice ++
    query.schema.groq

def resultSchema (query : Query arity) : Build Node :=
  match arity with
  | .many => Node.leaf (.array query.schema)
  | .one => return query.schema

/-- Equality of conditions one by one, of schemas and of slices. -/
def same (query other : Query arity) : Bool :=
  query.schema.same other.schema && query.slice == other.slice &&
    Predicate.sameParts query.conditions other.conditions

end Query

/-- What a client can send: a node by itself, which selects from all documents, or a query. -/
inductive Source where
  | node (schema : Node)
  | query {arity : Arity} (composed : Query arity)

namespace Source

/-- The text to send.  A node that compiles to nothing has none. -/
def groq? : Source → Option String
  | .node schema => if schema.groq = "" then none else some ("*" ++ schema.groq)
  | .query composed => some composed.groq

def resultSchema : Source → Build Node
  | .node schema => return schema
  | .query composed => composed.resultSchema

end Source

end ShapeQuery
