import ShapeQuery.Schema.Node

/-!
# Building nodes

Every constructor gives its node a fresh identity.  Properties and branches are
written into ordered maps, so a repeated key or condition replaces what it held
before and keeps its place.
-/

namespace ShapeQuery

namespace Node

def fresh (kind : Kind) : Build Node := do
  return .mk (← Identity.fresh) kind

def leaf (shape : Shape) : Build Node := fresh (.leaf shape)

/-- A plain object shape, which projects none of its attributes. -/
def object (properties : List (String × Node)) : Build Node :=
  leaf (.object (Assoc.ofList properties))

def projection (properties : List (String × Node))
    (options : ProjectionOptions := .none) : Build Node :=
  fresh (.projection (Assoc.ofList properties) options)

def collection (element : Node) (narrowing : Narrowing := .none) : Build Node :=
  fresh (.collection element narrowing)

def select (branches : List (Guard × Node)) (expansion : Option Expansion := none) : Build Node :=
  fresh (.select (Assoc.ofList branches) expansion)

/-- A literal piece of query text, whose result is described by a schema. -/
def fragment (text : String) (schema : Node) : Build Node := fresh (.fragment text schema)

/-- The attribute `target`, to stand under another name. -/
def renamed (target : String) (schema : Node) : Build Node := fragment target schema

/-- The same node, whose value may also be null or absent. -/
def nullable (inner : Node) : Build Node := fresh (.nullable inner)

def rebuilt (node : Node) : Build Node := fresh node.kind

end Node

mutual

/-- The data shape of a node, without all that only concerns the query. -/
def Node.toShape : Node → Build Shape
  | .mk _ kind => kind.toShape

def Kind.toShape : Kind → Build Shape
  | .leaf shape => return shape
  | .fragment _ schema => schema.toShape
  | .nullable inner => do return .union [inner, ← Node.leaf .null]
  | .projection properties _ => return .object properties
  | .collection element _ => return .array element
  | .select branches _ => return .union (branches.map Prod.snd)

end

/-- An attribute taken as it is, whatever its schema would project. -/
def Node.field (schema : Node) : Build Node := do
  Node.leaf (← schema.toShape)

end ShapeQuery
