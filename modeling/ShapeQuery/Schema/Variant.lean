import ShapeQuery.Schema.Derive

/-!
# Projections of typed documents

The type attribute of a document says what it is.  A variant projects the
documents of one type, and a typed union takes several variants together with a
fallback for all other documents.
-/

namespace ShapeQuery

/-- A projection whose first attribute is the type, bound to a known string. -/
structure Variant where
  discriminant : String
  node : Node

namespace Variant

/-- The variant of a discriminant.  A type attribute among the properties gives
way to the discriminant. -/
def ofProperties (discriminant : String) (properties : List (String × Node))
    (options : ProjectionOptions := .none) : Build Variant := do
  let type ← Node.leaf (.literal (.string discriminant))
  let others := properties.filter fun property => property.1 != "_type"
  return ⟨discriminant, ← Node.projection (("_type", type) :: others) options⟩

def expanded (variant : Variant) (expansion : Expansion) : Build Variant := do
  return { variant with node := ← variant.node.derive (.expand expansion) }

end Variant

namespace Node

/-- The projection of documents of no known type. -/
def unknownVariant : Build Node := do
  let rawType ← fragment "_type" (← leaf .string)
  let type ← fragment (Quoted.encode "unknown") (← leaf (.literal (.string "unknown")))
  projection [("_rawType", rawType), ("_type", type)]

def typedUnion (variants : List Variant) (expansion : Option Expansion := none) : Build Node := do
  let fallback ← unknownVariant
  let branches := variants.map fun variant => (Guard.ofType variant.discriminant, variant.node)
  select ((.otherwise, fallback) :: branches) expansion

end Node

end ShapeQuery
