import ShapeQuery.Groq.Assembly
import ShapeQuery.Schema.Node

/-!
# The query text of a node

The text of a node is a function of its content: every node has one, if only the
empty text.
-/

namespace ShapeQuery

mutual

/-- The query text of a node. -/
def Node.groq : Node → String
  | .mk _ kind => kind.groq

def Kind.groq : Kind → String
  | .leaf _ => ""
  | .fragment text _ => text
  | .nullable inner => inner.groq
  | .projection properties options => Groq.projection options (fieldTexts properties)
  | .collection element narrowing =>
      Groq.collection narrowing element.isStructured element.groq
  | .select branches expansion => Groq.select expansion (branchTexts branches)

def fieldTexts : List (String × Node) → List String
  | [] => []
  | (key, node) :: properties => Groq.field key node.groq :: fieldTexts properties

def branchTexts : List (Guard × Node) → List (Guard × String)
  | [] => []
  | (guard, node) :: branches => (guard, node.groq) :: branchTexts branches

end

theorem fieldTexts_eq_map (properties : List (String × Node)) :
    fieldTexts properties =
      properties.map fun property => Groq.field property.1 property.2.groq := by
  induction properties with
  | nil => rfl
  | cons property rest ih => rw [fieldTexts, ih, List.map_cons]

theorem branchTexts_eq_map (branches : List (Guard × Node)) :
    branchTexts branches = branches.map fun branch => (branch.1, branch.2.groq) := by
  induction branches with
  | nil => rfl
  | cons branch rest ih => rw [branchTexts, ih, List.map_cons]

end ShapeQuery
