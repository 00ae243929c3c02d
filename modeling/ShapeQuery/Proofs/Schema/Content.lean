import ShapeQuery.Groq.Text
import ShapeQuery.Proofs.Schema.Induction

/-!
# The content of nodes

Nodes are built anew with other identities while their content stays the same.
Forgetting all identities leaves the content, and the query text is a function of it.
-/

namespace ShapeQuery

/-- The identity that stands for every identity once they are forgotten. -/
def Identity.forgotten : Identity := ⟨0⟩

mutual

/-- The node with all identities forgotten, its own and those of the nodes in it. -/
def Node.content : Node → Node
  | .mk _ kind => .mk .forgotten kind.content

def Kind.content : Kind → Kind
  | .leaf shape => .leaf shape.content
  | .fragment text schema => .fragment text schema.content
  | .nullable inner => .nullable inner.content
  | .projection properties options => .projection (propertyContents properties) options
  | .collection element narrowing => .collection element.content narrowing
  | .select branches expansion => .select (branchContents branches) expansion

def Shape.content : Shape → Shape
  | .unknown => .unknown
  | .null => .null
  | .boolean => .boolean
  | .number => .number
  | .integer => .integer
  | .string => .string
  | .literal value => .literal value
  | .object properties => .object (propertyContents properties)
  | .record value => .record value.content
  | .array item => .array item.content
  | .union members => .union (memberContents members)

def propertyContents : List (String × Node) → List (String × Node)
  | [] => []
  | (key, node) :: properties => (key, node.content) :: propertyContents properties

def memberContents : List Node → List Node
  | [] => []
  | member :: members => member.content :: memberContents members

def branchContents : List (Guard × Node) → List (Guard × Node)
  | [] => []
  | (guard, node) :: branches => (guard, node.content) :: branchContents branches

end

theorem Node.isStructured_content (node : Node) :
    node.content.isStructured = node.isStructured := by
  induction node using Node.induction with
  | leaf id shape ih => cases shape <;> rfl
  | fragment id text schema ih => exact ih
  | nullable id inner ih => exact ih
  | projection id properties options ih => rfl
  | collection id element narrowing ih => rfl
  | select id branches expansion ih => rfl

theorem fieldTexts_content {properties : List (String × Node)}
    (hproperties : ∀ property ∈ properties, property.2.content.groq = property.2.groq) :
    fieldTexts (propertyContents properties) = fieldTexts properties := by
  induction properties with
  | nil => rfl
  | cons property rest ih =>
      obtain ⟨hproperty, hrest⟩ := List.forall_mem_cons.mp hproperties
      simp only [propertyContents, fieldTexts, hproperty, ih hrest]

theorem branchTexts_content {branches : List (Guard × Node)}
    (hbranches : ∀ branch ∈ branches, branch.2.content.groq = branch.2.groq) :
    branchTexts (branchContents branches) = branchTexts branches := by
  induction branches with
  | nil => rfl
  | cons branch rest ih =>
      obtain ⟨hbranch, hrest⟩ := List.forall_mem_cons.mp hbranches
      simp only [branchContents, branchTexts, hbranch, ih hrest]

/-- The query text of a node depends on its content only. -/
theorem Node.groq_content (node : Node) : node.content.groq = node.groq := by
  induction node using Node.induction with
  | leaf id shape ih => rfl
  | fragment id text schema ih => rfl
  | nullable id inner ih => exact ih
  | projection id properties options ih =>
      exact congrArg (Groq.projection options) (fieldTexts_content ih)
  | collection id element narrowing ih =>
      have hstructured := element.isStructured_content
      change Groq.collection narrowing element.content.isStructured element.content.groq = _
      rw [hstructured, ih]
      rfl
  | select id branches expansion ih =>
      exact congrArg (Groq.select expansion) (branchTexts_content ih)

/-- Identities leave no trace in a query. -/
theorem Node.groq_eq_of_content_eq {node other : Node} (hcontent : node.content = other.content) :
    node.groq = other.groq := by
  rw [← node.groq_content, hcontent, other.groq_content]

end ShapeQuery
