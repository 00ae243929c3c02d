import ShapeQuery.Proofs.Json.Induction
import ShapeQuery.Schema.Node

/-!
# Induction over schema nodes

Nodes hold lists of nodes in several places.  One principle with a case for each
kind of content replaces a mutual induction over nodes, contents, shapes and
their lists.
-/

namespace ShapeQuery

def Shape.children : Shape → List Node
  | .object properties => properties.map Prod.snd
  | .record value => [value]
  | .array item => [item]
  | .union members => members
  | _ => []

def Kind.children : Kind → List Node
  | .leaf shape => shape.children
  | .fragment _ schema => [schema]
  | .nullable inner => [inner]
  | .projection properties _ => properties.map Prod.snd
  | .collection element _ => [element]
  | .select branches _ => branches.map Prod.snd

/-- A node that occurs in another one, at whatever depth. -/
inductive Node.Within (node : Node) : Node → Prop where
  | refl : node.Within node
  | child {whole child : Node} :
      child ∈ whole.kind.children → node.Within child → node.Within whole

/-- A collection of nodes that is closed under children has all that occurs in its nodes. -/
theorem Node.Within.of_closed {p : Node → Prop}
    (hclosed : ∀ whole, p whole → ∀ child ∈ whole.kind.children, p child) {node whole : Node}
    (hnode : node.Within whole) (hwhole : p whole) : p node := by
  induction hnode with
  | refl => exact hwhole
  | child hchild _ ih => exact ih (hclosed _ hwhole _ hchild)

theorem Shape.sizeOf_lt_of_mem_children {shape : Shape} {child : Node}
    (hchild : child ∈ shape.children) : sizeOf child < sizeOf shape := by
  cases shape with
  | object properties =>
      obtain ⟨⟨key, node⟩, hproperty, rfl⟩ := List.mem_map.mp hchild
      have hsize := List.sizeOf_lt_of_mem hproperty
      simp only [Prod.mk.sizeOf_spec, Shape.object.sizeOf_spec] at hsize ⊢
      omega
  | record value =>
      obtain rfl := List.mem_singleton.mp hchild
      simp
  | array item =>
      obtain rfl := List.mem_singleton.mp hchild
      simp
  | union members =>
      have hmember : child ∈ members := hchild
      have hsize := List.sizeOf_lt_of_mem hmember
      simp only [Shape.union.sizeOf_spec]
      omega
  | _ => exact absurd hchild List.not_mem_nil

/-- Induction on the nodes that a node is made of, one case a kind. -/
@[elab_as_elim]
theorem Node.induction {motive : Node → Prop}
    (leaf : ∀ id shape, (∀ child ∈ shape.children, motive child) →
      motive (.mk id (.leaf shape)))
    (fragment : ∀ id text schema, motive schema → motive (.mk id (.fragment text schema)))
    (nullable : ∀ id inner, motive inner → motive (.mk id (.nullable inner)))
    (projection : ∀ id properties options, (∀ property ∈ properties, motive property.2) →
      motive (.mk id (.projection properties options)))
    (collection : ∀ id element narrowing, motive element →
      motive (.mk id (.collection element narrowing)))
    (select : ∀ id branches expansion, (∀ branch ∈ branches, motive branch.2) →
      motive (.mk id (.select branches expansion))) (node : Node) : motive node := by
  -- Every child is smaller than the node it belongs to.
  induction hsize : sizeOf node using Nat.strongRecOn generalizing node with
  | ind size ih =>
      subst hsize
      have hsmaller : ∀ child, sizeOf child < sizeOf node → motive child :=
        fun child hchild => ih (sizeOf child) hchild child rfl
      obtain ⟨id, kind⟩ := node
      cases kind with
      | leaf shape =>
          refine leaf id shape fun child hchild => hsmaller child ?_
          have := Shape.sizeOf_lt_of_mem_children hchild
          simp only [Node.mk.sizeOf_spec, Kind.leaf.sizeOf_spec]
          omega
      | fragment text schema =>
          refine fragment id text schema (hsmaller schema ?_)
          simp only [Node.mk.sizeOf_spec, Kind.fragment.sizeOf_spec]
          omega
      | nullable inner =>
          refine nullable id inner (hsmaller inner ?_)
          simp only [Node.mk.sizeOf_spec, Kind.nullable.sizeOf_spec]
          omega
      | projection properties options =>
          refine projection id properties options fun property hproperty =>
            hsmaller property.2 ?_
          have := sizeOf_snd_lt_of_mem hproperty
          simp only [Node.mk.sizeOf_spec, Kind.projection.sizeOf_spec]
          omega
      | collection element narrowing =>
          refine collection id element narrowing (hsmaller element ?_)
          simp only [Node.mk.sizeOf_spec, Kind.collection.sizeOf_spec]
          omega
      | select branches expansion =>
          refine select id branches expansion fun branch hbranch => hsmaller branch.2 ?_
          have := sizeOf_snd_lt_of_mem hbranch
          simp only [Node.mk.sizeOf_spec, Kind.select.sizeOf_spec]
          omega

/-- What every node has when all its children have it, all nodes have. -/
@[elab_as_elim]
theorem Node.induction_of_children {motive : Node → Prop}
    (step : ∀ node, (∀ child ∈ node.kind.children, motive child) → motive node) (node : Node) :
    motive node := by
  induction node using Node.induction with
  | leaf id shape ih => exact step _ ih
  | fragment id text schema ih => exact step _ (List.forall_mem_singleton.mpr ih)
  | nullable id inner ih => exact step _ (List.forall_mem_singleton.mpr ih)
  | projection id properties options ih => exact step _ (List.forall_mem_map.mpr ih)
  | collection id element narrowing ih => exact step _ (List.forall_mem_singleton.mpr ih)
  | select id branches expansion ih => exact step _ (List.forall_mem_map.mpr ih)

end ShapeQuery
