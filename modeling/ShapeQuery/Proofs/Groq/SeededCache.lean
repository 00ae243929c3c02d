import Mathlib.Data.List.Nodup
import ShapeQuery.Proofs.Groq.CompiledTexts
import ShapeQuery.Proofs.Schema.Pools

/-!
# Seeded caches

A cache may hold any texts before a node is compiled, right ones or not.  A text that it holds
stands for the whole node with its identity, as if the node had been a literal piece of query text
all along.  What is around it is still put together with a view to the node that it stands for: a
collection asks for keys whenever its element had any, and a field is quoted by what the text
starts with.
-/

namespace ShapeQuery

mutual

/-- The node with the texts that a cache holds in the place of the nodes that they are held for,
outermost nodes first.  Data shapes and the schemas of literal pieces are not visited. -/
def Node.substituted (seed : Cache) : Node → Node
  | .mk id kind =>
      match seed.get? id with
      | some text => .mk id (.fragment text (.mk id kind))
      | none => .mk id (kind.substituted seed)

def Kind.substituted (seed : Cache) : Kind → Kind
  | .leaf shape => .leaf shape
  | .fragment text schema => .fragment text schema
  | .nullable inner => .nullable (inner.substituted seed)
  | .projection properties options => .projection (substitutedProperties seed properties) options
  | .collection element narrowing => .collection (element.substituted seed) narrowing
  | .select branches expansion => .select (substitutedBranches seed branches) expansion

def substitutedProperties (seed : Cache) : List (String × Node) → List (String × Node)
  | [] => []
  | (key, node) :: properties =>
      (key, node.substituted seed) :: substitutedProperties seed properties

def substitutedBranches (seed : Cache) : List (Guard × Node) → List (Guard × Node)
  | [] => []
  | (guard, node) :: branches =>
      (guard, node.substituted seed) :: substitutedBranches seed branches

end

variable {seed cache : Cache} {nodes : Set Node} {node : Node} {id : Identity} {kind : Kind}

theorem substitutedProperties_eq_map (seed : Cache) (properties : List (String × Node)) :
    substitutedProperties seed properties =
      properties.map fun property => (property.1, property.2.substituted seed) := by
  induction properties with
  | nil => rfl
  | cons property rest ih => rw [substitutedProperties, ih, List.map_cons]

theorem substitutedBranches_eq_map (seed : Cache) (branches : List (Guard × Node)) :
    substitutedBranches seed branches =
      branches.map fun branch => (branch.1, branch.2.substituted seed) := by
  induction branches with
  | nil => rfl
  | cons branch rest ih => rw [substitutedBranches, ih, List.map_cons]

theorem Node.substituted_of_held {text : String} (hheld : seed.get? node.id = some text) :
    node.substituted seed = .mk node.id (.fragment text node) := by
  obtain ⟨id, kind⟩ := node
  rw [substituted, show seed.get? id = some text from hheld]
  rfl

theorem Node.substituted_of_missing (hmissing : seed.get? node.id = none) :
    node.substituted seed = .mk node.id (node.kind.substituted seed) := by
  obtain ⟨id, kind⟩ := node
  rw [substituted, show seed.get? id = none from hmissing]
  rfl

/-- A text counts as structured whenever the node does that it stands for. -/
theorem Node.isStructured_substituted (seed : Cache) (node : Node) :
    (node.substituted seed).isStructured = node.isStructured := by
  induction node using Node.induction with
  | nullable id inner ih =>
      rw [substituted]
      split
      · rfl
      · exact ih
  | _ =>
      rw [substituted]
      split <;> rfl

/-- With held texts in place, a content is put together from what its parts are then written
as. -/
theorem Kind.groq_substituted (seed : Cache) (kind : Kind) :
    (kind.substituted seed).groq = kind.assembled fun node => (node.substituted seed).groq := by
  cases kind with
  | leaf shape => rfl
  | fragment text schema => rfl
  | nullable inner => rfl
  | projection properties options =>
      rw [substituted, substitutedProperties_eq_map, groq, fieldTexts_eq_map, List.map_map]
      rfl
  | collection element narrowing =>
      rw [substituted, groq, Node.isStructured_substituted]
      rfl
  | select branches expansion =>
      rw [substituted, substitutedBranches_eq_map, groq, branchTexts_eq_map, List.map_map]
      rfl

/-- A cache that was filled from a seed on: nothing is changed that the seed holds, and every text
is that of the node with the texts of the seed in place. -/
structure Cache.FilledFrom (seed : Cache) (nodes : Set Node) (cache : Cache) : Prop where
  kept : ∀ id text, seed.get? id = some text → cache.get? id = some text
  right : ∀ node ∈ nodes, ∀ text, cache.get? node.id = some text →
    text = (node.substituted seed).groq

namespace Cache

theorem FilledFrom.start (seed : Cache) (nodes : Set Node) : FilledFrom seed nodes seed := by
  constructor
  · exact fun id text hheld => hheld
  · intro node _ text hheld
    rw [Node.substituted_of_held hheld]
    rfl

/-- The text of a node may be written: where the seed holds one for it, it is no other. -/
theorem FilledFrom.write (hcache : FilledFrom seed nodes cache) (hnodes : Determined nodes)
    (hnode : node ∈ nodes) :
    FilledFrom seed nodes (cache.insert node.id (node.substituted seed).groq) := by
  constructor
  · intro id text hheld
    rw [get?_insert]
    split
    · next hid =>
        rw [beq_iff_eq] at hid
        subst hid
        rw [Node.substituted_of_held hheld]
        rfl
    · exact hcache.kept id text hheld
  · intro other hother text hget
    rw [get?_insert] at hget
    split at hget
    · next hid =>
        obtain rfl := hnodes other hother node hnode (beq_iff_eq.mp hid)
        exact (Option.some.inj hget).symm
    · exact hcache.right other hother text hget

/-- Compiling from a seed on gives the texts of the nodes with the texts of the seed in place. -/
theorem serves_filledFrom (seed : Cache) (hnodes : Determined nodes)
    (hclosed : ∀ whole ∈ nodes, ∀ part ∈ whole.parts, part ∈ nodes) :
    Serves (FilledFrom seed nodes) nodes fun node => (node.substituted seed).groq := by
  constructor
  · exact hclosed
  · exact fun cache hcache => hcache.right
  · intro cache hcache node _ hget
    cases hheld : seed.get? node.id with
    | some text => exact absurd (hget.symm.trans (hcache.kept _ text hheld)) nofun
    | none =>
        rw [Node.substituted_of_missing hheld]
        exact node.kind.groq_substituted seed
  · exact fun cache hcache node hnode => hcache.write hnodes hnode

end Cache

end ShapeQuery
