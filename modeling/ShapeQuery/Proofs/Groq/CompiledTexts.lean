import Mathlib.Data.Set.Insert
import Mathlib.Logic.Relation
import ShapeQuery.Groq.Cache
import ShapeQuery.Groq.Text
import ShapeQuery.Proofs.Schema.Induction

/-!
# Texts compiled by way of a cache

Compiling looks at a node, at the nodes that its text is put together from, and at those below them.
Which texts come out depends on what the cache holds, but not in any other way on the order of the
visits: it is enough that what is held is right whenever it is found, and that what is computed may
be written.
-/

namespace ShapeQuery

/-- The nodes whose texts the text of a node is put together from. -/
def Node.parts (node : Node) : List Node :=
  match node.kind with
  | .leaf _ => []
  | .fragment _ _ => []
  | .nullable inner => [inner]
  | .projection properties _ => properties.map Prod.snd
  | .collection element _ => [element]
  | .select branches _ => branches.map Prod.snd

/-- The nodes of a set with all that is compiled on the way to their texts. -/
def reached (nodes : Set Node) : Set Node :=
  { node | ∃ root ∈ nodes, Relation.ReflTransGen (fun whole part => part ∈ whole.parts) root node }

theorem subset_reached (nodes : Set Node) : nodes ⊆ reached nodes :=
  fun node hnode => ⟨node, hnode, .refl⟩

theorem mem_reached_of_reaches {nodes : Set Node} {node other : Node} (hnode : node ∈ reached nodes)
    (hreaches : Relation.ReflTransGen (fun whole part => part ∈ whole.parts) node other) :
    other ∈ reached nodes := by
  obtain ⟨root, hroot, hbefore⟩ := hnode
  exact ⟨root, hroot, hbefore.trans hreaches⟩

theorem parts_mem_reached {nodes : Set Node} {node part : Node} (hnode : node ∈ reached nodes)
    (hpart : part ∈ node.parts) : part ∈ reached nodes := by
  exact mem_reached_of_reaches hnode (.single hpart)

/-- No smaller set has the nodes and the parts of all that it has. -/
theorem reached_subset {nodes others : Set Node} (hnodes : nodes ⊆ others)
    (hclosed : ∀ whole ∈ others, ∀ part ∈ whole.parts, part ∈ others) :
    reached nodes ⊆ others := by
  rintro node ⟨root, hroot, hreaches⟩
  induction hreaches with
  | refl => exact hnodes hroot
  | tail _ hpart ih => exact hclosed _ ih _ hpart

theorem reached_mono {nodes others : Set Node} (hnodes : nodes ⊆ others) :
    reached nodes ⊆ reached others := by
  rintro node ⟨root, hroot, hreaches⟩
  exact ⟨root, hnodes hroot, hreaches⟩

theorem Node.mem_children_of_mem_parts {node part : Node} (hpart : part ∈ node.parts) :
    part ∈ node.kind.children := by
  obtain ⟨id, kind⟩ := node
  cases kind with
  | leaf shape => exact absurd hpart List.not_mem_nil
  | fragment text schema => exact absurd hpart List.not_mem_nil
  | _ => exact hpart

/-- Induction on the nodes whose texts make up the text of a node. -/
@[elab_as_elim]
theorem Node.induction_parts {motive : Node → Prop}
    (step : ∀ node, (∀ part ∈ node.parts, motive part) → motive node) (node : Node) :
    motive node := by
  induction node using Node.induction_of_children with
  | step node ih => exact step node fun part hpart => ih part (mem_children_of_mem_parts hpart)

def Kind.assembled (text : Node → String) : Kind → String
  | .leaf _ => ""
  | .fragment text _ => text
  | .nullable inner => text inner
  | .projection properties options =>
      Groq.projection options
        (properties.map fun property => Groq.field property.1 (text property.2))
  | .collection element narrowing => Groq.collection narrowing element.isStructured (text element)
  | .select branches expansion =>
      Groq.select expansion (branches.map fun branch => (branch.1, text branch.2))

/-- Parts go into the text of a node as their texts, and in no other way. -/
theorem Node.groq_eq_assembled (node : Node) : node.groq = node.kind.assembled groq := by
  obtain ⟨id, kind⟩ := node
  cases kind with
  | projection properties options =>
      exact congrArg (Groq.projection options) (fieldTexts_eq_map properties)
  | select branches expansion =>
      exact congrArg (Groq.select expansion) (branchTexts_eq_map branches)
  | _ => rfl

/-! ## What is remembered -/

theorem Cached.run_remember_of_held {id : Identity} {compute : Cached String} {cache : Cache}
    {text : String} (hheld : cache.get? id = some text) :
    (Cached.remember id compute).run cache = (text, cache) := by
  simp [Cached.remember, hheld]
  rfl

theorem Cached.run_remember_of_missing {id : Identity} {compute : Cached String} {cache : Cache}
    (hmissing : cache.get? id = none) :
    (Cached.remember id compute).run cache =
      ((compute.run cache).1, (compute.run cache).2.insert id (compute.run cache).1) := by
  simp [Cached.remember, hmissing]
  rfl

/-- Every node on the way is looked up under its identity first. -/
theorem Node.groqCached_eq_remember (node : Node) :
    node.groqCached = Cached.remember node.id node.kind.groqCached := by
  cases node
  rfl

section Gives

variable {holds : Cache → Prop} {α β : Type}

/-- From every cache of which the condition holds, the computation gives the value and leaves
such a cache behind. -/
def Cached.Gives (holds : Cache → Prop) (action : Cached α) (value : α) : Prop :=
  ∀ cache : Cache, holds cache → (action.run cache).1 = value ∧ holds (action.run cache).2

theorem Cached.gives_pure (value : α) : Cached.Gives holds (pure value) value :=
  fun _ hcache => ⟨rfl, hcache⟩

theorem Cached.Gives.bind {action : Cached α} {value : α} {next : α → Cached β} {result : β}
    (haction : Cached.Gives holds action value) (hnext : Cached.Gives holds (next value) result) :
    Cached.Gives holds (action >>= next) result := by
  intro cache hcache
  obtain ⟨hvalue, hcache'⟩ := haction cache hcache
  have hrun : (action >>= next).run cache =
      (next (action.run cache).1).run (action.run cache).2 := rfl
  rw [hrun, hvalue]
  exact hnext _ hcache'

/-- A text may be remembered if it is the one that is found, and the one that is computed where
none is found. -/
theorem Cached.Gives.remember {id : Identity} {compute : Cached String} {value : String}
    (hhit : ∀ cache, holds cache → ∀ text, cache.get? id = some text → text = value)
    (hmiss : ∀ cache, holds cache → cache.get? id = none → Cached.Gives holds compute value)
    (hwrite : ∀ cache, holds cache → holds (cache.insert id value)) :
    Cached.Gives holds (Cached.remember id compute) value := by
  intro cache hcache
  cases hget : cache.get? id with
  | some text =>
      rw [Cached.run_remember_of_held hget]
      exact ⟨hhit cache hcache text hget, hcache⟩
  | none =>
      rw [Cached.run_remember_of_missing hget]
      obtain ⟨hvalue, hcache'⟩ := hmiss cache hcache hget cache hcache
      refine ⟨hvalue, ?_⟩
      rw [hvalue]
      exact hwrite _ hcache'

variable {text : Node → String}

theorem gives_fieldTexts {properties : List (String × Node)}
    (hproperties : ∀ property ∈ properties,
      Cached.Gives holds property.2.groqCached (text property.2)) :
    Cached.Gives holds (fieldTextsCached properties)
      (properties.map fun property => Groq.field property.1 (text property.2)) := by
  induction properties with
  | nil => exact Cached.gives_pure []
  | cons property rest ih =>
      obtain ⟨hproperty, hrest⟩ := List.forall_mem_cons.mp hproperties
      exact hproperty.bind ((ih hrest).bind (Cached.gives_pure _))

theorem gives_branchTexts {branches : List (Guard × Node)}
    (hbranches : ∀ branch ∈ branches, Cached.Gives holds branch.2.groqCached (text branch.2)) :
    Cached.Gives holds (branchTextsCached branches)
      (branches.map fun branch => (branch.1, text branch.2)) := by
  induction branches with
  | nil => exact Cached.gives_pure []
  | cons branch rest ih =>
      obtain ⟨hbranch, hrest⟩ := List.forall_mem_cons.mp hbranches
      exact hbranch.bind ((ih hrest).bind (Cached.gives_pure _))

/-- What is computed for a node is put together from what is given for its parts. -/
theorem Node.gives_assembled {node : Node}
    (hparts : ∀ part ∈ node.parts, Cached.Gives holds part.groqCached (text part)) :
    Cached.Gives holds node.kind.groqCached (node.kind.assembled text) := by
  obtain ⟨id, kind⟩ := node
  cases kind with
  | leaf shape => exact Cached.gives_pure _
  | fragment fragment schema => exact Cached.gives_pure _
  | nullable inner => exact hparts inner List.mem_cons_self
  | projection properties options =>
      have hfields := gives_fieldTexts (List.forall_mem_map.mp hparts)
      exact hfields.bind (Cached.gives_pure _)
  | collection element narrowing =>
      exact (hparts element List.mem_cons_self).bind (Cached.gives_pure _)
  | select branches expansion =>
      have htexts := gives_branchTexts (List.forall_mem_map.mp hparts)
      exact htexts.bind (Cached.gives_pure _)

/-- What makes the given texts come out of all caches of which the condition holds. -/
structure Cache.Serves (holds : Cache → Prop) (nodes : Set Node) (text : Node → String) :
    Prop where
  closed : ∀ whole ∈ nodes, ∀ part ∈ whole.parts, part ∈ nodes
  hit : ∀ cache, holds cache → ∀ node ∈ nodes, ∀ held,
    cache.get? node.id = some held → held = text node
  miss : ∀ cache, holds cache → ∀ node ∈ nodes,
    cache.get? node.id = none → text node = node.kind.assembled text
  write : ∀ cache, holds cache → ∀ node ∈ nodes, holds (cache.insert node.id (text node))

/-- Whatever the cache, compiling gives the texts that it serves. -/
theorem Node.gives_text {nodes : Set Node} (hserves : Cache.Serves holds nodes text) (node : Node)
    (hnode : node ∈ nodes) : Cached.Gives holds node.groqCached (text node) := by
  induction node using Node.induction_parts with
  | step node ih =>
      have hparts : ∀ part ∈ node.parts, Cached.Gives holds part.groqCached (text part) :=
        fun part hpart => ih part hpart (hserves.closed node hnode part hpart)
      rw [node.groqCached_eq_remember]
      apply Cached.Gives.remember
      · exact fun cache hcache => hserves.hit cache hcache node hnode
      · intro cache hcache hget
        rw [hserves.miss cache hcache node hnode hget]
        exact Node.gives_assembled hparts
      · exact fun cache hcache => hserves.write cache hcache node hnode

end Gives

end ShapeQuery
