import Mathlib.Data.Set.Insert
import ShapeQuery.Proofs.Assoc
import ShapeQuery.Proofs.Schema.Induction
import ShapeQuery.Schema.Variant

/-!
# Pools of nodes

A pool is what has been built while identities were drawn: nodes together with the nodes they are
made of, each identity standing for one of them.  A new node over nodes of a pool leads to a larger
pool.  Derivations share the parts of a node, shapes mix such parts with new nodes, and typed
unions move variants into branches, but in the end all of them only add new nodes.
-/

namespace ShapeQuery

/-- Equal identities stand for the same node, the identities inside included. -/
def Determined (nodes : Set Node) : Prop :=
  ∀ node ∈ nodes, ∀ other ∈ nodes, node.id = other.id → node = other

/-- The nodes that were built while a number of identities was drawn. -/
structure Pool (nodes : Set Node) (drawn : ℕ) : Prop where
  /-- A node is there together with the nodes it is made of. -/
  closed : ∀ node ∈ nodes, ∀ child ∈ node.kind.children, child ∈ nodes
  determined : Determined nodes
  /-- An identity drawn next is none of those in use. -/
  below : ∀ node ∈ nodes, node.id.serial < drawn

namespace Pool

variable {nodes : Set Node} {drawn : ℕ}

theorem empty (drawn : ℕ) : Pool ∅ drawn := ⟨nofun, nofun, nofun⟩

/-- Identities that are still to be drawn belong to no node of the pool. -/
theorem ne_fresh (hpool : Pool nodes drawn) {node : Node} (hnode : node ∈ nodes) {id : Identity}
    (hid : drawn ≤ id.serial) : node.id ≠ id := by
  intro heq
  have hbelow := hpool.below node hnode
  rw [heq] at hbelow
  exact absurd hid (Nat.not_le.mpr hbelow)

/-- All that occurs in a node of the pool is in the pool. -/
theorem mem_of_within (hpool : Pool nodes drawn) {node whole : Node} (hnode : node.Within whole)
    (hwhole : whole ∈ nodes) : node ∈ nodes :=
  hnode.of_closed hpool.closed hwhole

/-- A content over nodes of the pool may be given the identity drawn next. -/
theorem insert (hpool : Pool nodes drawn) {kind : Kind}
    (hkind : ∀ child ∈ kind.children, child ∈ nodes) :
    Pool (insert (.mk ⟨drawn⟩ kind) nodes) (drawn + 1) := by
  have hfresh : ∀ node ∈ nodes, node.id ≠ ⟨drawn⟩ :=
    fun node hnode => hpool.ne_fresh hnode (Nat.le_refl drawn)
  constructor
  · rintro node (rfl | hnode) child hchild
    · exact Set.mem_insert_of_mem _ (hkind child hchild)
    · exact Set.mem_insert_of_mem _ (hpool.closed node hnode child hchild)
  · rintro node (rfl | hnode) other (rfl | hother) hid
    · rfl
    · exact absurd hid.symm (hfresh other hother)
    · exact absurd hid (hfresh node hnode)
    · exact hpool.determined node hnode other hother hid
  · rintro node (rfl | hnode)
    · exact Nat.lt_succ_self drawn
    · exact Nat.lt_succ_of_lt (hpool.below node hnode)

end Pool

section Extends

variable {nodes : Set Node} {α β : Type} {roots : α → List Node} {roots' : β → List Node}

/-- Over a pool of the nodes the computation leaves a larger pool behind, with all the nodes
that it hands over. -/
def Build.Extends (nodes : Set Node) (roots : α → List Node) (action : Build α) : Prop :=
  ∀ drawn, Pool nodes drawn → ∃ grown, nodes ⊆ grown ∧ Pool grown (action.run drawn).2 ∧
    ∀ root ∈ roots (action.run drawn).1, root ∈ grown

theorem Build.extends_pure {value : α} (hvalue : ∀ root ∈ roots value, root ∈ nodes) :
    Build.Extends nodes roots (pure value) :=
  fun _ hpool => ⟨nodes, Set.Subset.rfl, hpool, hvalue⟩

/-- The second computation works over what the first one leaves. -/
theorem Build.Extends.bind {action : Build α} {next : α → Build β}
    (haction : Build.Extends nodes roots action)
    (hnext : ∀ result grown, nodes ⊆ grown → (∀ root ∈ roots result, root ∈ grown) →
      Build.Extends grown roots' (next result)) :
    Build.Extends nodes roots' (action >>= next) := by
  intro drawn hpool
  obtain ⟨grown, hgrown, hpool', hroots⟩ := haction drawn hpool
  obtain ⟨final, hfinal, hpool'', hroots'⟩ := hnext _ grown hgrown hroots _ hpool'
  exact ⟨final, hgrown.trans hfinal, hpool'', hroots'⟩

/-- The result may be handed over in another form that is made of the same nodes. -/
theorem Build.Extends.map {action : Build α} {change : α → β}
    (haction : Build.Extends nodes roots action)
    (hchange : ∀ result, roots' (change result) = roots result) :
    Build.Extends nodes roots' (change <$> action) := by
  change Build.Extends nodes roots' (action >>= fun result => pure (change result))
  apply haction.bind
  intro result grown _ hroots
  apply Build.extends_pure
  rwa [hchange]

end Extends

section Constructors

variable {nodes : Set Node}

theorem Assoc.snd_mem_of_ofList {α : Type} [BEq α] [LawfulBEq α] {entries : List (α × Node)}
    (hentries : ∀ entry ∈ entries, entry.2 ∈ nodes) :
    ∀ child ∈ (Assoc.ofList entries).map Prod.snd, child ∈ nodes := by
  intro child hchild
  obtain ⟨entry, hentry, rfl⟩ := List.mem_map.mp hchild
  exact hentries entry (Assoc.mem_of_mem_ofList hentry)

/-- A patch leaves the nodes in a content as they are. -/
theorem Kind.children_patched (kind : Kind) (patch : Patch) :
    (kind.patched patch).children = kind.children := by
  cases kind <;> rfl

namespace Node

abbrev alone (node : Node) : List Node := [node]

/-- A content of nodes of the pool gets the next identity. -/
theorem extends_fresh {kind : Kind} (hkind : ∀ child ∈ kind.children, child ∈ nodes) :
    Build.Extends nodes alone (fresh kind) := by
  intro drawn hpool
  refine ⟨_, Set.subset_insert _ nodes, hpool.insert hkind, ?_⟩
  intro root hroot
  exact Set.mem_insert_iff.mpr (.inl (List.mem_singleton.mp hroot))

theorem extends_leaf (shape : Shape) (hshape : ∀ child ∈ shape.children, child ∈ nodes) :
    Build.Extends nodes alone (leaf shape) :=
  extends_fresh hshape

theorem extends_fragment (text : String) {schema : Node}
    (hschema : ∀ child ∈ [schema], child ∈ nodes) :
    Build.Extends nodes alone (fragment text schema) :=
  extends_fresh hschema

theorem extends_projection {properties : List (String × Node)}
    (hproperties : ∀ property ∈ properties, property.2 ∈ nodes) (options : ProjectionOptions) :
    Build.Extends nodes alone (projection properties options) :=
  extends_fresh (Assoc.snd_mem_of_ofList hproperties)

theorem extends_select {branches : List (Guard × Node)}
    (hbranches : ∀ branch ∈ branches, branch.2 ∈ nodes) (expansion : Option Expansion) :
    Build.Extends nodes alone (select branches expansion) :=
  extends_fresh (Assoc.snd_mem_of_ofList hbranches)

theorem extends_derive {node : Node} (hnode : ∀ child ∈ node.kind.children, child ∈ nodes)
    (derivation : Derivation) : Build.Extends nodes alone (node.derive derivation) := by
  apply extends_fresh
  rwa [Kind.children_patched]

/-- A shape is made of parts of the node, and of a new node at most. -/
theorem extends_toShape (hclosed : ∀ node ∈ nodes, ∀ child ∈ node.kind.children, child ∈ nodes)
    {node : Node} (hnode : node ∈ nodes) :
    Build.Extends nodes Shape.children node.toShape := by
  induction node using Node.induction with
  | leaf id shape _ => exact Build.extends_pure (hclosed _ hnode)
  | fragment id text schema ih => exact ih (hclosed _ hnode schema List.mem_cons_self)
  | nullable id inner _ =>
      have hinner : inner ∈ nodes := hclosed _ hnode inner List.mem_cons_self
      apply (extends_leaf .null nofun).bind
      intro null grown hgrown hnull
      apply Build.extends_pure
      exact List.forall_mem_cons.mpr ⟨hgrown hinner, hnull⟩
  | projection id properties options _ => exact Build.extends_pure (hclosed _ hnode)
  | collection id element narrowing _ => exact Build.extends_pure (hclosed _ hnode)
  | select id branches expansion _ => exact Build.extends_pure (hclosed _ hnode)

/-- The data shape of a node is made of nodes of the pool if the node is. -/
theorem extends_field (hclosed : ∀ node ∈ nodes, ∀ child ∈ node.kind.children, child ∈ nodes)
    {schema : Node} (hschema : schema ∈ nodes) : Build.Extends nodes alone schema.field := by
  apply (extends_toShape hclosed hschema).bind
  intro shape grown _ hshape
  exact extends_leaf shape hshape

theorem extends_unknownVariant (nodes : Set Node) :
    Build.Extends nodes alone unknownVariant := by
  apply (extends_leaf .string nofun).bind
  intro string grown hgrown hstring
  apply (extends_fragment "_type" hstring).bind
  intro rawType grown hgrown hrawType
  apply (extends_leaf (.literal (.string "unknown")) nofun).bind
  intro literal grown' hgrown' hliteral
  apply (extends_fragment (Quoted.encode "unknown") hliteral).bind
  intro type grown'' hgrown'' htype
  have hrawType' : rawType ∈ grown'' := hgrown'' (hgrown' (hrawType rawType List.mem_cons_self))
  have htype' : type ∈ grown'' := htype type List.mem_cons_self
  apply extends_projection
  simpa only [List.forall_mem_cons] using ⟨hrawType', htype', nofun⟩

theorem extends_typedUnion {variants : List Variant}
    (hvariants : ∀ variant ∈ variants, variant.node ∈ nodes) (expansion : Option Expansion) :
    Build.Extends nodes alone (typedUnion variants expansion) := by
  apply (extends_unknownVariant nodes).bind
  intro fallback grown hgrown hfallback
  apply extends_select
  rw [List.forall_mem_cons]
  apply And.intro (hfallback fallback List.mem_cons_self)
  intro branch hbranch
  obtain ⟨variant, hvariant, rfl⟩ := List.mem_map.mp hbranch
  exact hgrown (hvariants variant hvariant)

end Node

namespace Variant

theorem extends_ofProperties {properties : List (String × Node)}
    (hproperties : ∀ property ∈ properties, property.2 ∈ nodes) (discriminant : String)
    (options : ProjectionOptions) :
    Build.Extends nodes (fun variant => [variant.node])
      (ofProperties discriminant properties options) := by
  apply (Node.extends_leaf (.literal (.string discriminant)) nofun).bind
  intro type grown hgrown htype
  refine Build.Extends.map (Node.extends_projection ?_ options) fun _ => rfl
  rw [List.forall_mem_cons]
  apply And.intro (htype type List.mem_cons_self)
  intro property hproperty
  exact hgrown (hproperties property (List.mem_filter.mp hproperty).1)

theorem extends_expanded {variant : Variant}
    (hvariant : ∀ child ∈ variant.node.kind.children, child ∈ nodes) (expansion : Expansion) :
    Build.Extends nodes (fun variant => [variant.node]) (variant.expanded expansion) :=
  Build.Extends.map (Node.extends_derive hvariant (.expand expansion)) fun _ => rfl

end Variant

end Constructors

end ShapeQuery
