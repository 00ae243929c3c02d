import ShapeQuery.Proofs.Schema.Pools

/-!
# Programs that build nodes

A program is handed nodes, shapes and variants, one after another, and builds with what exists.
All that exists comes out of one pool, so an identity stands for one node throughout, and the node
that a step builds has an identity that was not there before.  Only copies of a node and the node
of a variant come with the identity that they have.
-/

namespace ShapeQuery

/-- What a step of a program hands to it. -/
inductive Product where
  | node (node : Node)
  | shape (shape : Shape)
  | variant (variant : Variant)

namespace Product

def roots : Product → List Node
  | .node root => [root]
  | .shape result => result.children
  | .variant result => [result.node]

def node? : Product → Option Node
  | .node root => some root
  | .shape _ => none
  | .variant result => some result.node

end Product

inductive Construction where
  | content (kind : Kind)
  | leaf (shape : Shape)
  | object (properties : List (String × Node))
  | projection (properties : List (String × Node)) (options : ProjectionOptions)
  | collection (element : Node) (narrowing : Narrowing)
  | select (branches : List (Guard × Node)) (expansion : Option Expansion)
  | fragment (text : String) (schema : Node)
  | renamed (target : String) (schema : Node)
  | nullable (inner : Node)
  | rebuilt (node : Node)
  | field (schema : Node)
  | derived (node : Node) (derivation : Derivation)
  | typedUnion (variants : List Variant) (expansion : Option Expansion)
  | typed (discriminant : String) (properties : List (String × Node))
      (options : ProjectionOptions)
  | expanded (variant : Variant) (expansion : Expansion)
  /-- The data shape of a node, to build with. -/
  | shapeOf (node : Node)
  /-- The same node once more. -/
  | copied (node : Node)
  /-- The node of a variant. -/
  | ofVariant (variant : Variant)

namespace Construction

def build : Construction → Build Product
  | .content kind => .node <$> Node.fresh kind
  | .leaf shape => .node <$> Node.leaf shape
  | .object properties => .node <$> Node.object properties
  | .projection properties options => .node <$> Node.projection properties options
  | .collection element narrowing => .node <$> Node.collection element narrowing
  | .select branches expansion => .node <$> Node.select branches expansion
  | .fragment text schema => .node <$> Node.fragment text schema
  | .renamed target schema => .node <$> Node.renamed target schema
  | .nullable inner => .node <$> Node.nullable inner
  | .rebuilt node => .node <$> node.rebuilt
  | .field schema => .node <$> schema.field
  | .derived node derivation => .node <$> node.derive derivation
  | .typedUnion variants expansion => .node <$> Node.typedUnion variants expansion
  | .typed discriminant properties options =>
      .variant <$> Variant.ofProperties discriminant properties options
  | .expanded variant expansion => .variant <$> variant.expanded expansion
  | .shapeOf node => .shape <$> node.toShape
  | .copied node => return .node node
  | .ofVariant variant => return .node variant.node

def nodes : Construction → List Node
  | .content kind => kind.children
  | .leaf shape => shape.children
  | .object properties | .projection properties _ | .typed _ properties _ =>
      properties.map Prod.snd
  | .select branches _ => branches.map Prod.snd
  | .collection node _ | .fragment _ node | .renamed _ node | .nullable node | .rebuilt node
  | .field node | .derived node _ | .shapeOf node | .copied node => [node]
  | .typedUnion _ _ | .expanded _ _ | .ofVariant _ => []

def variants : Construction → List Variant
  | .typedUnion variants _ => variants
  | .expanded variant _ | .ofVariant variant => [variant]
  | _ => []

variable {nodes : Set Node}

/-- Every step builds on the nodes that it is given. -/
theorem extends_build (hclosed : ∀ node ∈ nodes, ∀ child ∈ node.kind.children, child ∈ nodes)
    {step : Construction} (hnodes : ∀ node ∈ step.nodes, node ∈ nodes)
    (hvariants : ∀ variant ∈ step.variants, variant.node ∈ nodes) :
    Build.Extends nodes Product.roots step.build := by
  have hnode {action : Build Node} (haction : Build.Extends nodes Node.alone action) :
      Build.Extends nodes Product.roots (Product.node <$> action) :=
    haction.map fun _ => rfl
  cases step with
  | content kind => exact hnode (Node.extends_fresh hnodes)
  | leaf shape => exact hnode (Node.extends_fresh hnodes)
  | object properties =>
      have hproperties := List.forall_mem_map.mp hnodes
      exact hnode (Node.extends_fresh (Assoc.snd_mem_of_ofList hproperties))
  | projection properties options =>
      exact hnode (Node.extends_projection (List.forall_mem_map.mp hnodes) options)
  | collection element narrowing => exact hnode (Node.extends_fresh hnodes)
  | select branches expansion =>
      exact hnode (Node.extends_select (List.forall_mem_map.mp hnodes) expansion)
  | fragment text schema => exact hnode (Node.extends_fresh hnodes)
  | renamed target schema => exact hnode (Node.extends_fresh hnodes)
  | nullable inner => exact hnode (Node.extends_fresh hnodes)
  | rebuilt node =>
      have hmem : node ∈ nodes := hnodes node List.mem_cons_self
      exact hnode (Node.extends_fresh (hclosed node hmem))
  | field schema => exact hnode (Node.extends_field hclosed (hnodes schema List.mem_cons_self))
  | derived node derivation =>
      have hmem : node ∈ nodes := hnodes node List.mem_cons_self
      exact hnode (Node.extends_derive (hclosed node hmem) derivation)
  | typedUnion variants expansion => exact hnode (Node.extends_typedUnion hvariants expansion)
  | typed discriminant properties options =>
      have hproperties := List.forall_mem_map.mp hnodes
      exact (Variant.extends_ofProperties hproperties discriminant options).map fun _ => rfl
  | expanded variant expansion =>
      have hmem : variant.node ∈ nodes := hvariants variant List.mem_cons_self
      exact (Variant.extends_expanded (hclosed _ hmem) expansion).map fun _ => rfl
  | shapeOf node =>
      exact (Node.extends_toShape hclosed (hnodes node List.mem_cons_self)).map fun _ => rfl
  | copied node => exact Build.extends_pure hnodes
  | ofVariant variant =>
      apply Build.extends_pure
      exact List.forall_mem_singleton.mpr (hvariants variant List.mem_cons_self)

/-- The existing node that the step hands over once more. -/
def source? : Construction → Option Node
  | .copied node => some node
  | .ofVariant variant => some variant.node
  | _ => none

theorem drawn_le_toShape (node : Node) (drawn : ℕ) : drawn ≤ (node.toShape.run drawn).2 := by
  induction node using Node.induction with
  | fragment id text schema ih => exact ih
  | nullable id inner _ => exact Nat.le_succ drawn
  | leaf | projection | collection | select => exact Nat.le_refl drawn

/-- A step that does not hand over an existing node draws an identity for the one it builds. -/
theorem drawn_le_build {step : Construction} (hstep : step.source? = none) {drawn : ℕ} {node : Node}
    (hnode : (step.build.run drawn).1.node? = some node) : drawn ≤ node.id.serial := by
  cases step with
  | copied node => exact absurd hstep (Option.some_ne_none node)
  | ofVariant variant => exact absurd hstep (Option.some_ne_none variant.node)
  | shapeOf node => exact absurd hnode.symm (Option.some_ne_none _)
  | field schema =>
      obtain rfl := Option.some.inj hnode
      exact drawn_le_toShape schema drawn
  | typed discriminant properties options =>
      obtain rfl := Option.some.inj hnode
      exact Nat.le_succ drawn
  | typedUnion variants expansion =>
      obtain rfl := Option.some.inj hnode
      exact Nat.le_add_right drawn 5
  | _ =>
      obtain rfl := Option.some.inj hnode
      exact Nat.le_refl drawn

end Construction

/-- A program at work: what it was handed so far, and the number of identities drawn. -/
structure Workshop where
  products : List Product
  drawn : ℕ

namespace Workshop

variable {workshop : Workshop}

def start (drawn : ℕ) : Workshop := ⟨[], drawn⟩

def handed (workshop : Workshop) (construction : Construction) : Product :=
  (construction.build.run workshop.drawn).1

def step (workshop : Workshop) (construction : Construction) : Workshop :=
  ⟨workshop.handed construction :: workshop.products, (construction.build.run workshop.drawn).2⟩

def after (workshop : Workshop) (steps : List Construction) : Workshop :=
  steps.foldl step workshop

/-- The nodes that exist: they were handed over, or occur in what was. -/
def Has (workshop : Workshop) (node : Node) : Prop :=
  ∃ product ∈ workshop.products, ∃ root ∈ product.roots, node.Within root

theorem has_of_mem {node : Node} (hnode : .node node ∈ workshop.products) : workshop.Has node :=
  ⟨_, hnode, node, List.mem_cons_self, .refl⟩

/-- A step builds with existing nodes, and with variants that were handed over. -/
def Permits (workshop : Workshop) (construction : Construction) : Prop :=
  (∀ node ∈ construction.nodes, workshop.Has node) ∧
    ∀ variant ∈ construction.variants, .variant variant ∈ workshop.products

def PermitsAll (workshop : Workshop) : List Construction → Prop
  | [] => True
  | construction :: rest =>
      workshop.Permits construction ∧ (workshop.step construction).PermitsAll rest

/-- A step that hands over an existing node hands over that very node.  The node that any other
step builds has an identity that no existing node has. -/
def Identifies (workshop : Workshop) (construction : Construction) : Prop :=
  match construction.source? with
  | some node => workshop.handed construction = .node node
  | none => ∀ node, (workshop.handed construction).node? = some node →
      ∀ other, workshop.Has other → other.id ≠ node.id

/-- The invariant of programs: all they were handed comes out of one pool. -/
def Pooled (workshop : Workshop) : Prop :=
  ∃ nodes, Pool nodes workshop.drawn ∧
    ∀ product ∈ workshop.products, ∀ root ∈ product.roots, root ∈ nodes

/-- What exists is in every pool that has the products. -/
theorem mem_of_has {nodes : Set Node} (hpool : Pool nodes workshop.drawn)
    (hproducts : ∀ product ∈ workshop.products, ∀ root ∈ product.roots, root ∈ nodes)
    {node : Node} (hnode : workshop.Has node) : node ∈ nodes := by
  obtain ⟨product, hproduct, root, hroot, hwithin⟩ := hnode
  exact hpool.mem_of_within hwithin (hproducts product hproduct root hroot)

theorem Pooled.determined (hworkshop : workshop.Pooled) :
    Determined { node | workshop.Has node } := by
  obtain ⟨nodes, hpool, hproducts⟩ := hworkshop
  intro node hnode other hother hid
  have hnode' := mem_of_has hpool hproducts hnode
  have hother' := mem_of_has hpool hproducts hother
  exact hpool.determined node hnode' other hother' hid

/-- A step that does not hand over an old node draws the identity of its node. -/
theorem Pooled.identifies (hworkshop : workshop.Pooled) (construction : Construction) :
    workshop.Identifies construction := by
  obtain ⟨nodes, hpool, hproducts⟩ := hworkshop
  unfold Identifies
  cases hsource : construction.source? with
  | none =>
      intro node hnode other hother
      have hfresh : workshop.drawn ≤ node.id.serial := Construction.drawn_le_build hsource hnode
      exact hpool.ne_fresh (mem_of_has hpool hproducts hother) hfresh
  | some node =>
      cases construction with
      | copied source => exact congrArg Product.node (Option.some.inj hsource)
      | ofVariant variant => exact congrArg Product.node (Option.some.inj hsource)
      | _ => exact absurd hsource.symm (Option.some_ne_none node)

/-- A permitted step stays within a pool. -/
theorem Pooled.step (hworkshop : workshop.Pooled) {construction : Construction}
    (hpermits : workshop.Permits construction) : (workshop.step construction).Pooled := by
  obtain ⟨nodes, hpool, hproducts⟩ := hworkshop
  obtain ⟨hnodes, hvariants⟩ := hpermits
  have hextends : Build.Extends nodes Product.roots construction.build := by
    apply Construction.extends_build hpool.closed
    · exact fun node hnode => mem_of_has hpool hproducts (hnodes node hnode)
    · exact fun variant hvariant =>
        hproducts _ (hvariants variant hvariant) variant.node List.mem_cons_self
  obtain ⟨grown, hgrown, hpool', hroots⟩ := hextends workshop.drawn hpool
  refine ⟨grown, hpool', List.forall_mem_cons.mpr ⟨hroots, ?_⟩⟩
  exact fun product hproduct root hroot => hgrown (hproducts product hproduct root hroot)

/-- So does any number of permitted steps. -/
theorem Pooled.after (hworkshop : workshop.Pooled) {steps : List Construction}
    (hsteps : workshop.PermitsAll steps) : (workshop.after steps).Pooled := by
  induction steps generalizing workshop with
  | nil => exact hworkshop
  | cons construction rest ih => exact ih (hworkshop.step hsteps.1) hsteps.2

theorem permitsAll_append {before rest : List Construction}
    (hsteps : workshop.PermitsAll (before ++ rest)) : workshop.PermitsAll before := by
  induction before generalizing workshop with
  | nil => trivial
  | cons construction before ih => exact ⟨hsteps.1, ih hsteps.2⟩

theorem pooled_start (drawn : ℕ) : (start drawn).Pooled := ⟨∅, Pool.empty drawn, nofun⟩

/-- Whatever a program builds, an identity stands for one node together with all that is in it,
and every node that is built gets an identity that no node had before. -/
theorem identity_determines_node {drawn : ℕ} {steps : List Construction}
    (hsteps : (start drawn).PermitsAll steps) :
    (∀ node other, ((start drawn).after steps).Has node → ((start drawn).after steps).Has other →
      node.id = other.id → node = other) ∧
    ∀ before construction rest, steps = before ++ construction :: rest →
      ((start drawn).after before).Identifies construction := by
  constructor
  · intro node other hnode hother
    have hpooled := (pooled_start drawn).after hsteps
    exact hpooled.determined node hnode other hother
  · rintro before construction rest rfl
    have hpooled := (pooled_start drawn).after (permitsAll_append hsteps)
    exact hpooled.identifies construction

/-- A person that is handed over by itself and occurs in a shape and in a typed union, and from
which another person is derived in the end. -/
theorem identity_determines_shared_person :
    let name := Node.mk ⟨0⟩ (.leaf .string)
    let person := Node.mk ⟨1⟩ (.projection [("name", name)] .none)
    let optional := Node.mk ⟨2⟩ (.nullable person)
    let shape := Shape.union [person, .mk ⟨3⟩ (.leaf .null)]
    let movie := ((Variant.ofProperties "movie" [("director", person)]).run 5).1
    let before := [.leaf .string, .projection [("name", name)] .none, .nullable person,
      .shapeOf optional, .leaf shape, .typed "movie" [("director", person)] .none,
      .typedUnion [movie] none]
    let steps := before ++ [.derived person .spread]
    (start 0).PermitsAll steps ∧
    (∀ node, ((start 0).after steps).Has node → node.id = person.id → node = person) ∧
    ∀ other, ((start 0).after before).Has other → other.id ≠ ⟨13⟩ := by
  intro name person optional shape movie before steps
  have hshape : ∀ child ∈ shape.children, ((start 0).after (before.take 4)).Has child :=
    fun child hchild => ⟨_, .head _, child, hchild, .refl⟩
  have hsteps : (start 0).PermitsAll steps :=
    ⟨⟨nofun, nofun⟩,
      ⟨List.forall_mem_singleton.mpr (has_of_mem (.head _)), nofun⟩,
      ⟨List.forall_mem_singleton.mpr (has_of_mem (.head _)), nofun⟩,
      ⟨List.forall_mem_singleton.mpr (has_of_mem (.head _)), nofun⟩,
      ⟨hshape, nofun⟩,
      ⟨List.forall_mem_singleton.mpr (has_of_mem (.tail _ (.tail _ (.tail _ (.head _))))), nofun⟩,
      ⟨nofun, List.forall_mem_singleton.mpr (.head _)⟩,
      ⟨List.forall_mem_singleton.mpr
        (has_of_mem (.tail _ (.tail _ (.tail _ (.tail _ (.tail _ (.head _))))))), nofun⟩,
      trivial⟩
  have hperson : ((start 0).after steps).Has person :=
    has_of_mem (.tail _ (.tail _ (.tail _ (.tail _ (.tail _ (.tail _ (.head _)))))))
  obtain ⟨hdetermined, hidentifies⟩ := identity_determines_node hsteps
  refine ⟨hsteps, ?_, ?_⟩
  · intro node hnode hid
    exact hdetermined node person hnode hperson hid
  · exact hidentifies before (.derived person .spread) [] rfl _ rfl

end Workshop

end ShapeQuery
