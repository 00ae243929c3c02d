import ShapeQuery.Proofs.Schema.Induction

/-!
# Nodes with a hole

A frame is a content with one of the nodes that it is made of left out.  A context is what is left
of a node when a node that occurs in it, at whatever depth, is taken out.  What one frame keeps, a
context keeps.
-/

namespace ShapeQuery

/-- A content with one of its nodes left out. -/
inductive Frame where
  /-- An attribute of a plain object. -/
  | field (before : List (String × Node)) (key : String) (after : List (String × Node))
  /-- The values of a record. -/
  | value
  /-- The items of an array. -/
  | item
  /-- A member of a plain union. -/
  | member (before after : List Node)
  | fragment (text : String)
  | nullable
  /-- A property of a projection. -/
  | property (before : List (String × Node)) (key : String) (after : List (String × Node))
      (options : ProjectionOptions)
  /-- The elements of a collection. -/
  | element (narrowing : Narrowing)
  /-- The node of a branch. -/
  | branch (before : List (Guard × Node)) (guard : Guard) (after : List (Guard × Node))
      (expansion : Option Expansion)

def Frame.fill (frame : Frame) (node : Node) : Kind :=
  match frame with
  | .field before key after => .leaf (.object (before ++ (key, node) :: after))
  | .value => .leaf (.record node)
  | .item => .leaf (.array node)
  | .member before after => .leaf (.union (before ++ node :: after))
  | .fragment text => .fragment text node
  | .nullable => .nullable node
  | .property before key after options => .projection (before ++ (key, node) :: after) options
  | .element narrowing => .collection node narrowing
  | .branch before guard after expansion => .select (before ++ (guard, node) :: after) expansion

/-- A node with a hole in it: nothing but the hole, or a frame around a node with a hole. -/
inductive Context where
  | hole
  | framed (id : Identity) (frame : Frame) (inner : Context)

def Context.fill : Context → Node → Node
  | .hole, node => node
  | .framed id frame inner, node => .mk id (frame.fill (inner.fill node))

variable {node whole : Node}

theorem exists_append_of_mem_map_snd {α : Type} {entries : List (α × Node)}
    (hnode : node ∈ entries.map Prod.snd) :
    ∃ before key after, entries = before ++ (key, node) :: after := by
  obtain ⟨⟨key, other⟩, hentry, rfl⟩ := List.mem_map.mp hnode
  obtain ⟨before, after, hentries⟩ := List.append_of_mem hentry
  exact ⟨before, key, after, hentries⟩

theorem Shape.exists_fill_of_mem_children {shape : Shape} (hnode : node ∈ shape.children) :
    ∃ frame : Frame, Kind.leaf shape = frame.fill node := by
  cases shape with
  | object properties =>
      obtain ⟨before, key, after, rfl⟩ := exists_append_of_mem_map_snd hnode
      exact ⟨.field before key after, rfl⟩
  | record value =>
      obtain rfl := List.mem_singleton.mp hnode
      exact ⟨.value, rfl⟩
  | array item =>
      obtain rfl := List.mem_singleton.mp hnode
      exact ⟨.item, rfl⟩
  | union members =>
      have hmember : node ∈ members := hnode
      obtain ⟨before, after, rfl⟩ := List.append_of_mem hmember
      exact ⟨.member before after, rfl⟩
  | _ => exact absurd hnode List.not_mem_nil

/-- The children of a content are the nodes that frames leave out. -/
theorem Kind.mem_children_iff {kind : Kind} :
    node ∈ kind.children ↔ ∃ frame : Frame, kind = frame.fill node := by
  constructor
  · intro hnode
    cases kind with
    | leaf shape => exact shape.exists_fill_of_mem_children hnode
    | fragment text schema =>
        obtain rfl := List.mem_singleton.mp hnode
        exact ⟨.fragment text, rfl⟩
    | nullable inner =>
        obtain rfl := List.mem_singleton.mp hnode
        exact ⟨.nullable, rfl⟩
    | projection properties options =>
        obtain ⟨before, key, after, rfl⟩ := exists_append_of_mem_map_snd hnode
        exact ⟨.property before key after options, rfl⟩
    | collection element narrowing =>
        obtain rfl := List.mem_singleton.mp hnode
        exact ⟨.element narrowing, rfl⟩
    | select branches expansion =>
        obtain ⟨before, guard, after, rfl⟩ := exists_append_of_mem_map_snd hnode
        exact ⟨.branch before guard after expansion, rfl⟩
  · rintro ⟨frame, rfl⟩
    cases frame <;> simp [Frame.fill, Kind.children, Shape.children]

/-- The contexts of a node are all the places that nodes have in it. -/
theorem Node.within_iff_exists_fill :
    node.Within whole ↔ ∃ context : Context, whole = context.fill node := by
  constructor
  · intro hnode
    induction hnode with
    | refl => exact ⟨.hole, rfl⟩
    | @child whole child hchild _ ih =>
        obtain ⟨context, rfl⟩ := ih
        obtain ⟨id, kind⟩ := whole
        obtain ⟨frame, hkind⟩ := Kind.mem_children_iff.mp hchild
        exact ⟨.framed id frame context, congrArg (mk id) hkind⟩
  · rintro ⟨context, rfl⟩
    induction context with
    | hole => exact .refl
    | framed id frame inner ih => exact .child (Kind.mem_children_iff.mpr ⟨frame, rfl⟩) ih

/-- What holds of two nodes holds of all that they are put into, if frames keep it. -/
theorem Context.fill_related {related : Node → Node → Prop}
    (hframe : ∀ id (frame : Frame) node other, related node other →
      related (.mk id (frame.fill node)) (.mk id (frame.fill other)))
    (context : Context) {node other : Node} (hnodes : related node other) :
    related (context.fill node) (context.fill other) := by
  induction context with
  | hole => exact hnodes
  | framed id frame inner ih => exact hframe id frame _ _ ih

theorem Frame.isStructured_fill (id : Identity) (frame : Frame) {node other : Node}
    (hstructured : node.isStructured = other.isStructured) :
    (Node.mk id (frame.fill node)).isStructured = (Node.mk id (frame.fill other)).isStructured := by
  cases frame with
  | fragment text => exact hstructured
  | nullable => exact hstructured
  | _ => rfl

end ShapeQuery
