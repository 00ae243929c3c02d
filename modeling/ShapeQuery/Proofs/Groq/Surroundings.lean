import ShapeQuery.Proofs.Groq.CompiledTexts
import ShapeQuery.Proofs.Schema.Content
import ShapeQuery.Proofs.Schema.Contexts

/-!
# Nodes in their surroundings

The text of a node depends on its parts only by their texts and by whether they are structured.  So
nodes that agree in both may stand for each other wherever they occur.  A node that may be null
agrees with the node itself, and the wrapper that says so can be put in and taken out anywhere.
-/

namespace ShapeQuery

/-- Nodes that look the same to the nodes around them. -/
structure Node.LooksLike (node other : Node) : Prop where
  groq : node.groq = other.groq
  structured : node.isStructured = other.isStructured

namespace Node.LooksLike

variable {node other third : Node}

theorem refl (node : Node) : node.LooksLike node := ⟨rfl, rfl⟩

theorem symm (hnodes : node.LooksLike other) : other.LooksLike node :=
  ⟨hnodes.groq.symm, hnodes.structured.symm⟩

theorem trans (hnodes : node.LooksLike other) (hothers : other.LooksLike third) :
    node.LooksLike third :=
  ⟨hnodes.groq.trans hothers.groq, hnodes.structured.trans hothers.structured⟩

/-- The text around a node takes in its text and whether it is structured. -/
theorem assembled_framed (hnodes : node.LooksLike other) (frame : Frame) :
    (frame.fill node).assembled Node.groq = (frame.fill other).assembled Node.groq := by
  cases frame with
  | nullable => exact hnodes.groq
  | property before key after options =>
      simp only [Frame.fill, Kind.assembled, List.map_append, List.map_cons, hnodes.groq]
  | element narrowing =>
      simp only [Frame.fill, Kind.assembled, hnodes.groq, hnodes.structured]
  | branch before guard after expansion =>
      simp only [Frame.fill, Kind.assembled, List.map_append, List.map_cons, hnodes.groq]
  | _ => rfl

theorem framed (hnodes : node.LooksLike other) (id : Identity) (frame : Frame) :
    (Node.mk id (frame.fill node)).LooksLike (Node.mk id (frame.fill other)) := by
  constructor
  · rw [Node.groq_eq_assembled, Node.groq_eq_assembled]
    exact hnodes.assembled_framed frame
  · exact frame.isStructured_fill id hnodes.structured

/-- Nodes that look the same look the same in every place of a tree. -/
theorem fill (hnodes : node.LooksLike other) (context : Context) :
    (context.fill node).LooksLike (context.fill other) :=
  context.fill_related (fun id frame _ _ hnodes => hnodes.framed id frame) hnodes

/-- A wrapper for null is not seen from outside. -/
theorem nullable (id : Identity) (inner : Node) : inner.LooksLike (.mk id (.nullable inner)) :=
  ⟨rfl, rfl⟩

theorem of_content_eq (hcontent : node.content = other.content) : node.LooksLike other := by
  constructor
  · exact Node.groq_eq_of_content_eq hcontent
  · rw [← node.isStructured_content, hcontent, other.isStructured_content]

end Node.LooksLike

/-- One change to a tree of nodes: a wrapper for null is put in somewhere or taken out, or the tree
is built anew with other identities. -/
inductive Node.Rewrapped : Node → Node → Prop where
  | wrapped (context : Context) (id : Identity) (inner : Node) :
      Rewrapped (context.fill inner) (context.fill (.mk id (.nullable inner)))
  | unwrapped (context : Context) (id : Identity) (inner : Node) :
      Rewrapped (context.fill (.mk id (.nullable inner))) (context.fill inner)
  | rebuilt {node other : Node} : node.content = other.content → Rewrapped node other

/-- One change to wrappers or identities does not show. -/
theorem Node.Rewrapped.looksLike {node other : Node} (hchange : node.Rewrapped other) :
    node.LooksLike other := by
  cases hchange with
  | wrapped context id inner => exact (LooksLike.nullable id inner).fill context
  | unwrapped context id inner => exact ((LooksLike.nullable id inner).fill context).symm
  | rebuilt hcontent => exact .of_content_eq hcontent

/-- Nor does any number of them. -/
theorem Node.LooksLike.of_changes {node other : Node}
    (hchanges : Relation.ReflTransGen Node.Rewrapped node other) : node.LooksLike other := by
  induction hchanges with
  | refl => exact .refl node
  | tail _ hchange ih => exact ih.trans hchange.looksLike

/-- Nodes with the same text that are structured alike have the same text in any surroundings.  So
no number of wrappers for null, wherever they are put in or taken out, changes a query. -/
theorem Context.groq_fill_congr :
    (∀ (context : Context) (node other : Node), node.groq = other.groq →
      node.isStructured = other.isStructured →
      (context.fill node).groq = (context.fill other).groq ∧
        (context.fill node).isStructured = (context.fill other).isStructured) ∧
    (∀ node other : Node, Relation.ReflTransGen Node.Rewrapped node other →
      node.groq = other.groq ∧ node.isStructured = other.isStructured) := by
  constructor
  · intro context node other hgroq hstructured
    have hnodes := (Node.LooksLike.mk hgroq hstructured).fill context
    exact ⟨hnodes.groq, hnodes.structured⟩
  · intro node other hchanges
    have hnodes := Node.LooksLike.of_changes hchanges
    exact ⟨hnodes.groq, hnodes.structured⟩

/-- A piece of query text stands for a projection among the elements of a collection; and two nodes
of the same tree become nullable. -/
theorem Context.groq_fill_congr_cast :
    let name := Node.mk ⟨0⟩ (.leaf .string)
    let person := Node.mk ⟨1⟩ (.projection [("name", name)] .none)
    let written := Node.mk ⟨2⟩ (.fragment "\x7bname\x7d" (.mk ⟨3⟩ (.leaf (.object []))))
    let context := Context.framed ⟨4⟩ (.property [("title", name)] "cast" [] .none)
      (.framed ⟨5⟩ (.element .none) .hole)
    let cast := Node.mk ⟨5⟩ (.collection (.mk ⟨6⟩ (.nullable person)) .none)
    let movie := Node.mk ⟨4⟩ (.projection [("title", .mk ⟨7⟩ (.nullable name)), ("cast", cast)]
      .none)
    (person.groq = written.groq ∧ person.isStructured = written.isStructured ∧
      Relation.ReflTransGen Node.Rewrapped (context.fill person) movie) ∧
      (context.fill person).groq = (context.fill written).groq ∧
      (context.fill person).groq = movie.groq := by
  intro name person written context cast movie
  have hgroq : person.groq = written.groq := rfl
  have hstructured : person.isStructured = written.isStructured := rfl
  have hchanges : Relation.ReflTransGen Node.Rewrapped (context.fill person) movie :=
    .tail (.single (.wrapped context ⟨6⟩ person))
      (.wrapped (.framed ⟨4⟩ (.property [] "title" [("cast", cast)] .none) .hole) ⟨7⟩ name)
  obtain ⟨hfill, hwrappers⟩ := Context.groq_fill_congr
  exact ⟨⟨hgroq, hstructured, hchanges⟩, (hfill context person written hgroq hstructured).1,
    (hwrappers _ _ hchanges).1⟩

end ShapeQuery
