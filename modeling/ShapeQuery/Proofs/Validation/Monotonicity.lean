import ShapeQuery.Proofs.Schema.Contexts
import ShapeQuery.Proofs.Validation.Acceptance

/-!
# Wider schemas

A schema that accepts more makes every schema around it accept more, as long as it is structured
like the one it stands for: the keys of collection elements are looked at only where the elements
are structured.  So a part of a schema may be made nullable, or a union be given another member,
without turning down what was accepted before.
-/

namespace ShapeQuery

/-- A schema that is structured like another one and accepts all that the other one accepts. -/
structure Node.Covers (wide narrow : Node) : Prop where
  structured : wide.isStructured = narrow.isStructured
  accepts : ∀ value, narrow.Accepts value → wide.Accepts value

section Entries

variable {α : Type} {p : α → Prop} {before after : List α} {entry : α}

theorem forall_mem_append_cons_iff :
    (∀ other ∈ before ++ entry :: after, p other) ↔
      p entry ∧ ∀ other ∈ before ++ after, p other := by
  rw [List.forall_mem_append, List.forall_mem_cons, List.forall_mem_append, and_left_comm]

theorem exists_mem_append_cons_iff :
    (∃ other ∈ before ++ entry :: after, p other) ↔
      p entry ∨ ∃ other ∈ before ++ after, p other := by
  simp only [List.mem_append, List.mem_cons, or_and_right, exists_or, exists_eq_left,
    or_left_comm]

end Entries

namespace Node

variable {wide narrow : Node}

/-- In the place of a schema that it covers, a schema accepts what was accepted before.  An
attribute that is missing counts as null there too. -/
theorem Covers.accepts_framed (hcovers : wide.Covers narrow) (id : Identity) (frame : Frame)
    (value : Json) (haccepts : (Node.mk id (frame.fill narrow)).Accepts value) :
    (Node.mk id (frame.fill wide)).Accepts value := by
  cases frame with
  | field before key after =>
      simp only [Frame.fill, accepts_object, forall_mem_append_cons_iff] at haccepts ⊢
      obtain ⟨fields, rfl, hfield, hothers⟩ := haccepts
      exact ⟨fields, rfl, hcovers.accepts _ hfield, hothers⟩
  | value =>
      simp only [Frame.fill, accepts_record] at haccepts ⊢
      obtain ⟨fields, rfl, hfields⟩ := haccepts
      exact ⟨fields, rfl, fun field hfield => hcovers.accepts _ (hfields field hfield)⟩
  | item =>
      simp only [Frame.fill, accepts_array] at haccepts ⊢
      obtain ⟨items, rfl, hitems⟩ := haccepts
      exact ⟨items, rfl, fun item hitem => hcovers.accepts _ (hitems item hitem)⟩
  | member before after =>
      simp only [Frame.fill, accepts_union, exists_mem_append_cons_iff] at haccepts ⊢
      exact haccepts.imp_left (hcovers.accepts value)
  | fragment text => exact hcovers.accepts value haccepts
  | nullable =>
      simp only [Frame.fill, accepts_nullable] at haccepts ⊢
      exact haccepts.imp_right (hcovers.accepts value)
  | property before key after options =>
      simp only [Frame.fill, accepts_projection, forall_mem_append_cons_iff] at haccepts ⊢
      obtain ⟨fields, rfl, hfield, hothers⟩ := haccepts
      exact ⟨fields, rfl, hcovers.accepts _ hfield, hothers⟩
  | element narrowing =>
      simp only [Frame.fill, accepts_collection, hcovers.structured] at haccepts ⊢
      obtain ⟨items, rfl, hitems⟩ := haccepts
      exact ⟨items, rfl, fun item hitem => (hitems item hitem).imp_left (hcovers.accepts item)⟩
  | branch before guard after expansion =>
      simp only [Frame.fill, accepts_select, exists_mem_append_cons_iff] at haccepts ⊢
      exact haccepts.imp_left (hcovers.accepts value)

/-- What a schema covers is covered in any surroundings. -/
theorem Covers.fill (hcovers : wide.Covers narrow) (context : Context) :
    (context.fill wide).Covers (context.fill narrow) := by
  refine context.fill_related (fun id frame wide narrow hcovers => ⟨?_, ?_⟩) hcovers
  · exact frame.isStructured_fill id hcovers.structured
  · exact hcovers.accepts_framed id frame

/-- A wrapper for null accepts one value more. -/
theorem covers_nullable (id : Identity) (inner : Node) :
    (mk id (.nullable inner)).Covers inner :=
  ⟨rfl, fun value haccepts => (accepts_nullable id inner value).mpr (.inr haccepts)⟩

/-- A further member takes nothing away from a union. -/
theorem covers_union (id id' : Identity) (before : List Node) (member : Node)
    (after : List Node) :
    (mk id' (.leaf (.union (before ++ member :: after)))).Covers
      (mk id (.leaf (.union (before ++ after)))) := by
  refine ⟨rfl, fun value haccepts => ?_⟩
  rw [accepts_union] at haccepts ⊢
  exact exists_mem_append_cons_iff.mpr (.inr haccepts)

theorem covers_select (id id' : Identity) (before : List (Guard × Node)) (branch : Guard × Node)
    (after : List (Guard × Node)) (expansion : Option Expansion) :
    (mk id' (.select (before ++ branch :: after) expansion)).Covers
      (mk id (.select (before ++ after) expansion)) := by
  refine ⟨rfl, fun value haccepts => ?_⟩
  rw [accepts_select] at haccepts ⊢
  exact exists_mem_append_cons_iff.mpr (.inr haccepts)

end Node

/-- A schema in any surroundings may be replaced by one that is structured like it and accepts
more: nothing that was accepted before is turned down.  This is so in particular where a schema is
made nullable, and where a union is given one more member or branch. -/
theorem Context.accepts_fill_monotone (context : Context) :
    (∀ wide narrow : Node, wide.isStructured = narrow.isStructured →
      (∀ value, narrow.Accepts value → wide.Accepts value) →
      ∀ value, (context.fill narrow).Accepts value → (context.fill wide).Accepts value) ∧
    (∀ node other : Node, node.isStructured = other.isStructured →
      (∀ value, node.Accepts value ↔ other.Accepts value) →
      ∀ value, (context.fill node).Accepts value ↔ (context.fill other).Accepts value) ∧
    (∀ id inner value, (context.fill inner).Accepts value →
      (context.fill (.mk id (.nullable inner))).Accepts value) ∧
    (∀ id id' before member after value,
      (context.fill (.mk id (.leaf (.union (before ++ after))))).Accepts value →
      (context.fill (.mk id' (.leaf (.union (before ++ member :: after))))).Accepts value) ∧
    (∀ id id' before branch after expansion value,
      (context.fill (.mk id (.select (before ++ after) expansion))).Accepts value →
      (context.fill (.mk id' (.select (before ++ branch :: after) expansion))).Accepts value) := by
  refine ⟨fun wide narrow hstructured haccepts => ?_, fun node other hstructured haccepts => ?_,
    fun id inner => ?_, fun id id' before member after => ?_,
    fun id id' before branch after expansion => ?_⟩
  · exact (Node.Covers.mk hstructured haccepts).fill context |>.accepts
  · have hnode : node.Covers other := ⟨hstructured, fun value => (haccepts value).mpr⟩
    have hother : other.Covers node := ⟨hstructured.symm, fun value => (haccepts value).mp⟩
    exact fun value => ⟨(hother.fill context).accepts value, (hnode.fill context).accepts value⟩
  · exact ((Node.covers_nullable id inner).fill context).accepts
  · exact ((Node.covers_union id id' before member after).fill context).accepts
  · exact ((Node.covers_select id id' before branch after expansion).fill context).accepts

/-- A tag that may become a number, of an element that may be null: the elements are structured
before and after, so their keys are looked at in both cases. -/
theorem Context.accepts_fill_monotone_tag :
    let string := Node.mk ⟨0⟩ (.leaf .string)
    let number := Node.mk ⟨1⟩ (.leaf .number)
    let context := Context.framed ⟨2⟩ (.element .none)
      (.framed ⟨3⟩ .nullable (.framed ⟨4⟩ (.field [] "tag" [("name", string)]) .hole))
    let narrow := Node.mk ⟨5⟩ (.leaf (.union [string]))
    let wide := Node.mk ⟨6⟩ (.leaf (.union [string, number]))
    let value := Json.array [.null, .object [("tag", .string "a"), ("name", .string "b")]]
    (wide.isStructured = narrow.isStructured ∧
      (∀ value, narrow.Accepts value → wide.Accepts value) ∧
      (context.fill narrow).Accepts value) ∧
      (context.fill wide).Accepts value := by
  intro string number context narrow wide value
  have hstructured : wide.isStructured = narrow.isStructured := rfl
  have haccepts : ∀ value, narrow.Accepts value → wide.Accepts value :=
    (Node.covers_union ⟨5⟩ ⟨6⟩ [string] number []).accepts
  have hvalue : (context.fill narrow).Accepts value := rfl
  exact ⟨⟨hstructured, haccepts, hvalue⟩,
    context.accepts_fill_monotone.1 wide narrow hstructured haccepts value hvalue⟩

end ShapeQuery
