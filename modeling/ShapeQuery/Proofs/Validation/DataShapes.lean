import ShapeQuery.Proofs.Validation.Conformance
import ShapeQuery.Schema.Build

/-!
# Data shapes

The data shape of a node says nothing about the query any more, but it describes the same values.
There is one difference: a collection looks at the keys of its elements where these are
structured, and an array does not.  So a collection accepts what its shape accepts, provided that
the keys pass.
-/

namespace ShapeQuery

/-- Every item that is an object has a key that is a string or null, or no key. -/
def Json.ItemsKeyed (value : Json) : Prop :=
  ∀ items, value = .array items → ∀ fields, .object fields ∈ items →
    ∀ key, fields.lookup "_key" = some key → key.KeyLike

namespace Node

/-- A collection of structured elements, through any number of fragments. -/
inductive LooksAtKeys : Node → Prop where
  | collection (id : Identity) (narrowing : Narrowing) {element : Node} :
      element.isStructured = true → LooksAtKeys (.mk id (.collection element narrowing))
  | fragment (id : Identity) (text : String) {schema : Node} :
      LooksAtKeys schema → LooksAtKeys (.mk id (.fragment text schema))

variable {value : Json} {node : Node}

/-- The leaf of the data shape of a node, under an identity. -/
def plain (node : Node) (id : Identity) (drawn : ℕ) : Node :=
  mk id (.leaf (node.toShape.run drawn).1)

theorem looksAtKeys_fragment_iff {id : Identity} {text : String} :
    (mk id (.fragment text node)).LooksAtKeys ↔ node.LooksAtKeys := by
  constructor
  · rintro (_ | ⟨_, _, hnode⟩)
    exact hnode
  · exact .fragment id text

theorem looksAtKeys_collection_iff {id : Identity} {element : Node} {narrowing : Narrowing} :
    (mk id (.collection element narrowing)).LooksAtKeys ↔ element.isStructured = true := by
  constructor
  · rintro ⟨⟩
    assumption
  · exact .collection id narrowing

theorem accepts_null (id : Identity) (value : Json) :
    (mk id (.leaf .null)).Accepts value ↔ value = .null := by
  have hissues : (mk id (.leaf .null)).check value =
      Check.found (Check.require (Check.isNull value) "Expected null") := rfl
  rw [accepts_of_require hissues]
  cases value <;> simp [Check.isNull]

theorem keysPass_iff (items : List Json) :
    (∀ item ∈ items, Check.found (Check.elementKey item) = []) ↔
      (Json.array items).ItemsKeyed := by
  simp only [Check.found_elementKey_eq_nil_iff, Json.ItemsKeyed]
  constructor
  · rintro hkeys _ ⟨⟩ fields hfields key hkey
    exact hkeys _ hfields key hkey
  · intro hkeys item hitem key hkey
    cases item with
    | object fields => exact hkeys items rfl fields hitem key hkey
    | _ => cases hkey

/-! ## Nodes read as plain shapes -/

section Shapes

variable (id id' : Identity)

/-- A wrapper for null accepts what a union with null does. -/
theorem accepts_nullable_iff_union (inner : Node) (new : Identity) :
    (mk id (.nullable inner)).Accepts value ↔
      (mk id' (.leaf (.union [inner, mk new (.leaf .null)]))).Accepts value := by
  rw [accepts_nullable, accepts_union]
  simp [accepts_null, or_comm]

theorem accepts_projection_iff_object (properties : List (String × Node))
    (options : ProjectionOptions) :
    (mk id (.projection properties options)).Accepts value ↔
      (mk id' (.leaf (.object properties))).Accepts value := by
  rw [accepts_projection, accepts_object]

/-- A collection accepts the arrays of its elements, provided that the keys pass where they are
looked at. -/
theorem accepts_collection_iff_array (element : Node) (narrowing : Narrowing) :
    (mk id (.collection element narrowing)).Accepts value ↔
      (mk id' (.leaf (.array element))).Accepts value ∧
        (element.isStructured = true → value.ItemsKeyed) := by
  rw [accepts_collection, accepts_array]
  constructor
  · rintro ⟨items, rfl, hitems⟩
    refine ⟨⟨items, rfl, fun item hitem => (hitems item hitem).1⟩, fun hstructured => ?_⟩
    exact (keysPass_iff items).mp fun item hitem => (hitems item hitem).2 hstructured
  · rintro ⟨⟨items, rfl, hitems⟩, hkeys⟩
    refine ⟨items, rfl, fun item hitem => ⟨hitems item hitem, fun hstructured => ?_⟩⟩
    exact (keysPass_iff items).mpr (hkeys hstructured) item hitem

/-- As data, the guards of a union are forgotten. -/
theorem accepts_select_iff_union (branches : List (Guard × Node)) (expansion : Option Expansion) :
    (mk id (.select branches expansion)).Accepts value ↔
      (mk id' (.leaf (.union (branches.map Prod.snd)))).Accepts value := by
  rw [accepts_select, accepts_union]
  simp only [List.mem_map, exists_exists_and_eq_and]

end Shapes

/-- A node accepts what its data shape accepts, except for the keys that it looks at. -/
theorem accepts_iff_plain (node : Node) (id : Identity) (drawn : ℕ) (value : Json) :
    node.Accepts value ↔
      (node.plain id drawn).Accepts value ∧ (node.LooksAtKeys → value.ItemsKeyed) := by
  -- All kinds but fragments turn into a shape at once, and only collections of structured elements
  -- say more than their shape.
  induction node using Node.induction generalizing value with
  | leaf id' shape _ => exact (and_iff_left nofun).symm
  | fragment id' text schema ih =>
      rw [looksAtKeys_fragment_iff]
      exact ih value
  | nullable id' inner _ =>
      rw [and_iff_left nofun]
      exact accepts_nullable_iff_union id' id inner ⟨drawn⟩
  | projection id' properties options _ =>
      rw [and_iff_left nofun]
      exact accepts_projection_iff_object id' id properties options
  | collection id' element narrowing _ =>
      rw [looksAtKeys_collection_iff]
      exact accepts_collection_iff_array id' id element narrowing
  | select id' branches expansion _ =>
      rw [and_iff_left nofun]
      exact accepts_select_iff_union id' id branches expansion

/-- Taking an attribute as it is, whatever its schema would project, changes what is accepted in
one case only: a collection of structured elements also looks at their keys. -/
theorem accepts_iff_field_accepts (node : Node) (drawn : ℕ) (value : Json) :
    let shape := (node.toShape.run drawn).1
    (node.Accepts value ↔ (node.field.run drawn).1.Accepts value ∧
      (node.LooksAtKeys → value.ItemsKeyed)) ∧
    ∀ drawn', ((leaf shape).run drawn').1.Accepts value ↔
      (node.field.run drawn).1.Accepts value := by
  intro shape
  exact ⟨node.accepts_iff_plain _ drawn value, fun drawn' => Iff.rfl⟩

end Node

end ShapeQuery
