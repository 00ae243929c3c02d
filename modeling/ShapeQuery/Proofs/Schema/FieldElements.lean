import ShapeQuery.Groq.Text
import ShapeQuery.Proofs.Validation.DataShapes
import ShapeQuery.Proofs.Validation.Issues

/-!
# Collections of attributes taken as they are

An attribute that is taken as it is has the data shape of its schema.  That a value may be null is
in the shape a choice between it and null, and a choice counts as structured whatever is chosen
from.  So a collection of nullable values without structure asks for the keys of its elements once
these are taken as they are.
-/

namespace ShapeQuery

/-- A collection whose elements have a text shows whether they are structured. -/
theorem Groq.collection_eq_iff {element : String} (helement : element ≠ "")
    (narrowing : Narrowing) (structured structured' : Bool) :
    Groq.collection narrowing structured element = Groq.collection narrowing structured' element ↔
      structured = structured' := by
  have hbraced : Groq.braced ("_key,...@" ++ element) ≠ element := by
    intro heq
    have hlength := congrArg String.length heq
    simp only [Groq.braced, String.length_append] at hlength
    have hkey : ("\x7b".length, "_key,...@".length) = (1, 9) := rfl
    simp only [Prod.mk.injEq] at hkey
    omega
  cases structured <;> cases structured' <;>
    simp [Groq.collection, helement, hbraced, Ne.symm hbraced]

namespace Node

variable {schema : Node}

/-- A nullable node whose values are not structured, through any number of fragments. -/
inductive NullableUnstructured : Node → Prop where
  | nullable (id : Identity) {inner : Node} :
      inner.isStructured = false → NullableUnstructured (.mk id (.nullable inner))
  | fragment (id : Identity) (text : String) {schema : Node} :
      NullableUnstructured schema → NullableUnstructured (.mk id (.fragment text schema))

theorem nullableUnstructured_nullable_iff {id : Identity} :
    (mk id (.nullable schema)).NullableUnstructured ↔ schema.isStructured = false := by
  constructor
  · rintro ⟨⟩
    assumption
  · exact .nullable id

theorem nullableUnstructured_fragment_iff {id : Identity} {text : String} :
    (mk id (.fragment text schema)).NullableUnstructured ↔ schema.NullableUnstructured := by
  constructor
  · rintro (_ | ⟨_, _, hschema⟩)
    exact hschema
  · exact .fragment id text

theorem NullableUnstructured.isStructured_eq_false (hschema : schema.NullableUnstructured) :
    schema.isStructured = false := by
  induction hschema with
  | nullable id hinner => exact hinner
  | fragment id text _ ih => exact ih

/-- Of a nullable node the data shape is structured, of any other node it is as the node is. -/
theorem isStructured_plain_iff (schema : Node) (id : Identity) (drawn : ℕ) :
    (schema.plain id drawn).isStructured = true ↔
      schema.isStructured = true ∨ schema.NullableUnstructured := by
  induction schema using Node.induction with
  | leaf id' shape _ => exact (or_iff_left nofun).symm
  | fragment id' text schema ih =>
      rw [nullableUnstructured_fragment_iff]
      exact ih
  | nullable id' inner _ =>
      rw [nullableUnstructured_nullable_iff]
      exact iff_of_true rfl (Bool.eq_false_or_eq_true inner.isStructured)
  | projection id' properties options _ => exact (or_iff_left nofun).symm
  | collection id' element narrowing _ => exact (or_iff_left nofun).symm
  | select id' branches expansion _ => exact (or_iff_left nofun).symm

/-- A data shape is structured like its node unless a wrapper for null around unstructured
values has become a union. -/
theorem isStructured_plain_eq_iff (schema : Node) (id : Identity) (drawn : ℕ) :
    (schema.plain id drawn).isStructured = schema.isStructured ↔
      ¬schema.NullableUnstructured := by
  have hplain := schema.isStructured_plain_iff id drawn
  by_cases hschema : schema.NullableUnstructured
  · simp [hplain.mpr (.inr hschema), hschema.isStructured_eq_false, hschema]
  · rw [Bool.eq_iff_iff, hplain, or_iff_left hschema]
    exact iff_of_true Iff.rfl hschema

def ChecksItems (collection element : Node) (keyed : Bool) : Prop :=
  ∀ value, collection.check value = Issue.ofItems element keyed value

/-- A key that is not a string tells whether keys are looked at. -/
theorem ofItems_injective (element : Node) {keyed keyed' : Bool}
    (heq : ∀ value, Issue.ofItems element keyed value = Issue.ofItems element keyed' value) :
    keyed = keyed' := by
  have hlength := congrArg List.length (heq (.array [.object [("_key", .bool true)]]))
  have hkey : (Issue.ofKey (.object [("_key", .bool true)])).length = 1 := rfl
  cases keyed <;> cases keyed' <;> simp [Issue.ofItems, Issue.under, hkey] at hlength ⊢

theorem checksItems_collection_iff {id : Identity} {element : Node} {narrowing : Narrowing}
    {keyed : Bool} :
    (mk id (.collection element narrowing)).ChecksItems element keyed ↔
      element.isStructured = keyed := by
  constructor
  · intro hchecks
    refine ofItems_injective element fun value => ?_
    rw [← hchecks value, check_collection]
  · rintro rfl value
    exact check_collection id value element narrowing

/-- Taking an attribute as it is keeps whether it is structured, and with that the text of its
collection and whether keys of the items are looked at, exactly if it is not nullable without
structure.  Then it counts as structured though it was not before. -/
theorem field_keeps_elements_iff (schema : Node) {text : String} (htext : text ≠ "")
    (narrowing : Narrowing) (id id' new new' : Identity) (drawn : ℕ) :
    let plain := (schema.field.run drawn).1
    let written := mk id (.fragment text schema)
    let taken := mk id' (.fragment text plain)
    let ofWritten := mk new (.collection written narrowing)
    let ofTaken := mk new' (.collection taken narrowing)
    (plain.isStructured = schema.isStructured ↔ ¬schema.NullableUnstructured) ∧
    (ofTaken.groq = ofWritten.groq ↔ ¬schema.NullableUnstructured) ∧
    ((∃ keyed, ofWritten.ChecksItems written keyed ∧ ofTaken.ChecksItems taken keyed) ↔
      ¬schema.NullableUnstructured) ∧
    (schema.NullableUnstructured → schema.isStructured = false ∧ plain.isStructured = true) := by
  intro plain written taken ofWritten ofTaken
  have hstructured : plain.isStructured = schema.isStructured ↔ ¬schema.NullableUnstructured :=
    schema.isStructured_plain_eq_iff _ drawn
  refine ⟨hstructured, ?_, ?_, fun hschema => ⟨hschema.isStructured_eq_false, ?_⟩⟩
  · exact (Groq.collection_eq_iff htext narrowing _ _).trans hstructured
  · refine Iff.trans ⟨?_, fun heq => ?_⟩ hstructured
    · rintro ⟨keyed, hwritten, htaken⟩
      rw [checksItems_collection_iff] at hwritten htaken
      exact htaken.trans hwritten.symm
    · exact ⟨_, checksItems_collection_iff.mpr rfl, checksItems_collection_iff.mpr heq⟩
  · exact (schema.isStructured_plain_iff _ drawn).mpr (.inr hschema)

/-- References that are taken as they are stay structured, nullable or not. -/
theorem field_keeps_elements_nullable_object :
    let title := mk ⟨0⟩ (.leaf .string)
    let director := mk ⟨2⟩ (.nullable (mk ⟨1⟩ (.leaf (.object [("name", title)]))))
    let taken := mk ⟨6⟩ (.fragment "director" (director.field.run 3).1)
    "director" ≠ "" ∧ ¬director.NullableUnstructured ∧
      (mk ⟨7⟩ (.collection taken .none)).groq =
        (mk ⟨9⟩ (.collection (mk ⟨8⟩ (.fragment "director" director)) .none)).groq := by
  intro title director taken
  have hname : "director" ≠ "" := by decide
  have hdirector : ¬director.NullableUnstructured :=
    mt nullableUnstructured_nullable_iff.mp (by decide)
  obtain ⟨-, htext, -⟩ := field_keeps_elements_iff director hname .none ⟨8⟩ ⟨6⟩ ⟨9⟩ ⟨7⟩ 3
  exact ⟨hname, hdirector, htext.mpr hdirector⟩

/-- A title that may be null is no longer without structure once it is taken as it is: its
collection projects keys, and reports a key that is not a string. -/
theorem field_of_nullable_string_is_keyed :
    let title := mk ⟨1⟩ (.nullable (mk ⟨0⟩ (.leaf .string)))
    let plain := (title.field.run 2).1
    let ofWritten := mk ⟨5⟩ (.collection (mk ⟨4⟩ (.fragment "title" title)) .none)
    let ofTaken := mk ⟨7⟩ (.collection (mk ⟨6⟩ (.fragment "title" plain)) .none)
    let keyed := Json.array [.object [("_key", .bool true)]]
    title.isStructured = false ∧ plain.isStructured = true ∧
      ofWritten.groq = "[]title" ∧ ofTaken.groq = "[]\x7b_key,...@title\x7d" ∧
      ofWritten.check keyed = [⟨"/0", "Expected string"⟩] ∧
      ofTaken.check keyed = [⟨"/0", "Expected union value"⟩, ⟨"/0/_key", "Expected string"⟩] := by
  decide

end Node

end ShapeQuery
