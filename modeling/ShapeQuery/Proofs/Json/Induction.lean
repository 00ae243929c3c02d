import ShapeQuery.Json.Basic

/-!
# Induction over JSON values

An item of an array or a value in an object is smaller than the array or object, so
that a property of all values may be proved from the same property of these parts.
-/

namespace ShapeQuery

theorem sizeOf_snd_lt_of_mem {α β : Type} [SizeOf α] [SizeOf β] {entry : α × β}
    {entries : List (α × β)} (hentry : entry ∈ entries) :
    sizeOf entry.2 < sizeOf entries := by
  have hsize := List.sizeOf_lt_of_mem hentry
  have hentry : sizeOf entry = 1 + sizeOf entry.1 + sizeOf entry.2 := by
    rw [← Prod.mk.sizeOf_spec]
  omega

/-- Induction on the items and fields of a value. -/
@[elab_as_elim]
theorem Json.induction {motive : Json → Prop} (null : motive .null)
    (bool : ∀ truth, motive (.bool truth)) (number : ∀ number, motive (.number number))
    (string : ∀ text, motive (.string text))
    (array : ∀ items, (∀ item ∈ items, motive item) → motive (.array items))
    (object : ∀ fields, (∀ field ∈ fields, motive field.2) → motive (.object fields))
    (value : Json) : motive value := by
  induction hsize : sizeOf value using Nat.strongRecOn generalizing value with
  | ind size ih =>
      subst hsize
      have hsmaller : ∀ part, sizeOf part < sizeOf value → motive part :=
        fun part hpart => ih (sizeOf part) hpart part rfl
      cases value with
      | null => exact null
      | bool truth => exact bool truth
      | number n => exact number n
      | string text => exact string text
      | array items =>
          refine array items fun item hitem => hsmaller item ?_
          have := List.sizeOf_lt_of_mem hitem
          simp only [Json.array.sizeOf_spec]
          omega
      | object fields =>
          refine object fields fun field hfield => hsmaller field.2 ?_
          have := sizeOf_snd_lt_of_mem hfield
          simp only [Json.object.sizeOf_spec]
          omega

end ShapeQuery
