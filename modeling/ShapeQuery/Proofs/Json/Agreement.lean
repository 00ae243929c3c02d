import Mathlib.Data.Set.Insert
import ShapeQuery.Proofs.Json.Equality

/-!
# Agreement of JSON values

Readers of a value look at the attributes that they have names for, and most of them take an
attribute that is null for one that is not there.  Values agree when such readers cannot tell them
apart.  Agreement goes as far as equality with any value that has no objects inside.
-/

namespace ShapeQuery

namespace Json

/-- Values that are equal but for the attributes of objects: those under other names do not count,
and those that are null count as missing. -/
inductive Agree (names : Set String) : Json → Json → Prop where
  | null : Agree names .null .null
  | bool (truth : Bool) : Agree names (.bool truth) (.bool truth)
  | number {number other : Number} :
      number.Equal other → Agree names (.number number) (.number other)
  | string (text : String) : Agree names (.string text) (.string text)
  | array {items others : List Json} :
      List.Forall₂ (Agree names) items others → Agree names (.array items) (.array others)
  | object {fields others : List (String × Json)} :
      (∀ name ∈ names,
        Agree names ((fields.lookup name).getD .null) ((others.lookup name).getD .null)) →
      Agree names (.object fields) (.object others)

inductive ObjectFree : Json → Prop where
  | null : ObjectFree .null
  | bool (truth : Bool) : ObjectFree (.bool truth)
  | number (number : Number) : ObjectFree (.number number)
  | string (text : String) : ObjectFree (.string text)
  | array {items : List Json} : (∀ item ∈ items, ObjectFree item) → ObjectFree (.array items)

end Json

theorem Number.Equal.congr {number other : Number} (hnumbers : number.Equal other)
    (third : Number) : number.Equal third ↔ other.Equal third := by
  cases hnumbers with
  | integer n => exact Iff.rfl
  | float hvalue =>
      constructor
      · rintro ⟨⟩
        next hthird => exact .float (hvalue.symm.trans hthird)
      · rintro ⟨⟩
        next hthird => exact .float (hvalue.trans hthird)

theorem Number.Equal.isWhole_eq {number other : Number} (hnumbers : number.Equal other) :
    number.isWhole = other.isWhole := by
  cases hnumbers with
  | integer n => rfl
  | float hvalue =>
      rw [Bool.eq_iff_iff]
      simp only [isWhole, Binary64.isWhole_iff, hvalue]

namespace Json

variable {names : Set String} {value other literal : Json}

/-- Values that agree item by item are equal item by item to the same values. -/
theorem forall₂_equal_iff {items others literals : List Json}
    (hitems : List.Forall₂ (Agree names) items others)
    (hliterals : ∀ literal ∈ literals, ∀ value other, Agree names value other →
      (value.Equal literal ↔ other.Equal literal)) :
    List.Forall₂ Equal items literals ↔ List.Forall₂ Equal others literals := by
  induction hitems generalizing literals with
  | nil => exact Iff.rfl
  | cons hitem _ ih =>
      cases literals with
      | nil => simp
      | cons literal rest =>
          obtain ⟨hliteral, hrest⟩ := List.forall_mem_cons.mp hliterals
          rw [List.forall₂_cons, List.forall₂_cons, hliteral _ _ hitem, ih hrest]

/-- Values that agree are equal to the same values without objects inside. -/
theorem Agree.equal_iff (hvalues : Agree names value other) (hliteral : literal.ObjectFree) :
    value.Equal literal ↔ other.Equal literal := by
  induction hliteral generalizing value other with
  | null =>
      cases hvalues with
      | null => exact Iff.rfl
      | _ => exact ⟨nofun, nofun⟩
  | bool truth =>
      cases hvalues with
      | bool => exact Iff.rfl
      | _ => exact ⟨nofun, nofun⟩
  | number number =>
      cases hvalues with
      | number hnumbers =>
          constructor
          · rintro ⟨⟩
            next hequal => exact .number ((hnumbers.congr number).mp hequal)
          · rintro ⟨⟩
            next hequal => exact .number ((hnumbers.congr number).mpr hequal)
      | _ => exact ⟨nofun, nofun⟩
  | string text =>
      cases hvalues with
      | string => exact Iff.rfl
      | _ => exact ⟨nofun, nofun⟩
  | array _ ih =>
      cases hvalues with
      | array hitems =>
          have hequal := forall₂_equal_iff hitems fun literal hliteral _ _ => ih literal hliteral
          constructor
          · rintro ⟨⟩
            next hitems => exact .array (hequal.mp hitems)
          · rintro ⟨⟩
            next hitems => exact .array (hequal.mpr hitems)
      | _ => exact ⟨nofun, nofun⟩

theorem Agree.eq_null_left (hvalues : Agree names .null other) : other = .null := by
  cases hvalues
  rfl

theorem Agree.eq_null_right (hvalues : Agree names value .null) : value = .null := by
  cases hvalues
  rfl

/-! ## Tests that values that agree pass together -/

/-- A literal without objects is equal to both of two values that agree, or to neither. -/
theorem Agree.same_eq (hvalues : Agree names value other) (hliteral : literal.ObjectFree) :
    value.same literal = other.same literal := by
  rw [Bool.eq_iff_iff, same_iff, same_iff]
  exact hvalues.equal_iff hliteral

theorem Agree.isStringOrNull_eq (hvalues : Agree names value other) :
    value.isStringOrNull = other.isStringOrNull := by
  cases hvalues <;> rfl

end Json

end ShapeQuery
