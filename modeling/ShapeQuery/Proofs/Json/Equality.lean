import ShapeQuery.Proofs.Binary64.Rounding
import ShapeQuery.Proofs.Json.Induction
import ShapeQuery.Proofs.RelatedLists

/-!
# Equality of JSON values

Two values are equal when they are built alike: doubles by the numbers they stand for, and
objects by what they hold under each key.  The test for equality decides this relation.
-/

namespace ShapeQuery

namespace Binary64

variable {x y : Binary64}

theorem absolute_eq_zero (hx : x.magnitude = 0) : x.absolute = 0 := by
  have hsignificand : x.significand = 0 := by simp [significand, hx]
  rw [absolute, hsignificand, Nat.cast_zero, zero_mul]

/-- The sign shows in the value of every double but zero. -/
theorem value_neg_iff (hx : x.magnitude ≠ 0) : x.value < 0 ↔ x.negative = true := by
  have hpos := absolute_pos hx
  unfold value
  cases x.negative with
  | false => simpa using hpos.le
  | true => simpa using hpos

theorem abs_value (x : Binary64) : |x.value| = x.absolute := by
  have hnonneg : 0 ≤ x.absolute := by
    unfold absolute
    positivity
  unfold value
  split
  · rw [abs_neg, abs_of_nonneg hnonneg]
  · exact abs_of_nonneg hnonneg

/-- The absolute value fixes the bits other than the sign. -/
theorem magnitude_eq_of_absolute_eq (habsolute : x.absolute = y.absolute) :
    x.magnitude = y.magnitude := by
  by_cases hx : x.magnitude = 0
  · by_contra hne
    have hy : y.magnitude ≠ 0 := fun hy => hne (hx.trans hy.symm)
    have hpos := absolute_pos hy
    rw [← habsolute, absolute_eq_zero hx] at hpos
    exact lt_irrefl _ hpos
  · have hy : y.magnitude ≠ 0 := by
      intro hy
      have hpos := absolute_pos hx
      rw [habsolute, absolute_eq_zero hy] at hpos
      exact lt_irrefl _ hpos
    have hexponent : x.exponent = y.exponent := by
      rw [exponent_eq_max hx, exponent_eq_max hy, habsolute]
    have hsignificand : x.significand = y.significand := by
      rw [absolute, absolute, hexponent] at habsolute
      have hpow : (2 : ℚ) ^ y.exponent ≠ 0 := zpow_ne_zero _ two_ne_zero
      exact_mod_cast mul_right_cancel₀ hpow habsolute
    rw [← x.magnitude_eq, ← y.magnitude_eq, hexponent, hsignificand]

/-- The test says that the numbers are equal, of which zero has two doubles. -/
theorem same_iff (x y : Binary64) : x.same y = true ↔ x.value = y.value := by
  rw [same, Bool.or_eq_true, Bool.and_eq_true, beq_iff_eq, beq_iff_eq, beq_iff_eq]
  constructor
  · intro hsame
    cases hsame with
    | inl heq => rw [heq]
    | inr hzero =>
        have hx : |x.value| = 0 := by rw [abs_value, absolute_eq_zero hzero.1]
        have hy : |y.value| = 0 := by rw [abs_value, absolute_eq_zero hzero.2]
        rw [abs_eq_zero.mp hx, abs_eq_zero.mp hy]
  · intro hvalue
    have habsolute : x.absolute = y.absolute := by
      rw [← abs_value, ← abs_value, hvalue]
    have hmagnitude := magnitude_eq_of_absolute_eq habsolute
    by_cases hx : x.magnitude = 0
    · exact .inr ⟨hx, hmagnitude.symm.trans hx⟩
    · have hy : y.magnitude ≠ 0 := fun hy => hx (hmagnitude.trans hy)
      have hnegative : x.negative = y.negative := by
        rw [Bool.eq_iff_iff, ← value_neg_iff hx, ← value_neg_iff hy, hvalue]
      apply Or.inl
      cases x with
      | mk negative magnitude hfinite =>
          cases y with
          | mk negative' magnitude' hfinite' =>
              obtain rfl : negative = negative' := hnegative
              obtain rfl : magnitude = magnitude' := hmagnitude
              rfl

end Binary64

/-- Numbers that are kept alike and are equal as numbers. -/
inductive Number.Equal : Number → Number → Prop where
  | integer (n : WideInt) : Equal (.integer n) (.integer n)
  | float {x y : Binary64} : x.value = y.value → Equal (.float x) (.float y)

/-- Values that are equal as JSON values, with objects compared key by key. -/
inductive Json.Equal : Json → Json → Prop where
  | null : Equal .null .null
  | bool (truth : Bool) : Equal (.bool truth) (.bool truth)
  | number {number other : Number} :
      number.Equal other → Equal (.number number) (.number other)
  | string (text : String) : Equal (.string text) (.string text)
  | array {items others : List Json} :
      List.Forall₂ Equal items others → Equal (.array items) (.array others)
  | object {fields others : List (String × Json)} :
      fields.length = others.length →
      (∀ field ∈ fields, field.1 ∈ others.map Prod.fst) →
      (∀ field ∈ fields, ∀ other, others.lookup field.1 = some other → Equal field.2 other) →
      Equal (.object fields) (.object others)

/-- The test decides whether numbers are equal. -/
theorem Number.same_iff (number other : Number) :
    number.same other = true ↔ number.Equal other := by
  constructor
  · intro hsame
    cases number with
    | integer n =>
        cases other with
        | integer m =>
            obtain rfl : n = m := beq_iff_eq.mp hsame
            exact .integer n
        | float y => cases hsame
    | float x =>
        cases other with
        | integer m => cases hsame
        | float y => exact .float ((x.same_iff y).mp hsame)
  · intro hequal
    cases hequal with
    | integer n => exact beq_iff_eq.mpr rfl
    | float hvalue => exact (Binary64.same_iff _ _).mpr hvalue

namespace Json

/-- If the test decides equality of the items, it does so of the arrays. -/
theorem sameItems_iff {items : List Json}
    (hitems : ∀ item ∈ items, ∀ other, item.same other = true ↔ item.Equal other)
    (others : List Json) : sameItems items others = true ↔ List.Forall₂ Equal items others := by
  induction items generalizing others with
  | nil =>
      cases others with
      | nil => simp [sameItems]
      | cons other rest => simp [sameItems]
  | cons item items ih =>
      obtain ⟨hitem, hrest⟩ := List.forall_mem_cons.mp hitems
      cases others with
      | nil => simp [sameItems]
      | cons other rest =>
          rw [sameItems, Bool.and_eq_true, hitem, ih hrest, List.forall₂_cons]

theorem sameFields_eq_all (fields others : List (String × Json)) :
    sameFields fields others =
      fields.all fun field => (others.lookup field.1).any field.2.same := by
  induction fields with
  | nil => rfl
  | cons field fields ih =>
      rw [sameFields, List.all_cons, ih]
      cases others.lookup field.1 <;> rfl

theorem sameFields_iff {fields : List (String × Json)}
    (hfields : ∀ field ∈ fields, ∀ other, field.2.same other = true ↔ field.2.Equal other)
    (others : List (String × Json)) :
    sameFields fields others = true ↔
      (∀ field ∈ fields, field.1 ∈ others.map Prod.fst) ∧
        ∀ field ∈ fields, ∀ other, others.lookup field.1 = some other →
          field.2.Equal other := by
  rw [sameFields_eq_all]
  exact Assoc.all_lookup_any_iff hfields

/-- The test for equality decides equality. -/
theorem same_iff (value other : Json) : value.same other = true ↔ value.Equal other := by
  induction value using Json.induction generalizing other with
  | null =>
      constructor
      · intro hsame
        cases other with
        | null => exact .null
        | _ => cases hsame
      · intro hequal
        cases hequal
        rfl
  | bool truth =>
      constructor
      · intro hsame
        cases other with
        | bool truth' =>
            obtain rfl : truth = truth' := beq_iff_eq.mp hsame
            exact .bool truth
        | _ => cases hsame
      · intro hequal
        cases hequal
        exact beq_iff_eq.mpr rfl
  | number number =>
      constructor
      · intro hsame
        cases other with
        | number number' => exact .number ((number.same_iff number').mp hsame)
        | _ => cases hsame
      · intro hequal
        cases hequal with
        | number hnumber => exact (Number.same_iff _ _).mpr hnumber
  | string text =>
      constructor
      · intro hsame
        cases other with
        | string text' =>
            obtain rfl : text = text' := beq_iff_eq.mp hsame
            exact .string text
        | _ => cases hsame
      · intro hequal
        cases hequal
        exact beq_iff_eq.mpr rfl
  | array items ih =>
      constructor
      · intro hsame
        cases other with
        | array others => exact .array ((sameItems_iff ih others).mp hsame)
        | _ => cases hsame
      · intro hequal
        cases hequal with
        | array hitems => exact (sameItems_iff ih _).mpr hitems
  | object fields ih =>
      constructor
      · intro hsame
        cases other with
        | object others =>
            obtain ⟨hlength, hfields⟩ := Bool.and_eq_true_iff.mp hsame
            obtain ⟨hkeys, hvalues⟩ := (sameFields_iff ih others).mp hfields
            exact .object (beq_iff_eq.mp hlength) hkeys hvalues
        | _ => cases hsame
      · intro hequal
        cases hequal with
        | object hlength hkeys hvalues =>
            apply Bool.and_eq_true_iff.mpr
            exact ⟨beq_iff_eq.mpr hlength, (sameFields_iff ih _).mpr ⟨hkeys, hvalues⟩⟩

end Json

end ShapeQuery
