import ShapeQuery.Proofs.Json.Induction
import ShapeQuery.Proofs.Predicate.Structured

/-!
# Opening brackets in conditions

Names have no brackets and operators have none either, so an opening bracket in the text of a
structured condition belongs to an operand: to an array, or to a string or a key that holds one.
-/

namespace ShapeQuery

theorem mem_intercalate_iff {c : Char} {separator : String} (hseparator : c ∉ separator.toList)
    {texts : List String} :
    c ∈ (separator.intercalate texts).toList ↔ ∃ text ∈ texts, c ∈ text.toList := by
  induction texts with
  | nil => simp
  | cons text rest ih =>
      cases rest with
      | nil => simp
      | cons next rest =>
          rw [String.intercalate_cons_cons, String.toList_append, String.toList_append,
            List.mem_append, List.mem_append, ih]
          simp [hseparator]

/-! ## Values -/

/-- An array, a string or a key with an opening bracket, or a value that one of these is part of. -/
inductive Json.HasOpening : Json → Prop where
  | string {text : String} : '[' ∈ text.toList → HasOpening (.string text)
  | array (items : List Json) : HasOpening (.array items)
  | key {fields : List (String × Json)} {field : String × Json} :
      field ∈ fields → '[' ∈ field.1.toList → HasOpening (.object fields)
  | field {fields : List (String × Json)} {field : String × Json} :
      field ∈ fields → HasOpening field.2 → HasOpening (.object fields)

namespace Quoted

theorem hexDigit_ne_opening : ∀ n < 16, hexDigit n ≠ '[' := by decide

/-- Escapes are spelled without brackets. -/
theorem opening_mem_escape_iff (c : Char) : '[' ∈ escape c ↔ c = '[' := by
  constructor
  · intro hmem
    unfold escape at hmem
    split_ifs at hmem <;>
      simp only [List.mem_cons, List.not_mem_nil, or_false, Char.reduceEq, false_or] at hmem
    · exact hmem.symm
    · have hcontrol : c.toNat < 0x20 := by omega
      rcases hmem with hhigh | hlow
      · exact absurd hhigh.symm (hexDigit_ne_opening _ (by omega))
      · exact absurd hlow.symm (hexDigit_ne_opening _ (by omega))
  · rintro rfl
    decide

theorem opening_mem_encode_iff (s : String) : '[' ∈ (encode s).toList ↔ '[' ∈ s.toList := by
  simp only [encode, String.toList_ofList, List.cons_append, List.mem_cons, List.mem_append,
    List.mem_flatMap, opening_mem_escape_iff]
  simp

end Quoted

/-- An opening bracket in the text of a value is one that the value has. -/
theorem Json.opening_mem_text_iff (value : Json) : '[' ∈ value.text.toList ↔ value.HasOpening := by
  induction value using Json.induction with
  | null => exact iff_of_false (by decide) nofun
  | bool truth => cases truth <;> exact iff_of_false (by decide) nofun
  | number number =>
      refine iff_of_false (fun hmem => ?_) nofun
      rcases Number.mem_text hmem with hdigit | hmark
      · exact absurd hdigit (by decide)
      · exact absurd hmark (by decide)
  | string text =>
      refine (Quoted.opening_mem_encode_iff text).trans ⟨.string, ?_⟩
      rintro ⟨⟩
      assumption
  | array items _ => exact iff_of_true (by simp [text]) (.array items)
  | object fields ih =>
      have hfields : '[' ∈ (text (.object fields)).toList ↔
          ∃ field ∈ fields, '[' ∈ field.1.toList ∨ field.2.HasOpening := by
        have hentries : '[' ∈ (",".intercalate (fieldTexts fields)).toList ↔
            ∃ field ∈ fields, '[' ∈ field.1.toList ∨ '[' ∈ field.2.text.toList := by
          rw [mem_intercalate_iff (by decide), fieldTexts_eq_map]
          simp [Quoted.opening_mem_encode_iff]
        have hbraces : '[' ∈ (text (.object fields)).toList ↔
            '[' ∈ (",".intercalate (fieldTexts fields)).toList := by simp [text]
        rw [hbraces, hentries]
        apply exists_congr
        intro field
        exact and_congr_right fun hfield => or_congr_right (ih field hfield)
      rw [hfields]
      constructor
      · rintro ⟨field, hfield, hkey | hvalue⟩
        · exact .key hfield hkey
        · exact .field hfield hvalue
      · rintro (_ | _ | ⟨hfield, hkey⟩ | ⟨hfield, hvalue⟩)
        · exact ⟨_, hfield, .inl hkey⟩
        · exact ⟨_, hfield, .inr hvalue⟩

/-! ## Conditions -/

/-- A condition that compares with a value that has an opening bracket. -/
inductive Predicate.HasOpening : Predicate → Prop where
  | all {parts : List Predicate} {part : Predicate} :
      part ∈ parts → HasOpening part → HasOpening (.all parts)
  | any {parts : List Predicate} {part : Predicate} :
      part ∈ parts → HasOpening part → HasOpening (.any parts)
  | not {part : Predicate} : HasOpening part → HasOpening (.not part)
  | compare (field : String) (comparison : Comparison) {literal : Json} :
      literal.HasOpening → HasOpening (.compare field comparison (.value literal))

theorem opening_not_mem_of_isPath {name : String} (hname : isPath name.toList = true) :
    '[' ∉ name.toList := fun hmem => absurd (isOrdinary_of_mem_path hname _ hmem) (by decide)

namespace Predicate

variable {predicate : Predicate}

theorem opening_mem_joined_iff {operator neutral : String} {parts : List Predicate}
    (hoperator : '[' ∉ (" " ++ operator ++ " ").toList) (hneutral : '[' ∉ neutral.toList)
    (hparts : ∀ part ∈ parts, '[' ∈ part.groq.toList ↔ part.HasOpening) :
    '[' ∈ (joined operator neutral (partTexts parts)).toList ↔ ∃ part ∈ parts, part.HasOpening := by
  have hpart (part : Predicate) :
      '[' ∈ (if part.joinsParts then "(" ++ part.groq ++ ")" else part.groq).toList ↔
        '[' ∈ part.groq.toList := by
    split <;> simp
  unfold joined
  split
  next hempty =>
    rw [partTexts_eq_map, List.isEmpty_iff, List.map_eq_nil_iff] at hempty
    subst hempty
    simpa using hneutral
  next =>
    rw [mem_intercalate_iff hoperator, partTexts_eq_map]
    simp only [List.mem_map, exists_exists_and_eq_and, hpart]
    exact exists_congr fun part => and_congr_right (hparts part)

/-- An opening bracket in the text of a structured condition is one of its operands. -/
theorem Structured.opening_mem_groq_iff (hpredicate : predicate.Structured) :
    '[' ∈ predicate.groq.toList ↔ predicate.HasOpening := by
  induction hpredicate with
  | all _ ih =>
      refine (opening_mem_joined_iff (by decide) (by decide) ih).trans ⟨?_, ?_⟩
      · rintro ⟨part, hpart, hopening⟩
        exact .all hpart hopening
      · rintro ⟨hpart, hopening⟩
        exact ⟨_, hpart, hopening⟩
  | any _ ih =>
      refine (opening_mem_joined_iff (by decide) (by decide) ih).trans ⟨?_, ?_⟩
      · rintro ⟨part, hpart, hopening⟩
        exact .any hpart hopening
      · rintro (_ | ⟨hpart, hopening⟩)
        exact ⟨_, hpart, hopening⟩
  | @not part _ ih =>
      have hsigns : '[' ∈ (groq (.not part)).toList ↔ '[' ∈ part.groq.toList := by simp [groq]
      rw [hsigns, ih]
      constructor
      · exact .not
      · rintro ⟨hpart⟩
        assumption
  | defined present hfield =>
      refine iff_of_false ?_ (by rintro ⟨⟩)
      cases present <;> simp [groq, opening_not_mem_of_isPath hfield]
  | @compare field comparison operand hfield hoperand =>
      have hsides : '[' ∈ (groq (.compare field comparison operand)).toList ↔
          '[' ∈ operand.text.toList := by
        have hname := opening_not_mem_of_isPath hfield
        cases comparison <;> simp [groq, Comparison.text, Comparison.symbol, hname]
      rw [hsides]
      cases hoperand with
      | value literal =>
          refine (Json.opening_mem_text_iff literal).trans ⟨.compare field comparison, ?_⟩
          rintro ⟨⟩
          assumption
      | parameter hname =>
          refine iff_of_false ?_ (by rintro ⟨⟩)
          simp [Operand.text, opening_not_mem_of_isPath hname]

end Predicate

end ShapeQuery
