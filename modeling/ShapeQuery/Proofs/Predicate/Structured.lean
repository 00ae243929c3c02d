import ShapeQuery.Predicate.Text
import ShapeQuery.Proofs.Groq.Brackets
import ShapeQuery.Proofs.Groq.Name
import ShapeQuery.Proofs.Predicate.Normal

/-!
# Conditions and their pieces

The names and texts in a condition are written by hand, and all else is put around them.  So
the text of a condition is well-bracketed where its pieces are.  Structured conditions are
those over paths of identifiers without pieces that are already text; the text of such a
condition is never just digits and points.
-/

namespace ShapeQuery

/-- An operand of which a hand-written name is well-bracketed. -/
inductive Operand.SoundlyWritten : Operand → Prop where
  | value (literal : Json) : SoundlyWritten (.value literal)
  | parameter {name : String} : WellBracketed name → SoundlyWritten (.parameter name)

/-- A condition of which all hand-written names and texts are well-bracketed. -/
inductive Predicate.SoundlyWritten : Predicate → Prop where
  | all {parts : List Predicate} :
      (∀ part ∈ parts, SoundlyWritten part) → SoundlyWritten (.all parts)
  | any {parts : List Predicate} :
      (∀ part ∈ parts, SoundlyWritten part) → SoundlyWritten (.any parts)
  | not {part : Predicate} : SoundlyWritten part → SoundlyWritten (.not part)
  | defined {field : String} (present : Bool) :
      WellBracketed field → SoundlyWritten (.defined field present)
  | compare {field : String} (comparison : Comparison) {operand : Operand} :
      WellBracketed field → operand.SoundlyWritten →
      SoundlyWritten (.compare field comparison operand)
  | verbatim {text : String} : WellBracketed text → SoundlyWritten (.verbatim text)

/-- A value, or a parameter whose name is a path of identifiers. -/
inductive Operand.Structured : Operand → Prop where
  | value (literal : Json) : Structured (.value literal)
  | parameter {name : String} : isPath name.toList = true → Structured (.parameter name)

/-- A condition over paths of identifiers, no part of which is already text. -/
inductive Predicate.Structured : Predicate → Prop where
  | all {parts : List Predicate} : (∀ part ∈ parts, Structured part) → Structured (.all parts)
  | any {parts : List Predicate} : (∀ part ∈ parts, Structured part) → Structured (.any parts)
  | not {part : Predicate} : Structured part → Structured (.not part)
  | defined {field : String} (present : Bool) :
      isPath field.toList = true → Structured (.defined field present)
  | compare {field : String} (comparison : Comparison) {operand : Operand} :
      isPath field.toList = true → operand.Structured →
      Structured (.compare field comparison operand)

/-! ## Well-bracketed pieces -/

theorem isOrdinary_of_mem_path {name : String} (hname : isPath name.toList = true) :
    ∀ c ∈ name.toList, Brackets.IsOrdinary c := by
  intro c hc
  rcases isAlphanum_of_mem_path hname c hc with halphanum | rfl | rfl
  · exact isOrdinary_of_isAlphanum halphanum
  · decide
  · decide

theorem wellBracketed_path {name : String} (hname : isPath name.toList = true) :
    WellBracketed name := wellBracketed_ordinary (isOrdinary_of_mem_path hname)

theorem Operand.SoundlyWritten.wellBracketed_text {operand : Operand}
    (hoperand : operand.SoundlyWritten) : WellBracketed operand.text := by
  cases hoperand with
  | value literal => exact literal.wellBracketed_text
  | parameter hname => exact WellBracketed.append (by decide) hname

theorem Comparison.wellBracketed_symbol (comparison : Comparison) :
    WellBracketed comparison.symbol := by
  cases comparison <;> decide

theorem Comparison.wellBracketed_text (comparison : Comparison) {field : String}
    {operand : Operand} (hfield : WellBracketed field) (hoperand : operand.SoundlyWritten) :
    WellBracketed (comparison.text field operand) := by
  have hblank : WellBracketed " " := by decide
  have hsymbol := comparison.wellBracketed_symbol
  have hoperand := hoperand.wellBracketed_text
  cases comparison with
  | contains => exact (((hoperand.append hblank).append hsymbol).append hblank).append hfield
  | _ => exact (((hfield.append hblank).append hsymbol).append hblank).append hoperand

namespace Predicate

theorem wellBracketed_partTexts {parts : List Predicate}
    (hparts : ∀ part ∈ parts, WellBracketed part.groq) :
    ∀ text ∈ partTexts parts, WellBracketed text := by
  intro text htext
  rw [partTexts_eq_map] at htext
  obtain ⟨part, hpart, rfl⟩ := List.mem_map.mp htext
  split
  · exact (hparts part hpart).parenthesized
  · exact hparts part hpart

/-- Joined texts are well-bracketed if each of them is. -/
theorem wellBracketed_joined {operator neutral : String} {texts : List String}
    (hoperator : WellBracketed (" " ++ operator ++ " ")) (hneutral : WellBracketed neutral)
    (htexts : ∀ text ∈ texts, WellBracketed text) :
    WellBracketed (joined operator neutral texts) := by
  unfold joined
  split
  · exact hneutral
  · exact wellBracketed_intercalate hoperator htexts

/-- The text of a condition is well-bracketed if its pieces are. -/
theorem SoundlyWritten.wellBracketed_groq {predicate : Predicate}
    (hpredicate : predicate.SoundlyWritten) : WellBracketed predicate.groq := by
  induction predicate using Predicate.induction with
  | all parts ih =>
      cases hpredicate with
      | all hparts =>
          have htexts := wellBracketed_partTexts fun part hpart => ih part hpart (hparts part hpart)
          exact wellBracketed_joined (by decide) (by decide) htexts
  | any parts ih =>
      cases hpredicate with
      | any hparts =>
          have htexts := wellBracketed_partTexts fun part hpart => ih part hpart (hparts part hpart)
          exact wellBracketed_joined (by decide) (by decide) htexts
  | not part ih =>
      cases hpredicate with
      | not hpart =>
          have htext : groq (.not part) = "!" ++ ("(" ++ part.groq ++ ")") := by
            simp [groq, ← String.append_assoc]
          rw [htext]
          exact WellBracketed.append (by decide) (ih hpart).parenthesized
  | defined field present =>
      cases hpredicate with
      | defined _ hfield =>
          have htest : WellBracketed ("defined" ++ ("(" ++ field ++ ")")) :=
            WellBracketed.append (by decide) hfield.parenthesized
          cases present with
          | true => simpa [groq, ← String.append_assoc] using htest
          | false =>
              have hsign : WellBracketed ("!" ++ ("defined" ++ ("(" ++ field ++ ")"))) :=
                WellBracketed.append (by decide) htest
              simpa [groq, ← String.append_assoc] using hsign
  | compare field comparison operand =>
      cases hpredicate with
      | compare _ hfield hoperand => exact comparison.wellBracketed_text hfield hoperand
  | verbatim text =>
      cases hpredicate with
      | verbatim htext => exact htext

end Predicate

/-! ## Structured conditions -/

theorem Operand.Structured.soundlyWritten {operand : Operand} (hoperand : operand.Structured) :
    operand.SoundlyWritten := by
  cases hoperand with
  | value literal => exact .value literal
  | parameter hname => exact .parameter (wellBracketed_path hname)

namespace Predicate

variable {predicate : Predicate}

/-- Structured conditions have nothing written by hand that could hold brackets. -/
theorem Structured.soundlyWritten (hpredicate : predicate.Structured) :
    predicate.SoundlyWritten := by
  induction hpredicate with
  | all _ ih => exact .all ih
  | any _ ih => exact .any ih
  | not _ ih => exact .not ih
  | defined present hfield => exact .defined present (wellBracketed_path hfield)
  | compare comparison hfield hoperand =>
      exact .compare comparison (wellBracketed_path hfield) hoperand.soundlyWritten

theorem Structured.passes_groq (hpredicate : predicate.Structured) :
    Brackets.Passes predicate.groq.toList :=
  Brackets.wellBracketed_iff_passes.mp hpredicate.soundlyWritten.wellBracketed_groq

theorem structured_typeIs (discriminant : String) : (typeIs discriminant).Structured :=
  .compare _ (by decide) (.value (.string discriminant))

theorem Structured.and {other : Predicate} (hpredicate : predicate.Structured)
    (hother : other.Structured) : (predicate.and other).Structured := by
  unfold Predicate.and
  split
  · next parts =>
      cases hpredicate with
      | all hparts =>
          refine .all fun part hpart => ?_
          rcases List.mem_append.mp hpart with hpart | hpart
          · exact hparts part hpart
          · rw [List.mem_singleton.mp hpart]
            exact hother
  · refine .all ?_
    simp only [List.forall_mem_cons]
    exact ⟨hpredicate, hother, fun _ hpart => absurd hpart List.not_mem_nil⟩

/-- Letters and underscores, with which paths begin. -/
def IsInitial (c : Char) : Prop := c.isAlpha = true ∨ c = '_'

instance : DecidablePred IsInitial := fun c =>
  inferInstanceAs (Decidable (c.isAlpha = true ∨ c = '_'))

theorem IsInitial.isDigit_eq_false {c : Char} (hc : IsInitial c) : c.isDigit = false := by
  rcases hc with halpha | rfl
  · exact isDigit_eq_false_of_isAlpha halpha
  · rfl

/-- A path has a letter or an underscore, so it is never all digits. -/
theorem exists_isInitial_of_isPath {name : String} (hname : isPath name.toList = true) :
    ∃ c ∈ name.toList, IsInitial c := by
  obtain ⟨first, rest, hletters, hfirst⟩ := exists_cons_of_isPath hname
  exact ⟨first, by simp [hletters], hfirst⟩

theorem exists_isInitial_joined {operator neutral : String} {parts : List Predicate}
    (hneutral : ∃ c ∈ neutral.toList, IsInitial c)
    (hparts : ∀ part ∈ parts, ∃ c ∈ part.groq.toList, IsInitial c) :
    ∃ c ∈ (joined operator neutral (partTexts parts)).toList, IsInitial c := by
  cases parts with
  | nil => exact hneutral
  | cons part rest =>
      obtain ⟨c, hc, hinitial⟩ := hparts part List.mem_cons_self
      have hfirst :
          c ∈ (if part.joinsParts then "(" ++ part.groq ++ ")" else part.groq).toList := by
        split
        · simp [hc]
        · exact hc
      refine ⟨c, ?_, hinitial⟩
      cases rest with
      | nil => simpa [joined, partTexts] using hfirst
      | cons next rest =>
          simp only [joined, partTexts, List.isEmpty_cons, Bool.false_eq_true, if_false,
            String.intercalate_cons_cons, String.toList_append, List.mem_append]
          exact .inl (.inl hfirst)

/-- There is a letter or an underscore in the text of a structured condition. -/
theorem Structured.exists_isInitial (hpredicate : predicate.Structured) :
    ∃ c ∈ predicate.groq.toList, IsInitial c := by
  induction predicate using Predicate.induction with
  | all parts ih =>
      cases hpredicate with
      | all hparts =>
          exact exists_isInitial_joined ⟨'t', by decide, by decide⟩
            fun part hpart => ih part hpart (hparts part hpart)
  | any parts ih =>
      cases hpredicate with
      | any hparts =>
          exact exists_isInitial_joined ⟨'f', by decide, by decide⟩
            fun part hpart => ih part hpart (hparts part hpart)
  | not part ih =>
      cases hpredicate with
      | not hpart =>
          obtain ⟨c, hc, hinitial⟩ := ih hpart
          exact ⟨c, by simp [groq, hc], hinitial⟩
  | defined field present =>
      cases hpredicate with
      | defined _ hfield =>
          obtain ⟨c, hc, hinitial⟩ := exists_isInitial_of_isPath hfield
          cases present with
          | true => exact ⟨c, by simp [groq, hc], hinitial⟩
          | false => exact ⟨c, by simp [groq, hc], hinitial⟩
  | compare field comparison operand =>
      cases hpredicate with
      | compare _ hfield _ =>
          obtain ⟨c, hc, hinitial⟩ := exists_isInitial_of_isPath hfield
          cases comparison with
          | contains => exact ⟨c, by simp [groq, Comparison.text, hc], hinitial⟩
          | _ => exact ⟨c, by simp [groq, Comparison.text, hc], hinitial⟩
  | verbatim text => nomatch hpredicate

end Predicate

end ShapeQuery
