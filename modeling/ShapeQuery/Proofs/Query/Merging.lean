import ShapeQuery.Proofs.Predicate.Combinations
import ShapeQuery.Query.Basic

/-!
# Types merged with conditions

A query for the documents of a type for which a condition holds has one group, in which the
test of the type and the condition are joined by text.  A structured condition is put in
parentheses where it needs them.  A condition that is already text is not: a disjunction sign
in it that stands outside all parentheses leaves only its first disjunct tied to the type.
-/

namespace ShapeQuery

open Formula (ReadsOperand ScansAlone)

namespace Predicate

/-- Whether a disjunction sign stands outside all parentheses of the text. -/
def dividesText (condition : Predicate) : Bool :=
  (Formula.tokens? condition.groq.toList).any (Formula.divides 0)

variable {condition : Predicate} {own : Formula}

theorem readable_typeIs (discriminant : String) : (typeIs discriminant).Readable :=
  .compare _ rfl (.value (.string discriminant))

/-- The sign of a conjunction behind the test of a type. -/
theorem scansAlone_typeIs (discriminant : String) :
    ScansAlone ((typeIs discriminant).groq ++ " && ").toList
      ((typeIs discriminant).tokens ++ [.conjunction]) := by
  have hsign : ScansAlone " && ".toList [.conjunction] := fun held rest => rfl
  rw [String.toList_append]
  exact (readable_typeIs discriminant).scans.append_alone hsign (by rintro c ⟨⟩; rfl) (by simp)

theorem readsOperand_typeIs (discriminant : String) :
    ReadsOperand (typeIs discriminant).tokens (typeIs discriminant).normal :=
  (readable_typeIs discriminant).reads.1 rfl

/-- The test of the type never needs parentheses; the condition has them if it joins parts. -/
theorem groq_typeIs_and (discriminant : String) (condition : Predicate) :
    ((typeIs discriminant).and condition).groq =
      (typeIs discriminant).groq ++ " && " ++
        if condition.joinsParts then "(" ++ condition.groq ++ ")" else condition.groq := by
  have htext : ((typeIs discriminant).and condition).groq =
      joined "&&" "true" [(typeIs discriminant).groq,
        if condition.joinsParts then "(" ++ condition.groq ++ ")" else condition.groq] := rfl
  rw [htext]
  simp [joined]

/-- A condition that joins parts is read in its parentheses. -/
theorem ofText?_typeIs_and_enclosed (discriminant : String) (hjoins : condition.joinsParts = true)
    (hown : Formula.ofText? condition.groq = some own) :
    Formula.ofText? ((typeIs discriminant).and condition).groq =
      some (.allOf [(typeIs discriminant).normal, own]) := by
  obtain ⟨tokens, htokens, hread⟩ := Option.bind_eq_some_iff.mp hown
  have hoperand := (Formula.readsLevel_iff.mpr hread).readsOperand_enclosed
  have hopen := Formula.scansAlone_bracket '(' rfl
  refine Formula.ofText?_of_readsLevel ?_ (Formula.readsLevel_allOf
    (.cons (readsOperand_typeIs discriminant) (.cons hoperand .nil)) (by simp))
  have htext : (((typeIs discriminant).and condition).groq).toList =
      (((typeIs discriminant).groq ++ " && ").toList ++ ['(']) ++
        (condition.groq.toList ++ [')']) := by
    rw [groq_typeIs_and, if_pos hjoins]
    simp
  rw [htext, ((scansAlone_typeIs discriminant).append hopen).tokens?_append,
    Formula.tokens?_append_closing htokens]
  simp

/-- Another condition is read behind the test of the type, without parentheses. -/
theorem ofText?_typeIs_and_bare (discriminant : String) (hjoins : condition.joinsParts = false)
    (hown : Formula.ofText? condition.groq = some own) :
    ∃ first rest merged, own = .anyOf (first :: rest) ∧
      Formula.ofText? ((typeIs discriminant).and condition).groq = some merged ∧
      (∀ valuation, merged.holds valuation =
        ((typeIs discriminant).holds valuation && first.holds valuation ||
          Formula.anyHolds valuation rest)) ∧
      (condition.dividesText = true ↔ rest ≠ []) := by
  obtain ⟨tokens, htokens, hread⟩ := Option.bind_eq_some_iff.mp hown
  obtain ⟨first, rest, merged, hformula, hmerged, hholds, hrest⟩ :=
    Formula.ofTokens?_behind_operand (readsOperand_typeIs discriminant) hread
  have htext : (((typeIs discriminant).and condition).groq).toList =
      ((typeIs discriminant).groq ++ " && ").toList ++ condition.groq.toList := by
    rw [groq_typeIs_and, if_neg (by simp [hjoins])]
    simp
  refine ⟨first, rest, merged, hformula, ?_, ?_, ?_⟩
  · rw [Formula.ofText?, htext, (scansAlone_typeIs discriminant).tokens?_append, htokens]
    simpa using hmerged
  · intro valuation
    rw [hholds, holds_normal]
  · rw [← hrest, dividesText, htokens]
    rfl

/-- A structured condition is read back from behind the test of the type. -/
theorem ofText?_typeIs_and_readable (discriminant : String) (hcondition : condition.Readable) :
    Formula.ofText? ((typeIs discriminant).and condition).groq =
      some (.allOf [(typeIs discriminant).normal, condition.normal]) := by
  have hboth := (readable_typeIs discriminant).and hcondition
  exact hboth.ofText?_eq_normal

end Predicate

namespace Query

open Predicate (typeIs)

variable {condition : Predicate} {own : Formula}

/-- The group of a type with a condition means both of them, unless the text of the condition
is divided by a disjunction sign outside all parentheses.  Such a condition is only there as
it was written, and what stands behind the sign is not tied to the type. -/
theorem ofTypeWhere_group (discriminant : String) (condition : Predicate)
    (hown : Formula.ofText? condition.groq = some own) (drawn : Nat) :
    ∃ group merged,
      ((ofTypeWhere discriminant condition).run drawn).1.conditions = [group] ∧
      Formula.ofText? group.groq = some merged ∧
      (condition.Readable ∨ condition.joinsParts = true ∨ condition.dividesText = false →
        ∀ valuation, merged.holds valuation =
          ((typeIs discriminant).holds valuation && own.holds valuation)) ∧
      (condition.joinsParts = false → condition.dividesText = true →
        ∃ first rest, rest ≠ [] ∧ own = .any (first :: rest) ∧
          ∀ valuation, merged.holds valuation =
            ((typeIs discriminant).holds valuation && first.holds valuation ||
              Formula.anyHolds valuation rest)) := by
  have hall (other : Formula) (valuation : Valuation) :
      (Formula.allOf [(typeIs discriminant).normal, other]).holds valuation =
        ((typeIs discriminant).holds valuation && other.holds valuation) := by
    rw [Formula.holds_allOf, Formula.allHold, Formula.allHold, Formula.allHold, Bool.and_true,
      Predicate.holds_normal]
  cases hjoins : condition.joinsParts with
  | true =>
      refine ⟨_, _, rfl, Predicate.ofText?_typeIs_and_enclosed discriminant hjoins hown, ?_, ?_⟩
      · exact fun _ => hall own
      · exact fun hfalse => absurd hfalse (by simp)
  | false =>
      obtain ⟨first, rest, merged, hformula, hmerged, hholds, hdivides⟩ :=
        Predicate.ofText?_typeIs_and_bare discriminant hjoins hown
      refine ⟨_, merged, rfl, hmerged, ?_, ?_⟩
      · rintro (hreadable | hfalse | hwhole)
        · have hnormal := Formula.ofText?_of_readsLevel
            (Formula.tokens?_eq_some hreadable.scans) hreadable.reads.2
          obtain rfl : condition.normal = own := Option.some.inj (hnormal.symm.trans hown)
          have hboth := Predicate.ofText?_typeIs_and_readable discriminant hreadable
          rw [Option.some.inj (hmerged.symm.trans hboth)]
          exact hall condition.normal
        · exact absurd hfalse (by simp)
        · intro valuation
          have hrest : rest = [] := not_ne_iff.mp (mt hdivides.mpr (by simp [hwhole]))
          rw [hholds, hformula, Formula.holds_anyOf, hrest]
          simp [Formula.anyHolds]
      · intro _ hdivided
        obtain ⟨second, more, rfl⟩ := List.exists_cons_of_ne_nil (hdivides.mp hdivided)
        exact ⟨first, second :: more, by simp, hformula, hholds⟩

/-- The condition may be made of any tests that the scanner can tell apart. -/
example :
    let condition := Predicate.verbatim "published || !archived && references(\"x\")"
    (Formula.ofText? condition.groq).isSome = true ∧ condition.dividesText = true := ⟨rfl, rfl⟩

/-- In parentheses, a disjunction is tied to the type as a whole. -/
theorem ofTypeWhere_group_parenthesized :
    let condition := Predicate.verbatim "(genre == \"comedy\" || genre == \"drama\")"
    let own := Formula.any [.compare "genre" .equal (.value (.string "comedy")),
      .compare "genre" .equal (.value (.string "drama"))]
    ∃ group merged, ((ofTypeWhere "movie" condition).run 0).1.conditions = [group] ∧
      Formula.ofText? group.groq = some merged ∧
      ∀ valuation, merged.holds valuation =
        ((typeIs "movie").holds valuation && own.holds valuation) := by
  intro condition own
  have htext : condition.groq = "(genre == \"comedy\" || genre == \"drama\")" := rfl
  have hown : Formula.ofText? condition.groq = some own := by
    rw [htext]
    rfl
  have hwhole : condition.dividesText = false := by
    rw [Predicate.dividesText, htext]
    rfl
  obtain ⟨group, merged, hconditions, hmerged, hholds, -⟩ :=
    ofTypeWhere_group "movie" condition hown 0
  exact ⟨group, merged, hconditions, hmerged, hholds (.inr (.inr hwhole))⟩

/-- A drama that is no movie is in the group for movies that are a comedy or a drama. -/
theorem ofTypeWhere_comedy_or_drama :
    let condition := Predicate.verbatim "genre == \"comedy\" || genre == \"drama\""
    ∃ group merged own valuation,
      ((ofTypeWhere "movie" condition).run 0).1.conditions = [group] ∧
      Formula.ofText? group.groq = some merged ∧ Formula.ofText? condition.groq = some own ∧
      own.holds valuation = true ∧ (typeIs "movie").holds valuation = false ∧
      merged.holds valuation = true := by
  intro condition
  have htext : condition.groq = "genre == \"comedy\" || genre == \"drama\"" := rfl
  have hgroup : ((typeIs "movie").and condition).groq =
      "_type == \"movie\" && genre == \"comedy\" || genre == \"drama\"" := rfl
  have hown : Formula.ofText? condition.groq = some (.any
      [.compare "genre" .equal (.value (.string "comedy")),
        .compare "genre" .equal (.value (.string "drama"))]) := by
    rw [htext]
    rfl
  have hmerged : Formula.ofText? ((typeIs "movie").and condition).groq = some (.any
      [.all [.compare "_type" .equal (.value (.string "movie")),
          .compare "genre" .equal (.value (.string "comedy"))],
        .compare "genre" .equal (.value (.string "drama"))]) := by
    rw [hgroup]
    rfl
  exact ⟨_, _, _, ⟨fun _ => false, fun field _ _ => field == "genre", fun _ => false⟩, rfl, hmerged,
    hown, rfl, rfl, rfl⟩

end Query

end ShapeQuery
