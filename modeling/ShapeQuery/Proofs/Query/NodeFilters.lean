import ShapeQuery.Proofs.Groq.Filters
import ShapeQuery.Proofs.Predicate.OpeningBrackets
import ShapeQuery.Proofs.Validation.Mismatches
import ShapeQuery.Query.Basic
import ShapeQuery.Schema.Derive

/-!
# Conditions as filters of nodes

The text of a condition may be given to a projection as its filter.  A filter without a bracket is
put in brackets, as the condition of a query is.  One with a bracket is taken for a selection that
is in brackets already, and so is the text of a condition with an array among its operands.
-/

namespace ShapeQuery

theorem head?_append_ne {c : Char} {first second : List Char} (hfirst : first.head? ≠ some c)
    (hsecond : second.head? ≠ some c) : (first ++ second).head? ≠ some c := by
  rw [List.head?_append]
  cases hhead : first.head? with
  | none => exact hsecond
  | some head =>
      rw [hhead] at hfirst
      exact hfirst

theorem Json.head?_text_ne_star (value : Json) : value.text.toList.head? ≠ some '*' := by
  intro hstar
  rcases value.text_cases with rfl | hconstant | hopening
  · exact absurd hstar (by decide)
  · have hconstants : ∀ text ∈ ["true", "false"], text.toList.head? ≠ some '*' := by decide
    exact hconstants _ hconstant hstar
  · rw [hstar] at hopening
    exact absurd hopening (by decide)

theorem head?_path_ne_star {name : String} (hname : isPath name.toList = true) :
    name.toList.head? ≠ some '*' := by
  intro hstar
  rcases isAlphanum_of_mem_path hname '*' (List.mem_of_mem_head? hstar) with h | h | h <;>
    exact absurd h (by decide)

namespace Predicate

variable {predicate : Predicate}

/-- Joined conditions do not start with a star unless one of them does. -/
theorem head?_joined_ne_star {operator neutral : String} {parts : List Predicate}
    (hneutral : neutral.toList.head? ≠ some '*')
    (hparts : ∀ part ∈ parts, part.groq.toList.head? ≠ some '*') :
    (joined operator neutral (partTexts parts)).toList.head? ≠ some '*' := by
  cases parts with
  | nil => exact hneutral
  | cons part rest =>
      have hfirst : (if part.joinsParts then "(" ++ part.groq ++ ")" else part.groq).toList.head? ≠
          some '*' := by
        split
        · simp
        · exact hparts part List.mem_cons_self
      cases rest with
      | nil => simpa [joined, partTexts] using hfirst
      | cons next rest =>
          simp only [joined, partTexts, List.isEmpty_cons, Bool.false_eq_true, if_false,
            String.intercalate_cons_cons, String.toList_append, List.append_assoc]
          exact head?_append_ne hfirst (by simp)

/-- The text of a structured condition does not start with a star, which filters drop. -/
theorem Structured.head?_groq_ne_star (hpredicate : predicate.Structured) :
    predicate.groq.toList.head? ≠ some '*' := by
  induction hpredicate with
  | all _ ih => exact head?_joined_ne_star (by decide) ih
  | any _ ih => exact head?_joined_ne_star (by decide) ih
  | not _ _ => simp [groq]
  | defined present _ => cases present <;> simp [groq]
  | @compare field comparison operand hfield hoperand =>
      have hoperand : operand.text.toList.head? ≠ some '*' := by
        cases hoperand with
        | value literal => exact literal.head?_text_ne_star
        | parameter _ => simp [Operand.text]
      have hfield := head?_path_ne_star hfield
      have hsides (first second : String) (hfirst : first.toList.head? ≠ some '*') :
          (first ++ " " ++ comparison.symbol ++ " " ++ second).toList.head? ≠ some '*' := by
        simp only [String.toList_append, List.append_assoc]
        exact head?_append_ne hfirst (by simp)
      cases comparison with
      | contains => exact hsides _ _ hoperand
      | _ => exact hsides _ _ hfield

/-- There is no star to drop from a structured condition. -/
theorem Structured.strip?_groq (hpredicate : predicate.Structured) :
    Filter.strip? predicate.groq = some predicate.groq := by
  have hnonempty : predicate.groq ≠ "" := by
    intro hempty
    obtain ⟨c, hc, -⟩ := hpredicate.exists_isInitial
    simp [hempty] at hc
  rw [Filter.strip?_eq, Filter.unstarred_of_head? hpredicate.head?_groq_ne_star, if_neg hnonempty]

/-- As a filter of a projection, a structured condition selects the first document that meets it,
but only without an opening bracket it is put in brackets for that. -/
theorem Structured.projectionHead_groq (hpredicate : predicate.Structured) :
    (¬predicate.HasOpening →
      Groq.projectionHead ⟨some predicate.groq, none⟩ = "[" ++ predicate.groq ++ "][0]") ∧
    (predicate.HasOpening → Groq.projectionHead ⟨some predicate.groq, none⟩ =
      predicate.groq ++ if Filter.endsInIndex predicate.groq then "" else "[0]") := by
  rw [Groq.projectionHead_of_strip?_eq_some hpredicate.strip?_groq]
  constructor
  · intro hopening
    have hbracket : '[' ∉ predicate.groq.toList := mt hpredicate.opening_mem_groq_iff.mp hopening
    have hindex : ¬Filter.endsInIndex predicate.groq = true :=
      fun hindex => hbracket (Filter.indexed_of_endsInIndex hindex).bracket_mem
    have hbracketed : Filter.bracketed predicate.groq = "[" ++ predicate.groq ++ "]" :=
      if_neg hbracket
    rw [hbracketed, if_neg hindex, String.append_assoc]
    rfl
  · intro hopening
    have hbracketed : Filter.bracketed predicate.groq = predicate.groq :=
      if_pos (hpredicate.opening_mem_groq_iff.mpr hopening)
    rw [hbracketed]
    rfl

end Predicate

namespace Source

/-- A filter puts a head before the text that the projection has without it. -/
theorem groq?_filtered (id : Identity) (properties : List (String × Node))
    (expansion : Option Expansion) (spread : Bool) (filter : String) (drawn : ℕ) :
    let projection := Node.mk id (.projection properties ⟨.none, expansion, spread⟩)
    (node ((projection.derive (.filter filter)).run drawn).1).groq? =
      some ("*" ++ Groq.projectionHead ⟨some filter, none⟩ ++ projection.groq) := by
  intro projection
  let filtered := ((projection.derive (.filter filter)).run drawn).1
  have htext : filtered.groq =
      Groq.projectionHead ⟨some filter, none⟩ ++ projection.groq :=
    Node.groq_projection_eq_head ⟨drawn⟩ properties ⟨⟨some filter, none⟩, expansion, spread⟩
  have hnonempty : filtered.groq ≠ "" := Groq.projection_ne_empty _ _
  rw [groq?, if_neg hnonempty, htext, String.append_assoc]

theorem groq?_composed (condition : Predicate) (projection : Node) (drawn : ℕ) :
    (query (((Query.all.run drawn).1.filter condition).first.grab projection)).groq? =
      some ("*[" ++ condition.groq ++ "][0]" ++ projection.groq) := by
  let composed := ((Query.all.run drawn).1.filter condition).first.grab projection
  have hgroups : String.join ([condition].map Query.conditionText) =
      "[" ++ (condition.groq ++ "]") := by
    simp [Query.conditionText, String.join, String.append_assoc]
  have htext : composed.groq = "*" ++ String.join ([condition].map Query.conditionText) ++
      "[0]" ++ projection.groq := rfl
  rw [groq?, htext, hgroups]
  simp only [String.append_assoc]
  rfl

/-- A projection that is filtered by the text of a structured condition, and the query for the
first document that meets the condition, are the same text exactly when no operand of the condition
has an opening bracket.  Otherwise the projection has the condition as it is, for a selection, and
an index if it does not end in one. -/
theorem filtered_agrees_with_composed_iff (id : Identity) (properties : List (String × Node))
    (expansion : Option Expansion) (spread : Bool) {condition : Predicate}
    (hcondition : condition.Structured) (drawn drawn' : ℕ) :
    let projection := Node.mk id (.projection properties ⟨.none, expansion, spread⟩)
    let filtered := ((projection.derive (.filter condition.groq)).run drawn).1
    let composed := ((Query.all.run drawn').1.filter condition).first.grab projection
    (query composed).groq? = some ("*[" ++ condition.groq ++ "][0]" ++ projection.groq) ∧
    ((node filtered).groq? = (query composed).groq? ↔ ¬condition.HasOpening) ∧
    (condition.HasOpening → (node filtered).groq? = some ("*" ++ condition.groq ++
      (if Filter.endsInIndex condition.groq then "" else "[0]") ++ projection.groq)) := by
  intro projection filtered composed
  obtain ⟨hbare, hopened⟩ := hcondition.projectionHead_groq
  have hfiltered := groq?_filtered id properties expansion spread condition.groq drawn
  have hcomposed := groq?_composed condition projection drawn'
  have hverbatim (hopening : condition.HasOpening) : (node filtered).groq? =
      some ("*" ++ condition.groq ++
        (if Filter.endsInIndex condition.groq then "" else "[0]") ++ projection.groq) := by
    rw [hfiltered, hopened hopening]
    simp only [String.append_assoc]
    rfl
  refine ⟨hcomposed, ⟨fun heq hopening => ?_, fun hopening => ?_⟩, hverbatim⟩
  · -- Without the pair of brackets the text is too short.
    rw [hverbatim hopening, hcomposed, Option.some.injEq] at heq
    have hlength := congrArg String.length heq
    simp only [String.length_append] at hlength
    have hindex : (if Filter.endsInIndex condition.groq then "" else "[0]").length ≤ 3 := by
      split <;> decide
    have hbrackets : ("*[".length, "][0]".length, "*".length) = (2, 4, 1) := rfl
    simp only [Prod.mk.injEq] at hbrackets
    omega
  · rw [hfiltered, hcomposed, hbare hopening]
    simp only [String.append_assoc]
    rfl

/-- A bound and an absence have no brackets, so both ways give one text. -/
theorem filtered_agrees_with_composed_bound_and_absence :
    let condition : Predicate := .all
      [.compare "year" .greater (.value (.ofNat 2000)), .not (.defined "draft" true)]
    let title := Node.mk ⟨0⟩ (.leaf .string)
    let projection := Node.mk ⟨1⟩ (.projection [("title", title)] .none)
    condition.Structured ∧
      (node ((projection.derive (.filter condition.groq)).run 2).1).groq? =
        (query (((Query.all.run 0).1.filter condition).first.grab projection)).groq? := by
  intro condition title projection
  have hstructured : condition.Structured := by
    refine .all fun part hpart => ?_
    rcases List.mem_pair.mp hpart with rfl | rfl
    · exact .compare .greater (by decide) (.value _)
    · exact .not (.defined true (by decide))
  have hbracketless : ¬condition.HasOpening :=
    mt hstructured.opening_mem_groq_iff.mpr (by decide)
  obtain ⟨-, hagree, -⟩ := filtered_agrees_with_composed_iff ⟨1⟩ [("title", title)] none false
    hstructured 2 0
  exact ⟨hstructured, hagree.mpr hbracketless⟩

/-- The array that is compared with is taken for the brackets of a selection. -/
theorem filtered_array_operand_stays_bare :
    let condition := Predicate.compare "genre" .elementOf (.value (.array [.string "drama"]))
    let title := Node.mk ⟨0⟩ (.leaf .string)
    let projection := Node.mk ⟨1⟩ (.projection [("title", title)] .none)
    let filtered := node ((projection.derive (.filter condition.groq)).run 2).1
    let composed := query (((Query.all.run 0).1.filter condition).first.grab projection)
    condition.Structured ∧
      filtered.groq? = some "*genre in [\"drama\"][0]\x7btitle\x7d" ∧
      composed.groq? = some "*[genre in [\"drama\"]][0]\x7btitle\x7d" ∧
      filtered.groq? ≠ composed.groq? := by
  refine ⟨.compare .elementOf (by decide) (.value _), ?_, ?_, ?_⟩ <;> decide

end Source

end ShapeQuery
