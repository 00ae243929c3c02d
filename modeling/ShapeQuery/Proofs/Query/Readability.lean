import ShapeQuery.Proofs.Query.WellBracketed

/-!
# Queries are determined by their text

The groups of a query, its slice and its schema stand next to each other with nothing between
them.  A group ends where its bracket is closed, and the slice is the first group without a
letter or an underscore, so the text of a composed query shows where its parts begin.
-/

namespace ShapeQuery

def Slice.arity : Option Slice → Arity
  | some (.index _) => .one
  | _ => .many

namespace Query

variable {arity arity' : Arity} {query : Query arity} {query' : Query arity'}

/-- The queries that are composed of structured conditions, slices and any schemas. -/
inductive Composed : {arity : Arity} → Query arity → Prop where
  | all (drawn : ℕ) : Composed (all.run drawn).1
  | ofType (discriminant : String) (drawn : ℕ) : Composed ((ofType discriminant).run drawn).1
  | ofTypeWhere (discriminant : String) {condition : Predicate} (drawn : ℕ) :
      condition.Structured → Composed ((ofTypeWhere discriminant condition).run drawn).1
  | filter {arity : Arity} {query : Query arity} {condition : Predicate} :
      Composed query → condition.Structured → Composed (query.filter condition)
  | grab {arity : Arity} {query : Query arity} (schema : Node) :
      Composed query → Composed (query.grab schema)
  | range {query : Query .many} (start stop : ℕ) :
      Composed query → Composed (query.range start stop)
  | nth {query : Query .many} (position : ℕ) : Composed query → Composed (query.nth position)
  | first {query : Query .many} : Composed query → Composed query.first

/-- What every operation keeps: the conditions are structured, and the slice is one that
leaves the arity. -/
structure Sound (query : Query arity) : Prop where
  conditions : ∀ condition ∈ query.conditions, condition.Structured
  slice : Slice.arity query.slice = arity

theorem Sound.filter {condition : Predicate} (hquery : query.Sound)
    (hcondition : condition.Structured) : (query.filter condition).Sound where
  conditions := by
    intro other hother
    rcases List.mem_append.mp hother with hother | hother
    · exact hquery.conditions other hother
    · rw [List.mem_singleton.mp hother]
      exact hcondition
  slice := hquery.slice

theorem sound_all (drawn : ℕ) : (all.run drawn).1.Sound where
  conditions := nofun
  slice := rfl

/-- All ways to compose a query keep it sound. -/
theorem Composed.sound (hquery : query.Composed) : query.Sound := by
  induction hquery with
  | all drawn => exact sound_all drawn
  | ofType discriminant drawn =>
      exact (sound_all drawn).filter (Predicate.structured_typeIs discriminant)
  | ofTypeWhere discriminant drawn hcondition =>
      exact (sound_all drawn).filter ((Predicate.structured_typeIs discriminant).and hcondition)
  | filter _ hcondition ih => exact ih.filter hcondition
  | grab schema _ ih => exact ⟨ih.conditions, ih.slice⟩
  | range start stop _ ih => exact ⟨ih.conditions, rfl⟩
  | nth position _ ih => exact ⟨ih.conditions, rfl⟩
  | first _ ih => exact ⟨ih.conditions, rfl⟩

/-! ## The text of a query -/

def groupsText (conditions : List Predicate) : List Char :=
  conditions.flatMap fun condition => '[' :: (condition.groq.toList ++ [']'])

theorem toList_conditionTexts (conditions : List Predicate) :
    (String.join (conditions.map conditionText)).toList = groupsText conditions := by
  rw [String.toList_join, List.flatMap_map]
  simp [conditionText, groupsText]

theorem toList_sliceText (slice : Option Slice) :
    (sliceText slice).toList = Groq.bracketed slice := by
  cases slice with
  | none => rfl
  | some slice => exact Groq.toList_sliceText slice

theorem toList_groq (query : Query arity) :
    query.groq.toList = '*' :: (groupsText query.conditions ++
      (Groq.bracketed query.slice ++ query.schema.groq.toList)) := by
  simp only [groq, String.toList_append, toList_conditionTexts, toList_sliceText,
    List.append_assoc]
  rfl

/-! ## Where the parts end -/

/-- A structured condition has a letter or an underscore, which no slice has. -/
theorem groq_ne_sliceDigits {condition : Predicate} (hcondition : condition.Structured)
    (slice : Option Slice) : condition.groq.toList ≠ Groq.sliceDigits slice := by
  intro heq
  obtain ⟨c, hc, hinitial⟩ := hcondition.exists_isInitial
  rw [heq] at hc
  rcases Groq.mem_sliceDigits hc with hdigit | rfl
  · rw [hinitial.isDigit_eq_false] at hdigit
    cases hdigit
  · exact absurd hinitial (by decide)

variable {conditions conditions' : List Predicate} {slice slice' : Option Slice}
  {rest rest' : List Char}

/-- The first group of structured conditions is never the slice. -/
theorem bracketed_append_ne_groups {condition : Predicate} (hcondition : condition.Structured) :
    Groq.bracketed slice ++ rest ≠ groupsText (condition :: conditions) ++ rest' := by
  intro heq
  simp only [Groq.bracketed, groupsText, List.flatMap_cons, List.cons_append, List.append_assoc,
    List.nil_append, List.cons.injEq, true_and] at heq
  obtain ⟨hgroup, -⟩ := Brackets.Passes.append_closer_inj (Groq.passes_sliceDigits slice)
    hcondition.passes_groq rfl heq
  exact groq_ne_sliceDigits hcondition slice hgroup.symm

/-- Conditions in brackets and the slice behind them are determined by the text that they
begin, whatever follows. -/
theorem groups_append_inj (hconditions : ∀ condition ∈ conditions, condition.Structured)
    (hconditions' : ∀ condition ∈ conditions', condition.Structured)
    (heq : groupsText conditions ++ (Groq.bracketed slice ++ rest) =
      groupsText conditions' ++ (Groq.bracketed slice' ++ rest')) :
    conditions.map Predicate.groq = conditions'.map Predicate.groq ∧
      slice = slice' ∧ rest = rest' := by
  induction conditions generalizing conditions' with
  | nil =>
      cases conditions' with
      | nil => exact ⟨rfl, Groq.bracketed_append_inj heq⟩
      | cons condition' conditions' =>
          exact absurd heq (bracketed_append_ne_groups (List.forall_mem_cons.mp hconditions').1)
  | cons condition conditions ih =>
      obtain ⟨hcondition, hconditions⟩ := List.forall_mem_cons.mp hconditions
      cases conditions' with
      | nil => exact absurd heq.symm (bracketed_append_ne_groups hcondition)
      | cons condition' conditions' =>
          obtain ⟨hcondition', hconditions'⟩ := List.forall_mem_cons.mp hconditions'
          simp only [groupsText, List.flatMap_cons, List.cons_append, List.append_assoc,
            List.nil_append, List.cons.injEq, true_and] at heq
          obtain ⟨hgroup, hafter⟩ := Brackets.Passes.append_closer_inj
            hcondition.passes_groq hcondition'.passes_groq rfl heq
          obtain ⟨htexts, hslice, hrest⟩ := ih hconditions hconditions' hafter
          refine ⟨?_, hslice, hrest⟩
          rw [List.map_cons, List.map_cons, String.toList_inj.mp hgroup, htexts]

/-- Composed queries with the same text have the same arity, the same slice, conditions with
the same texts in the same order, and schemas with the same text. -/
theorem parts_eq_of_groq_eq (hquery : query.Composed) (hquery' : query'.Composed)
    (heq : query.groq = query'.groq) :
    arity = arity' ∧ query.slice = query'.slice ∧
      query.conditions.map Predicate.groq = query'.conditions.map Predicate.groq ∧
      query.schema.groq = query'.schema.groq := by
  have hletters := congrArg String.toList heq
  rw [toList_groq, toList_groq, List.cons.injEq] at hletters
  obtain ⟨hconditions, hslice, hschema⟩ :=
    groups_append_inj hquery.sound.conditions hquery'.sound.conditions hletters.2
  refine ⟨?_, hslice, hconditions, String.toList_inj.mp hschema⟩
  calc
    arity = Slice.arity query.slice := hquery.sound.slice.symm
    _ = Slice.arity query'.slice := by rw [hslice]
    _ = arity' := hquery'.sound.slice

/-- Two chains to one text, with an operand that spells the end of a condition and an index. -/
theorem parts_eq_brackets_in_operand :
    let condition := Predicate.compare "title" .equal (.value (.string "\"][0]"))
    let titles := Node.mk ⟨1⟩ (.collection (.mk ⟨2⟩ (.leaf .string)) .none)
    let direct := ((all.run 0).1.filter condition).first.grab titles
    let wrapped := (((((all.run 3).1.range 0 3).grab titles).nth 0).filter (.all [condition]))
    direct.groq = wrapped.groq ∧ direct.slice = wrapped.slice ∧
      direct.conditions.map Predicate.groq = wrapped.conditions.map Predicate.groq ∧
      direct.schema.groq = wrapped.schema.groq := by
  intro condition titles direct wrapped
  have hcondition : condition.Structured := .compare .equal (by decide) (.value _)
  have hall : (Predicate.all [condition]).Structured := by
    refine .all fun part hpart => ?_
    rw [List.mem_singleton.mp hpart]
    exact hcondition
  have hdirect : direct.Composed := (((Composed.all 0).filter hcondition).first).grab titles
  have hwrapped : wrapped.Composed :=
    ((((Composed.all 3).range 0 3).grab titles).nth 0).filter hall
  have heq : direct.groq = wrapped.groq := by decide
  exact ⟨heq, (parts_eq_of_groq_eq hdirect hwrapped heq).2⟩

end Query

end ShapeQuery
