import ShapeQuery.Groq.Text
import ShapeQuery.Proofs.Groq.Framing

/-!
# Filters and indices

A filter is written as a bare condition, in brackets, or behind a star.  A projection takes one
document of those that pass its filter, so its text has an index: that of the filter if the filter
ends in one, and otherwise the slice of the projection or the first index.
-/

namespace ShapeQuery

namespace Filter

variable {filter text : String}

def unstarred (filter : String) : String :=
  if filter.toList.head? = some '*' then String.ofList filter.toList.tail else filter

theorem strip?_eq (filter : String) :
    strip? filter = if unstarred filter = "" then none else some (unstarred filter) := by
  unfold strip? unstarred
  split
  · next rest hfilter => simp [hfilter]
  · next hfilter =>
      have hhead : filter.toList.head? ≠ some '*' := by
        intro hhead
        obtain ⟨rest, hrest⟩ := List.head?_eq_some_iff.mp hhead
        exact hfilter rest hrest
      simp [hhead]

theorem unstarred_star (filter : String) : unstarred ("*" ++ filter) = filter := by
  simp [unstarred]

theorem unstarred_of_head? (hfilter : filter.toList.head? ≠ some '*') :
    unstarred filter = filter :=
  if_neg hfilter

/-- Only one star is dropped, and what was behind it stays. -/
theorem strip?_star (filter : String) :
    strip? ("*" ++ filter) = if filter = "" then none else some filter := by
  rw [strip?_eq, unstarred_star]

/-- A text that ends in a bracketed run of decimal digits. -/
def Indexed (text : String) : Prop :=
  ∃ before digits, text.toList = before ++ '[' :: (digits ++ [']']) ∧ digits ≠ [] ∧
    ∀ c ∈ digits, DecimalDigit.isDigit c = true

theorem Indexed.append (htext : Indexed text) (before : String) : Indexed (before ++ text) := by
  obtain ⟨inner, digits, hletters, hdigits⟩ := htext
  refine ⟨before.toList ++ inner, digits, ?_, hdigits⟩
  rw [String.toList_append, hletters, List.append_assoc]

theorem Indexed.bracket_mem (htext : Indexed text) : '[' ∈ text.toList := by
  obtain ⟨before, digits, hletters, -⟩ := htext
  simp [hletters]

theorem indexed_index (position : ℕ) : Indexed (Slice.index position).text := by
  refine ⟨[], Nat.toDigits 10 position, ?_, Groq.toDigits_ne_nil position, fun c hc => ?_⟩
  · simp [Slice.text]
  · exact DecimalDigit.isDigit_of_ascii (Number.isDigit_of_mem_toDigits c hc)

theorem indexed_of_endsInIndex (hindex : endsInIndex filter = true) : Indexed filter := by
  unfold endsInIndex at hindex
  split at hindex
  · next rest hreverse =>
      simp only [Bool.and_eq_true, beq_iff_eq, Bool.not_eq_true', List.isEmpty_eq_false_iff]
        at hindex
      obtain ⟨more, hmore⟩ := List.head?_eq_some_iff.mp hindex.2
      refine ⟨more.reverse, (rest.takeWhile DecimalDigit.isDigit).reverse, ?_, ?_, ?_⟩
      · calc
          filter.toList = filter.toList.reverse.reverse := (List.reverse_reverse _).symm
          _ = (']' :: (rest.takeWhile DecimalDigit.isDigit ++ '[' :: more)).reverse := by
            rw [hreverse, ← hmore, List.takeWhile_append_dropWhile]
          _ = more.reverse ++ '[' :: ((rest.takeWhile DecimalDigit.isDigit).reverse ++ [']']) := by
            simp
      · exact List.reverse_ne_nil_iff.mpr hindex.1
      · intro c hc
        exact List.mem_takeWhile_imp (List.mem_reverse.mp hc)
  · cases hindex

theorem endsInIndex_of_indexed (hfilter : Indexed filter) : endsInIndex filter = true := by
  obtain ⟨before, digits, hletters, hsome, hdigits⟩ := hfilter
  have hreverse : filter.toList.reverse = ']' :: (digits.reverse ++ '[' :: before.reverse) := by
    simp [hletters]
  have hrun : ∀ c ∈ digits.reverse, DecimalDigit.isDigit c = true :=
    fun c hc => hdigits c (List.mem_reverse.mp hc)
  have hbracket : DecimalDigit.isDigit '[' = false := by decide
  simp [endsInIndex, hreverse, List.takeWhile_append_of_pos hrun,
    List.dropWhile_append_of_pos hrun, hbracket, hsome]

/-- The scan from the end finds the texts that end in an index, and only these. -/
theorem endsInIndex_iff (filter : String) : endsInIndex filter = true ↔ Indexed filter :=
  ⟨indexed_of_endsInIndex, endsInIndex_of_indexed⟩

/-- A condition by itself.  One that is all digits would be an index once it stands in brackets. -/
structure Bare (condition : String) : Prop where
  no_bracket : '[' ∉ condition.toList
  no_star : condition.toList.head? ≠ some '*'
  not_digits : ¬∀ c ∈ condition.toList, DecimalDigit.isDigit c = true

/-- The ways to write a condition: bare, in brackets, and both of these behind a star. -/
def spellings (condition : String) : List String :=
  [condition, "*" ++ condition, "[" ++ condition ++ "]", "*[" ++ condition ++ "]"]

namespace Bare

variable {condition spelling : String}

theorem ne_empty (hcondition : Bare condition) : condition ≠ "" := by
  rintro rfl
  exact hcondition.not_digits (List.forall_mem_nil _)

/-- In brackets, a condition is no index. -/
theorem not_indexed (hcondition : Bare condition) : ¬Indexed ("[" ++ condition ++ "]") := by
  rintro ⟨before, digits, hletters, -, hdigits⟩
  have hinside : '[' :: condition.toList = before ++ '[' :: digits := by
    have hclosed : '[' :: condition.toList ++ [']'] = before ++ '[' :: digits ++ [']'] := by
      simpa using hletters
    exact List.append_cancel_right hclosed
  cases before with
  | nil => exact hcondition.not_digits ((List.cons.inj hinside).2 ▸ hdigits)
  | cons first before =>
      apply hcondition.no_bracket
      rw [(List.cons.inj hinside).2]
      simp

/-- Every spelling of a condition comes down to the condition, bare or in brackets. -/
theorem unstarred_spelling (hcondition : Bare condition)
    (hspelling : spelling ∈ spellings condition) :
    unstarred spelling = condition ∨ unstarred spelling = "[" ++ condition ++ "]" := by
  have hbrackets : unstarred ("[" ++ condition ++ "]") = "[" ++ condition ++ "]" :=
    unstarred_of_head? (by simp)
  simp only [spellings, List.mem_cons, List.not_mem_nil, or_false] at hspelling
  rcases hspelling with rfl | rfl | rfl | rfl
  · exact .inl (unstarred_of_head? hcondition.no_star)
  · exact .inl (unstarred_star condition)
  · exact .inr hbrackets
  · exact .inr (unstarred_star ("[" ++ condition ++ "]"))

/-- Every spelling of a condition is a filter, is written in brackets and has no index. -/
theorem strip?_spelling (hcondition : Bare condition)
    (hspelling : spelling ∈ spellings condition) :
    ∃ filter, strip? spelling = some filter ∧ bracketed filter = "[" ++ condition ++ "]" ∧
      endsInIndex filter = false := by
  rcases hcondition.unstarred_spelling hspelling with hbare | hbrackets
  · refine ⟨condition, ?_, if_neg hcondition.no_bracket, ?_⟩
    · rw [strip?_eq, hbare, if_neg hcondition.ne_empty]
    · rw [← Bool.not_eq_true, endsInIndex_iff]
      exact fun hindex => hcondition.no_bracket hindex.bracket_mem
  · refine ⟨"[" ++ condition ++ "]", ?_, if_pos (by simp), ?_⟩
    · rw [strip?_eq, hbrackets, if_neg (by simp)]
    · rw [← Bool.not_eq_true, endsInIndex_iff]
      exact hcondition.not_indexed

end Bare

end Filter

namespace Groq

variable {filter rest condition spelling : String}

theorem projectionHead_of_strip?_eq_none (hfilter : Filter.strip? filter = none)
    (slice : Option Slice) : projectionHead ⟨some filter, slice⟩ = sliceText slice := by
  simp only [projectionHead, filterOf, Option.bind_some, hfilter]

theorem projectionHead_of_strip?_eq_some (hfilter : Filter.strip? filter = some rest)
    (slice : Option Slice) : projectionHead ⟨some filter, slice⟩ = Filter.bracketed rest ++
      if Filter.endsInIndex rest then "" else (slice.getD (.index 0)).text := by
  simp only [projectionHead, filterOf, Option.bind_some, hfilter]

/-- A projection has one head for all spellings of a condition. -/
theorem projectionHead_spelling (hcondition : Filter.Bare condition)
    (hspelling : spelling ∈ Filter.spellings condition) (slice : Option Slice) :
    projectionHead ⟨some spelling, slice⟩ =
      "[" ++ condition ++ "]" ++ (slice.getD (.index 0)).text := by
  obtain ⟨rest, hstrip, hbracketed, hindex⟩ := hcondition.strip?_spelling hspelling
  rw [projectionHead_of_strip?_eq_some hstrip, hbracketed, hindex]
  rfl

/-- A collection has one head for them as well. -/
theorem collectionHead_spelling (hcondition : Filter.Bare condition)
    (hspelling : spelling ∈ Filter.spellings condition) (slice : Option Slice) :
    collectionHead ⟨some spelling, slice⟩ = "[" ++ condition ++ "]" ++ sliceText slice := by
  obtain ⟨rest, hstrip, hbracketed, -⟩ := hcondition.strip?_spelling hspelling
  simp only [collectionHead, filterOf, Option.bind_some, hstrip, filterText, Option.map_some,
    Option.getD_some, hbracketed]
  rfl

end Groq

namespace Node

variable {filter spelling : String}

/-- The text of a projection is a head in front of the text that it has without filter and slice. -/
theorem groq_projection_eq_head (id : Identity) (properties : List (String × Node))
    (options : ProjectionOptions) :
    (mk id (.projection properties options)).groq = Groq.projectionHead options.toNarrowing ++
      (mk id (.projection properties { options with filter := none, slice := none })).groq := by
  have hbody : (mk id (.projection properties
      { options with filter := none, slice := none })).groq = "" ++ _ := rfl
  rw [hbody, String.empty_append]
  rfl

theorem groq_collection_spelling (hfilter : Filter.Bare filter)
    (hspelling : spelling ∈ Filter.spellings filter) (id : Identity) (element : Node)
    (narrowing : Narrowing) :
    (mk id (.collection element { narrowing with filter := some spelling })).groq =
      (mk id (.collection element { narrowing with filter := some filter })).groq := by
  have hself : filter ∈ Filter.spellings filter := List.mem_cons_self
  have hhead : Groq.collectionHead { narrowing with filter := some spelling } =
      Groq.collectionHead { narrowing with filter := some filter } := by
    rw [Groq.collectionHead_spelling hfilter hspelling, Groq.collectionHead_spelling hfilter hself]
  simp only [groq, Kind.groq, Groq.collection, hhead]

/-- A filter that is not empty makes a projection take one document.  The index is that of the
filter, if the filter ends in one, and otherwise the one of the projection or the first; a filter
without brackets is put in brackets.  A condition by itself may be written with or without star and
brackets, also as the filter of a collection. -/
theorem groq_filtered (id : Identity) (properties : List (String × Node))
    (options : ProjectionOptions) (filter : String) :
    let filtered := fun filter : String =>
      (mk id (.projection properties { options with filter := some filter })).groq
    let unfiltered := (mk id (.projection properties { options with filter := none })).groq
    let body := (mk id (.projection properties
      { options with filter := none, slice := none })).groq
    let rest := Filter.unstarred filter
    (rest = "" → filtered filter = unfiltered) ∧
    (Filter.Indexed rest → filtered filter = rest ++ body) ∧
    (rest ≠ "" → ¬Filter.Indexed rest →
      filtered filter = (if '[' ∈ rest.toList then rest else "[" ++ rest ++ "]") ++
        (options.slice.getD (.index 0)).text ++ body) ∧
    (rest ≠ "" → (∀ start stop, options.slice ≠ some (.range start stop)) →
      ∃ head, filtered filter = head ++ body ∧ Filter.Indexed head) ∧
    (Filter.Bare filter → ∀ spelling ∈ Filter.spellings filter,
      filtered spelling = filtered filter ∧
      ∀ id element (narrowing : Narrowing),
        (mk id (.collection element { narrowing with filter := some spelling })).groq =
          (mk id (.collection element { narrowing with filter := some filter })).groq) := by
  intro filtered unfiltered body rest
  have hfiltered (filter : String) :
      filtered filter = Groq.projectionHead ⟨some filter, options.slice⟩ ++ body :=
    groq_projection_eq_head id properties { options with filter := some filter }
  have hstrip (hrest : rest ≠ "") : Filter.strip? filter = some rest := by
    rw [Filter.strip?_eq, if_neg hrest]
  have hindexed (hindex : Filter.Indexed rest) : filtered filter = rest ++ body := by
    have hrest : rest ≠ "" := by
      rintro hempty
      rw [hempty] at hindex
      exact absurd hindex.bracket_mem (by decide)
    have hverbatim : Filter.bracketed rest = rest := if_pos hindex.bracket_mem
    rw [hfiltered, Groq.projectionHead_of_strip?_eq_some (hstrip hrest),
      (Filter.endsInIndex_iff rest).mpr hindex, hverbatim, if_pos rfl, String.append_empty]
  have hunindexed (hrest : rest ≠ "") (hindex : ¬Filter.Indexed rest) : filtered filter =
      Filter.bracketed rest ++ (options.slice.getD (.index 0)).text ++ body := by
    rw [hfiltered, Groq.projectionHead_of_strip?_eq_some (hstrip hrest), if_neg]
    rwa [Filter.endsInIndex_iff]
  refine ⟨fun hrest => ?_, hindexed, hunindexed, fun hrest hslice => ?_, fun hbare => ?_⟩
  · have hnone : Filter.strip? filter = none := by rw [Filter.strip?_eq, if_pos hrest]
    rw [hfiltered, Groq.projectionHead_of_strip?_eq_none hnone]
    exact (groq_projection_eq_head id properties { options with filter := none }).symm
  · by_cases hindex : Filter.Indexed rest
    · exact ⟨rest, hindexed hindex, hindex⟩
    · refine ⟨_, hunindexed hrest hindex, Filter.Indexed.append ?_ _⟩
      match hgiven : options.slice with
      | none => exact Filter.indexed_index 0
      | some (.index position) => exact Filter.indexed_index position
      | some (.range start stop) => exact absurd hgiven (hslice start stop)
  · intro spelling hspelling
    have hself : filter ∈ Filter.spellings filter := List.mem_cons_self
    refine ⟨?_, groq_collection_spelling hbare hspelling⟩
    rw [hfiltered, hfiltered, Groq.projectionHead_spelling hbare hspelling,
      Groq.projectionHead_spelling hbare hself]

/-- An index in digits of another script, and a condition that ends in digits. -/
theorem groq_filtered_other_digits :
    let filtered := fun filter =>
      (mk ⟨0⟩ (.projection [("name", mk ⟨1⟩ (.leaf .string))]
        ⟨⟨some filter, some (.index 2)⟩, none, false⟩)).groq
    (Filter.Indexed "[year > 1990][\u0663]" ∧ Filter.Bare "year > 1990") ∧
      filtered "*[year > 1990][\u0663]" = "[year > 1990][\u0663]\x7bname\x7d" ∧
      ∀ spelling ∈ Filter.spellings "year > 1990",
        filtered spelling = "[year > 1990][2]\x7bname\x7d" := by
  intro filtered
  let properties := [("name", mk ⟨1⟩ (.leaf .string))]
  let options : ProjectionOptions := ⟨⟨none, some (.index 2)⟩, none, false⟩
  have hindexed : Filter.Indexed "[year > 1990][\u0663]" :=
    (Filter.endsInIndex_iff _).mp (by decide)
  have hbare : Filter.Bare "year > 1990" :=
    ⟨by decide, by decide, fun hdigits => absurd (hdigits 'y' (by decide)) (by decide)⟩
  obtain ⟨-, hverbatim, -⟩ :=
    groq_filtered ⟨0⟩ properties options "*[year > 1990][\u0663]"
  obtain ⟨-, -, -, -, hspellings⟩ := groq_filtered ⟨0⟩ properties options "year > 1990"
  have hself : filtered "year > 1990" = "[year > 1990][2]\x7bname\x7d" := by decide
  refine ⟨⟨hindexed, hbare⟩, (hverbatim hindexed).trans (by decide), ?_⟩
  intro spelling hspelling
  exact (hspellings hbare spelling hspelling).1.trans hself

end Node

end ShapeQuery
