import ShapeQuery.Proofs.Client.Exchange
import ShapeQuery.Proofs.Groq.Filters
import ShapeQuery.Proofs.Query.Readability
import ShapeQuery.Schema.Derive

/-!
# Two routes to one document

A projection that is narrowed by a filter and an index says the same as a query with these
conditions and this index that projects by it.  The text of the node goes through the rules
for filters, which drop the star, keep what has brackets as it is, and leave out an index
behind a filter that ends in one.  Structured conditions never look like an index.
-/

namespace ShapeQuery

namespace DecimalDigit

variable {c : Char}

/-- Decimal digits that are not ASCII digits lie behind all of ASCII. -/
theorem ascii_or_le_of_isDigit (hc : isDigit c = true) : c.isDigit = true ∨ 0x80 ≤ c.toNat := by
  have hzeros : ∀ first ∈ zeros, first = 0x30 ∨ 0x80 ≤ first := by decide
  obtain ⟨first, hfirst, hbounds⟩ := List.any_eq_true.mp hc
  simp only [Bool.and_eq_true, decide_eq_true_eq] at hbounds
  rcases hzeros first hfirst with rfl | hlarge
  · left
    simp only [Char.isDigit, Bool.and_eq_true, decide_eq_true_eq, ge_iff_le,
      UInt32.le_iff_toNat_le]
    have hlow : 48 ≤ c.toNat := hbounds.1
    have hhigh : c.toNat < 58 := hbounds.2
    exact ⟨hlow, Nat.le_of_lt_succ hhigh⟩
  · right
    omega

theorem isOrdinary (hc : isDigit c = true) : Brackets.IsOrdinary c := by
  intro hmem
  simp only [List.mem_cons, List.not_mem_nil, or_false] at hmem
  rcases hmem with rfl | rfl | rfl | rfl | rfl | rfl | rfl | rfl <;> exact absurd hc (by decide)

theorem not_isInitial (hc : isDigit c = true) : ¬Predicate.IsInitial c := by
  intro hinitial
  rcases ascii_or_le_of_isDigit hc with hdigit | hlarge
  · rw [hinitial.isDigit_eq_false] at hdigit
    cases hdigit
  · rcases hinitial with halpha | rfl
    · simp only [Char.isAlpha, Char.isUpper, Char.isLower, Bool.or_eq_true, Bool.and_eq_true,
        decide_eq_true_eq, ge_iff_le, UInt32.le_iff_toNat_le] at halpha
      change 128 ≤ c.val.toNat at hlarge
      rcases halpha with ⟨-, hhigh⟩ | ⟨-, hhigh⟩
      · change c.val.toNat ≤ 90 at hhigh
        omega
      · change c.val.toNat ≤ 122 at hhigh
        omega
    · exact absurd hlarge (by decide)

end DecimalDigit

namespace Query

variable {conditions : List Predicate} {filter : String}

/-- The last group of structured conditions is no index: it has a letter or an underscore, and
brackets within it are closed before it ends. -/
theorem endsInIndex_groups (hconditions : ∀ condition ∈ conditions, condition.Structured)
    (hfilter : filter.toList = groupsText conditions) : Filter.endsInIndex filter = false := by
  refine Bool.eq_false_iff.mpr fun hindex => ?_
  obtain ⟨before, digits, hletters, -, hdigits⟩ := Filter.indexed_of_endsInIndex hindex
  rcases List.eq_nil_or_concat conditions with rfl | ⟨init, last, rfl⟩
  · rw [hletters] at hfilter
    simp [groupsText] at hfilter
  · have hlast : last.Structured := hconditions last (by simp)
    obtain ⟨c, hc, hinitial⟩ := hlast.exists_isInitial
    have hdigitless : c ∉ digits := fun hmem => DecimalDigit.not_isInitial (hdigits c hmem) hinitial
    have hgroups : groupsText init ++ '[' :: last.groq.toList = before ++ '[' :: digits := by
      rw [hletters] at hfilter
      have hclosed : groupsText init ++ '[' :: last.groq.toList ++ [']'] =
          before ++ '[' :: digits ++ [']'] := by
        simpa [groupsText] using hfilter.symm
      exact List.append_cancel_right hclosed
    -- The bracket of the index is that of the last group, or lies in it, or lies before it.
    rcases List.append_eq_append_iff.mp hgroups with ⟨more, -, hmore⟩ | ⟨more, -, hmore⟩
    · cases more with
      | nil =>
          rw [(List.cons.inj hmore).2] at hc
          exact hdigitless hc
      | cons head more =>
          have hpasses := hlast.passes_groq
          rw [(List.cons.inj hmore).2] at hpasses
          exact Brackets.not_passes_append_opening rfl
            (fun c hc => DecimalDigit.isOrdinary (hdigits c hc)) hpasses
    · have hmem : c ∈ '[' :: digits := by
        rw [hmore]
        simp [hc]
      rcases List.mem_cons.mp hmem with rfl | hmem
      · exact absurd hinitial (by decide)
      · exact hdigitless hmem

/-- Behind the star, a selection by structured conditions stays as it is. -/
theorem projectionHead_selection (hconditions : ∀ condition ∈ conditions, condition.Structured)
    (position : ℕ) :
    Groq.projectionHead ⟨some ("*" ++ String.join (conditions.map conditionText)),
        some (.index position)⟩ =
      String.join (conditions.map conditionText) ++ (Slice.index position).text := by
  have hletters := toList_conditionTexts conditions
  generalize String.join (conditions.map conditionText) = selection at hletters ⊢
  have hfilterOf : Groq.filterOf ⟨some ("*" ++ selection), some (.index position)⟩ =
      if selection = "" then none else some selection := Filter.strip?_star selection
  rw [Groq.projectionHead, hfilterOf]
  by_cases hempty : selection = ""
  · simp [hempty, Groq.sliceText]
  · have hbracket : '[' ∈ selection.toList := by
      cases conditions with
      | nil => exact absurd (String.toList_eq_nil_iff.mp hletters) hempty
      | cons condition rest => simp [hletters, groupsText]
    have hbracketed : Filter.bracketed selection = selection := if_pos hbracket
    simp [hempty, hbracketed, endsInIndex_groups hconditions hletters]

theorem foldl_filter {arity : Arity} (query : Query arity) (conditions : List Predicate) :
    conditions.foldl Query.filter query =
      { query with conditions := query.conditions ++ conditions } := by
  induction conditions generalizing query with
  | nil => simp
  | cons condition rest ih =>
      rw [List.foldl_cons, ih]
      simp [Query.filter]

end Query

namespace Source

/-- For a projection without filter and slice, a filter by structured conditions and an index
give the same text as the query by these conditions for the result at the index.  Every response
has the same issues either way, so the same is fetched. -/
theorem narrowed_agrees_with_composed (id : Identity) (properties : List (String × Node))
    (expansion : Option Expansion) (spread : Bool) {conditions : List Predicate}
    (hconditions : ∀ condition ∈ conditions, condition.Structured)
    (position drawn drawn' : ℕ) :
    let projection := Node.mk id (.projection properties ⟨.none, expansion, spread⟩)
    let selection :=
      "*" ++ String.join (conditions.map fun condition => "[" ++ condition.groq ++ "]")
    let narrowed := ((projection.deriveAll
      [.filter selection, .slice (.index position)]).run drawn).1
    let composed := ((conditions.foldl Query.filter (Query.all.run drawn').1).nth position).grab
      projection
    (∃ text, (node narrowed).groq? = some text ∧ (query composed).groq? = some text) ∧
    (∀ drawn value, ((node narrowed).resultSchema.run drawn).1.check value =
      ((query composed).resultSchema.run drawn).1.check value) ∧
    ∀ {σ : Type} (transport : Transport σ) (settings : Settings) (params : Option Params),
      let client : Client σ := ⟨transport, Node.decode, settings⟩
      client.fetch (node narrowed) params = client.fetch (query composed) params := by
  intro projection selection narrowed composed
  have hcomposed : composed = ⟨projection, some (.index position), conditions⟩ := by
    have hall : (Query.all.run drawn').1.conditions = [] := rfl
    simp [composed, Query.foldl_filter, Query.nth, Query.grab, hall]
  have htext : "*" ++ narrowed.groq = composed.groq := by
    -- The projection by itself has no head, so its text is the body that narrowing leaves alone.
    let body := Groq.projection ⟨.none, expansion, spread⟩ (fieldTexts properties)
    have hnarrowed : narrowed.groq =
        Groq.projectionHead ⟨some selection, some (.index position)⟩ ++ body := rfl
    have hhead := Query.projectionHead_selection hconditions position
    change Groq.projectionHead ⟨some selection, some (.index position)⟩ = _ at hhead
    rw [hcomposed, hnarrowed, hhead, Query.groq, String.append_assoc, String.append_assoc,
      String.append_assoc]
    rfl
  have hsome : (node narrowed).groq? = some composed.groq := by
    have hnonempty : narrowed.groq ≠ "" := Groq.projection_ne_empty _ _
    rw [groq?, if_neg hnonempty, htext]
  have hchecks (value : Json) (path : String) (issues : Array Issue) :
      narrowed.checkInto value path issues = composed.schema.checkInto value path issues := by
    rw [hcomposed]
    rfl
  refine ⟨⟨composed.groq, hsome, rfl⟩, ?_, ?_⟩
  · intro drawn value
    exact congrArg Array.toList (hchecks value "" #[])
  · intro σ transport settings params
    refine Client.fetch_congr hsome ?_ params
    funext drawn
    have hdecode : Node.decode (.mk ⟨drawn⟩ (.nullable narrowed)) =
        Node.decode (.mk ⟨drawn⟩ (.nullable composed.schema)) := by
      funext value
      have hchecked : Node.check (.mk ⟨drawn⟩ (.nullable narrowed)) value =
          Node.check (.mk ⟨drawn⟩ (.nullable composed.schema)) value := by
        simp only [Node.check, Node.checkInto, Kind.checkInto, hchecks]
      rw [Node.decode, Node.decode, hchecked]
    exact congrArg (fun decode => (decode, drawn + 1)) hdecode

/-- The operand has brackets of its own, and the index stays behind the condition. -/
theorem narrowed_agrees_with_composed_array_operand :
    let recent := Predicate.compare "year" .elementOf (.value (.array [.ofNat 12]))
    let projection := Node.mk ⟨0⟩ (.projection [] ⟨.none, none, true⟩)
    let narrowed := ((projection.deriveAll
      [.filter "*[year in [12]]", .slice (.index 3)]).run 1).1
    let composed := (([recent].foldl Query.filter (Query.all.run 1).1).nth 3).grab projection
    recent.Structured ∧
      (node narrowed).groq? = some "*[year in [12]][3]\x7b...\x7d" ∧
      (query composed).groq? = some "*[year in [12]][3]\x7b...\x7d" := by
  intro recent projection narrowed composed
  have hrecent : recent.Structured := .compare .elementOf (by decide) (.value _)
  have hcomposed : (query composed).groq? = some "*[year in [12]][3]\x7b...\x7d" := by decide
  have hconditions : ∀ condition ∈ [recent], condition.Structured := by
    intro condition hcondition
    rw [List.mem_singleton.mp hcondition]
    exact hrecent
  obtain ⟨⟨text, hnarrowed, htext⟩, -⟩ :=
    narrowed_agrees_with_composed ⟨0⟩ [] none true hconditions 3 1 1
  have hselection :
      "*" ++ String.join ([recent].map fun condition => "[" ++ condition.groq ++ "]") =
        "*[year in [12]]" := by decide
  rw [hselection] at hnarrowed
  refine ⟨hrecent, ?_, hcomposed⟩
  rw [hnarrowed, ← htext, hcomposed]

end Source

end ShapeQuery
