import ShapeQuery.Proofs.Client.Exchange
import ShapeQuery.Proofs.Validation.Conformance
import ShapeQuery.Proofs.Validation.Issues

/-!
# What a strict client hands back

A client with standard settings sends every query once and hands back what conforms to the
schema of the source.  Null always does, since there may be nothing to answer with.
-/

namespace ShapeQuery

/-- The transport together with the requests that it got, oldest first. -/
def Transport.recorded {σ : Type} (transport : Transport σ) : Transport (σ × List Request) :=
  fun query params => modifyGet fun (state, requests) =>
    let (answer, next) := (transport query params).run state
    (answer, next, requests ++ [⟨query, params⟩])

/-- The values that a source may be answered with. -/
inductive Source.Admits : Source → Json → Prop where
  | null {source : Source} : Admits source .null
  | node {schema : Node} {value : Json} : schema.Conforms value → Admits (.node schema) value
  | one {composed : Query .one} {value : Json} :
      composed.schema.Conforms value → Admits (.query composed) value
  | many {composed : Query .many} {items : List Json} :
      (∀ item ∈ items, composed.schema.Conforms item) → Admits (.query composed) (.array items)

namespace Node

variable {schema : Node} {value : Json}

theorem decode_of_accepts (haccepts : schema.Accepts value) : schema.decode value = .ok value :=
  (decode_eq_ok_iff schema value value).mpr ⟨haccepts, rfl⟩

theorem decode_of_not_accepts (haccepts : ¬schema.Accepts value) :
    schema.decode value = .error ⟨schema.check value, value⟩ := by
  unfold decode
  exact if_neg (by simpa [Accepts] using haccepts)

end Node

/-- The schema of the answer says which values are admitted, up to null. -/
theorem Source.admits_iff (source : Source) (drawn : Nat) (value : Json) :
    source.Admits value ↔ value = .null ∨ (source.resultSchema.run drawn).1.Accepts value := by
  constructor
  · intro hvalue
    cases hvalue with
    | null => exact .inl rfl
    | node hconforms => exact .inr ((Node.accepts_iff_conforms _ _).mpr hconforms)
    | one hconforms => exact .inr ((Node.accepts_iff_conforms _ _).mpr hconforms)
    | many hitems =>
        refine .inr ((Node.accepts_array _ _ _).mpr ⟨_, rfl, fun item hitem => ?_⟩)
        exact (Node.accepts_iff_conforms _ _).mpr (hitems item hitem)
  · rintro (rfl | haccepts)
    · exact .null
    · match source with
      | .node schema => exact .node ((Node.accepts_iff_conforms _ _).mp haccepts)
      | @query .one composed =>
          exact .one ((Node.accepts_iff_conforms _ _).mp haccepts)
      | @query .many composed =>
          obtain ⟨items, rfl, hitems⟩ := (Node.accepts_array _ _ _).mp haccepts
          exact .many fun item hitem =>
            (Node.accepts_iff_conforms _ _).mp (hitems item hitem)

namespace Client

variable {σ : Type}

/-- A recorded transport answers like the transport itself, and gets one request. -/
theorem send_recorded (transport : Transport σ) {source : Source} {query : String}
    (hquery : source.groq? = some query) (params : Option Params) (state : σ)
    (requests : List Request) :
    (source.send transport.recorded params).run (state, requests) =
      let sent := (transport query params).run state
      (sent.1, sent.2, requests ++ [⟨query, params⟩]) := by
  rw [Source.send, hquery]
  rfl

theorem judge_of_admits (transport : Transport σ) {source : Source} {drawn : Nat} {value : Json}
    (hvalue : source.Admits value) :
    (ofTransport transport).judge (source.checkedSchema.run drawn).1 value = .ok value := by
  have haccepts : (source.checkedSchema.run drawn).1.Accepts value :=
    (Node.accepts_nullable _ _ _).mpr ((source.admits_iff drawn value).mp hvalue)
  exact judge_of_ok (Node.decode_of_accepts haccepts)

/-- What a source does not admit is turned down, with the issues of the schema of its answer,
and there are some. -/
theorem judge_of_not_admits (transport : Transport σ) {source : Source} {drawn : Nat}
    {value : Json} (hvalue : ¬source.Admits value) :
    (source.resultSchema.run drawn).1.check value ≠ [] ∧
      (ofTransport transport).judge (source.checkedSchema.run drawn).1 value =
        .error (.invalid ((source.resultSchema.run drawn).1.check value)) := by
  rw [source.admits_iff drawn, not_or] at hvalue
  obtain ⟨hnull, hrejects⟩ := hvalue
  have hrejects' : ¬(source.checkedSchema.run drawn).1.Accepts value := by
    intro haccepts
    exact ((Node.accepts_nullable _ _ _).mp haccepts).elim hnull hrejects
  have hcheck : (source.checkedSchema.run drawn).1.check value =
      (source.resultSchema.run drawn).1.check value := Node.check_nullable _ hnull
  refine ⟨hrejects, ?_⟩
  rw [judge_of_error (Node.decode_of_not_accepts hrejects'), hcheck]
  rfl

/-- With standard settings, only what is admitted gets through, and as it is. -/
theorem judge_eq_ok_iff (transport : Transport σ) (source : Source) (drawn : Nat)
    (response value : Json) :
    (ofTransport transport).judge (source.checkedSchema.run drawn).1 response = .ok value ↔
      response = value ∧ source.Admits value := by
  by_cases hadmits : source.Admits response
  · rw [judge_of_admits transport hadmits]
    constructor
    · rintro ⟨⟩
      exact ⟨rfl, hadmits⟩
    · rintro ⟨rfl, -⟩
      rfl
  · rw [(judge_of_not_admits transport hadmits).2]
    constructor
    · exact nofun
    · rintro ⟨rfl, hvalue⟩
      exact absurd hvalue hadmits

/-- The source is sent once, if it has a query.  What the transport answers is handed back as
it is if it is admitted, and otherwise all its issues are the failure; a failure of the
transport is handed on. -/
theorem fetch_sound (transport : Transport σ) (source : Source) (params : Option Params)
    (state : σ) (requests : List Request) (events : List Event) (drawn : Nat) :
    let fetched := (((ofTransport transport.recorded).fetch source params).run
      ⟨(state, requests), events⟩).run drawn
    let result := fetched.1.1
    let schema := (source.resultSchema.run drawn).1
    (source.groq? = none →
      result = .error .missingQuery ∧ fetched.1.2.state = (state, requests)) ∧
    (∀ query, source.groq? = some query →
      let sent := (transport query params).run state
      fetched.1.2.state = (sent.2, requests ++ [⟨query, params⟩]) ∧
      (∀ value, sent.1 = .ok value → ¬source.Admits value →
        schema.check value ≠ [] ∧ result = .error (.invalid (schema.check value))) ∧
      (∀ failure, sent.1 = .error failure → result = .error failure)) ∧
    (∀ value, result = .ok value ↔ ∃ query, source.groq? = some query ∧
      ((transport query params).run state).1 = .ok value ∧ source.Admits value) := by
  intro fetched result schema
  obtain ⟨events', supply, hfetched⟩ :=
    fetch_run (ofTransport transport.recorded) source params ⟨(state, requests), events⟩ drawn
  have hresult : result = ((source.send transport.recorded params).run (state, requests)).1 >>=
      (ofTransport transport.recorded).judge (source.checkedSchema.run drawn).1 :=
    congrArg (·.1.1) hfetched
  have hstate : fetched.1.2.state =
      ((source.send transport.recorded params).run (state, requests)).2 :=
    congrArg (·.1.2.state) hfetched
  cases hquery : source.groq? with
  | none =>
      have hsend : (source.send transport.recorded params).run (state, requests) =
          (.error .missingQuery, (state, requests)) := by
        rw [Source.send, hquery]
        rfl
      rw [hsend] at hresult hstate
      have hmissing : result = .error .missingQuery := hresult
      exact ⟨fun _ => ⟨hmissing, hstate⟩, nofun, by simp [hmissing]⟩
  | some query =>
      rw [send_recorded transport hquery] at hresult hstate
      simp only [Option.some.injEq, reduceCtorEq, false_implies, forall_eq', exists_eq_left',
        true_and]
      cases hanswer : ((transport query params).run state).1 with
      | error failure =>
          have hfailed : result = .error failure := by
            rw [hresult, hanswer]
            rfl
          exact ⟨⟨hstate, nofun, by simp [hfailed]⟩, by simp [hfailed]⟩
      | ok response =>
          have hjudged : result =
              (ofTransport transport.recorded).judge (source.checkedSchema.run drawn).1
                response := by
            rw [hresult, hanswer]
            rfl
          refine ⟨⟨hstate, ?_, nofun⟩, fun value => ?_⟩
          · rintro _ ⟨⟩ hrejects
            rw [hjudged]
            exact judge_of_not_admits transport.recorded hrejects
          · rw [hjudged, judge_eq_ok_iff, Except.ok.injEq]

end Client

end ShapeQuery
