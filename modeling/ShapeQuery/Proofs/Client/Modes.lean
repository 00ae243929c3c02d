import ShapeQuery.Proofs.Client.Exchange
import ShapeQuery.Transport.Scripted

/-!
# The mode of a client

The mode says what becomes of a response that was turned down, and nothing else.  Clients
that differ in their mode only leave their transport in the same state step by step, and
what a step gives differs only where the decoder turned the response down.

Every run draws identities of its own for the schemas it checks against, so runs can only be
compared if the decoder does not look at them.
-/

namespace ShapeQuery

/-- What is expected of a decoder: a response that it turns down is handed back as it came,
and the identities that are drawn for a schema make no difference. -/
structure Decoder.Faithful (decoder : Decoder) : Prop where
  handsBack : ∀ {schema : Node} {response : Json} {rejection : Rejection},
    decoder schema response = .error rejection → rejection.value = response
  ignoresSupply : ∀ (source : Source) (drawn drawn' : Nat) (response : Json),
    decoder (source.checkedSchema.run drawn).1 response =
      decoder (source.checkedSchema.run drawn').1 response

/-- The check of responses as they are is faithful. -/
theorem Node.decode_faithful : Decoder.Faithful Node.decode := by
  constructor
  · intro schema response rejection hdecode
    unfold decode at hdecode
    dsimp only at hdecode
    split at hdecode
    · exact nomatch hdecode
    · exact congrArg Rejection.value (Except.error.inj hdecode).symm
  · intro source drawn drawn' response
    match source with
    | .node schema => rfl
    | @Source.query .one composed => rfl
    | @Source.query .many composed => rfl

def Client.scripted (decoder : Decoder) (mode : Mode) : Client Scripted :=
  ⟨Scripted.fetch, decoder, ⟨mode⟩⟩

/-- One step in the use of a client with a scripted transport. -/
inductive Interaction : Type 1 where
  | act (action : Scripted.Action)
  | fetch (source : Source) (params : Option Params)
  | fetchAs {α : Type} (read : Reading α) (source : Source) (params : Option Params)

namespace Interaction

abbrev Outcome : Interaction → Type
  | act _ => Unit
  | fetch _ _ => Except Failure Json
  | @fetchAs α _ _ _ => Except Failure α

def take (client : Client Scripted) : (step : Interaction) → Session Scripted step.Outcome
  | act action => Session.onState (modify fun transport => transport.act action)
  | fetch source params => client.fetch source params
  | fetchAs read source params => client.fetchAs read source params

def takeAll (client : Client Scripted) : List Interaction → Session Scripted Unit
  | [] => return ()
  | step :: rest => do
      let _ ← step.take client
      takeAll client rest

def conclude : (step : Interaction) → Except Failure Json → step.Outcome
  | act _, _ => ()
  | fetch _ _, result => result
  | fetchAs read _ _, result => result >>= read.outcome

def asks? : Interaction → Option (Source × Option Params)
  | act _ => none
  | fetch source params | fetchAs _ source params => some (source, params)

def TurnsDown (decoder : Decoder) (transport : Scripted) (step : Interaction)
    (response : Json) (rejection : Rejection) : Prop :=
  ∃ source params drawn, step.asks? = some (source, params) ∧
    ((source.send Scripted.fetch params).run transport).1 = .ok response ∧
    decoder (source.checkedSchema.run drawn).1 response = .error rejection

def advance (transport : Scripted) : Interaction → Scripted
  | act action => transport.act action
  | fetch source params | fetchAs _ source params =>
      ((source.send Scripted.fetch params).run transport).2

def fetched (client : Client Scripted) (transport : Scripted) (drawn : Nat)
    (step : Interaction) : Except Failure Json :=
  match step.asks? with
  | none => .ok .null
  | some (source, params) =>
      ((source.send Scripted.fetch params).run transport).1 >>=
        client.judge (source.checkedSchema.run drawn).1

/-- The mode matters to the result of a fetch, but not to what a step leaves behind. -/
theorem take_run (decoder : Decoder) (mode : Mode) (step : Interaction)
    (traffic : Traffic Scripted) (drawn : Nat) :
    let client := Client.scripted decoder mode
    ∃ events supply, ((step.take client).run traffic).run drawn =
      ((step.conclude (step.fetched client traffic.state drawn),
        ⟨step.advance traffic.state, events⟩), supply) := by
  intro client
  cases step with
  | act action => exact ⟨traffic.events, drawn, rfl⟩
  | fetch source params => exact client.fetch_run source params traffic drawn
  | fetchAs read source params => exact client.fetchAs_run read source params traffic drawn

/-- What any number of steps leaves behind does not depend on the mode. -/
theorem takeAll_run (decoder : Decoder) (mode : Mode) (steps : List Interaction)
    (traffic : Traffic Scripted) (drawn : Nat) :
    ∃ events supply, ((takeAll (Client.scripted decoder mode) steps).run traffic).run drawn =
      (((), ⟨steps.foldl advance traffic.state, events⟩), supply) := by
  induction steps generalizing traffic drawn with
  | nil => exact ⟨traffic.events, drawn, rfl⟩
  | cons step rest ih =>
      obtain ⟨events, supply, hstep⟩ := take_run decoder mode step traffic drawn
      have hrest : ((takeAll (Client.scripted decoder mode) (step :: rest)).run traffic).run drawn =
          (fun taken => ((takeAll (Client.scripted decoder mode) rest).run taken.1.2).run taken.2)
            (((step.take (Client.scripted decoder mode)).run traffic).run drawn) := rfl
      rw [hrest, hstep]
      exact ih ⟨step.advance traffic.state, events⟩ supply

variable {decoder : Decoder} {transport : Scripted} {step : Interaction}

/-- What a fetch makes of a response that is turned down. -/
theorem fetched_of_turnsDown (hdecoder : decoder.Faithful) {response : Json}
    {rejection : Rejection} (hturned : step.TurnsDown decoder transport response rejection)
    (mode : Mode) (drawn : Nat) :
    step.fetched (Client.scripted decoder mode) transport drawn =
      Client.penalty mode rejection := by
  obtain ⟨source, params, drawn', hasks, hsend, hdecode⟩ := hturned
  rw [hdecoder.ignoresSupply source drawn' drawn] at hdecode
  simp only [fetched, hasks, hsend]
  calc (Client.scripted decoder mode).judge (source.checkedSchema.run drawn).1 response
    _ = Client.penalty mode rejection := Client.judge_of_error hdecode

/-- Where nothing is turned down, no mode matters to a fetch. -/
theorem fetched_of_not_turnsDown (hdecoder : decoder.Faithful)
    (hpassed : ∀ response rejection, ¬step.TurnsDown decoder transport response rejection)
    (mode other : Mode) (drawn drawn' : Nat) :
    step.fetched (Client.scripted decoder mode) transport drawn =
      step.fetched (Client.scripted decoder other) transport drawn' := by
  unfold fetched
  cases hasks : step.asks? with
  | none => rfl
  | some asked =>
      obtain ⟨source, params⟩ := asked
      dsimp only
      cases hsend : ((source.send Scripted.fetch params).run transport).1 with
      | error failure => rfl
      | ok response =>
          have hsupply := hdecoder.ignoresSupply source drawn' drawn response
          cases hdecode : decoder (source.checkedSchema.run drawn).1 response with
          | error rejection =>
              have hturned : step.TurnsDown decoder transport response rejection :=
                ⟨source, params, drawn, hasks, hsend, hdecode⟩
              exact absurd hturned (hpassed response rejection)
          | ok value =>
              rw [hdecode] at hsupply
              calc (Client.scripted decoder mode).judge (source.checkedSchema.run drawn).1 response
                _ = .ok value := Client.judge_of_ok hdecode
                _ = (Client.scripted decoder other).judge (source.checkedSchema.run drawn').1
                      response := (Client.judge_of_ok hsupply).symm

/-- Passing a response on silently or with a warning gives the same. -/
theorem fetched_silent (hdecoder : decoder.Faithful) (transport : Scripted)
    (step : Interaction) (drawn drawn' : Nat) :
    step.fetched (Client.scripted decoder .silent) transport drawn =
      step.fetched (Client.scripted decoder .warn) transport drawn' := by
  by_cases hturned : ∃ response rejection, step.TurnsDown decoder transport response rejection
  · obtain ⟨response, rejection, hturned⟩ := hturned
    rw [fetched_of_turnsDown hdecoder hturned, fetched_of_turnsDown hdecoder hturned]
    rfl
  · apply fetched_of_not_turnsDown hdecoder
    exact fun response rejection hrejects => hturned ⟨response, rejection, hrejects⟩

/-- Clients of every mode reach the same state of the transport in any number of steps.  The
next step gives the same with a warning as silently; in the strict mode it gives something
else only if the decoder turns its response down.  Then the issues are the failure, where the
other modes go on with the response as it came.  Reading comes after that and is the same in
all modes. -/
theorem modes_in_lockstep (decoder : Decoder) (hdecoder : decoder.Faithful)
    (steps : List Interaction) (next : Interaction) (start : Scripted)
    (events : Mode → List Event) (drawn : Mode → Nat) :
    let reached (mode : Mode) :=
      ((takeAll (Client.scripted decoder mode) steps).run ⟨start, events mode⟩).run (drawn mode)
    let outcome (mode : Mode) (step : Interaction) : step.Outcome :=
      (((step.take (Client.scripted decoder mode)).run (reached mode).1.2).run (reached mode).2).1.1
    let transport := (reached .error).1.2.state
    (∀ mode, (reached mode).1.2.state = transport) ∧
    outcome .warn next = outcome .silent next ∧
    (∀ response rejection, next.TurnsDown decoder transport response rejection →
      outcome .error next = next.conclude (.error (.invalid rejection.issues)) ∧
      outcome .warn next = next.conclude (.ok response)) ∧
    ((∀ response rejection, ¬next.TurnsDown decoder transport response rejection) →
      outcome .error next = outcome .warn next) ∧
    (∀ (mode : Mode) (α : Type) (read : Reading α) (source : Source) (params : Option Params),
      outcome mode (.fetchAs read source params) =
        (outcome mode (.fetch source params) >>= read.outcome : Except Failure α)) := by
  intro reached outcome transport
  have hreached (mode : Mode) : (reached mode).1.2.state = steps.foldl advance start := by
    obtain ⟨events, supply, hmode⟩ := takeAll_run decoder mode steps ⟨start, events mode⟩
      (drawn mode)
    exact congrArg (·.1.2.state) hmode
  have hlockstep (mode : Mode) : (reached mode).1.2.state = transport :=
    (hreached mode).trans (hreached .error).symm
  have houtcome (mode : Mode) (step : Interaction) : outcome mode step =
      step.conclude (step.fetched (Client.scripted decoder mode) transport (reached mode).2) := by
    obtain ⟨events, supply, hstep⟩ :=
      take_run decoder mode step (reached mode).1.2 (reached mode).2
    have hresult : outcome mode step = step.conclude (step.fetched (Client.scripted decoder mode)
        (reached mode).1.2.state (reached mode).2) := congrArg (·.1.1) hstep
    rw [hresult, hlockstep mode]
  refine ⟨hlockstep, ?_, ?_, ?_, ?_⟩
  · rw [houtcome, houtcome, fetched_silent hdecoder]
  · intro response rejection hturned
    rw [houtcome, houtcome, fetched_of_turnsDown hdecoder hturned,
      fetched_of_turnsDown hdecoder hturned]
    obtain ⟨source, params, supply, -, -, hdecode⟩ := hturned
    refine ⟨rfl, ?_⟩
    rw [Client.penalty, hdecoder.handsBack hdecode]
  · intro hpassed
    rw [houtcome, houtcome]
    exact congrArg next.conclude (fetched_of_not_turnsDown hdecoder hpassed .error .warn _ _)
  · intro mode α read source params
    rw [houtcome, houtcome]
    rfl

/-- A text in place of an integer fails a strict client and passes a lenient one. -/
theorem modes_in_lockstep_text_for_integer :
    let steps := [act (.pushResponse (.string "nine"))]
    let next := fetch (.query (.ofSchema (.mk ⟨0⟩ (.leaf .integer)) : Query .one)) none
    let outcome (mode : Mode) : Except Failure Json :=
      let client := Client.scripted Node.decode mode
      let reached := ((takeAll client steps).run ⟨.ofScript .empty, []⟩).run 1
      (((next.take client).run reached.1.2).run reached.2).1.1
    outcome .error = .error (.invalid [⟨"", "Expected integer"⟩]) ∧
      outcome .warn = .ok (.string "nine") :=
  (modes_in_lockstep Node.decode Node.decode_faithful [act (.pushResponse (.string "nine"))]
    (fetch (.query (.ofSchema (.mk ⟨0⟩ (.leaf .integer)) : Query .one)) none)
    (.ofScript .empty) (fun _ => []) (fun _ => 1)).2.2.1 (.string "nine")
    ⟨[⟨"", "Expected integer"⟩], .string "nine"⟩ ⟨_, _, 1, rfl, rfl, rfl⟩

end Interaction

end ShapeQuery
