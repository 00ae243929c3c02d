import ShapeQuery.Client.Basic

/-!
# Exchanges

A client first sends a source, which gets a response or fails, and then judges the response.
Only the sending reaches the transport, and only the judgement depends on decoder and mode.
What is reported on the way changes neither.
-/

namespace ShapeQuery

/-- The schema that responses to a source are checked against. -/
def Source.checkedSchema (source : Source) : Build Node := do
  Node.nullable (← source.resultSchema)

/-- What sending a source gets, which needs a query. -/
def Source.send {σ : Type} (source : Source) (transport : Transport σ) (params : Option Params) :
    StateM σ (Except Failure Json) :=
  match source.groq? with
  | none => pure (.error .missingQuery)
  | some text => transport text params

/-- What a response is read as.  A fault in it is its only issue. -/
def Reading.outcome {α : Type} (read : Reading α) (response : Json) : Except Failure α :=
  (read response).mapError fun fault => .invalid [Issue.ofFault fault]

namespace Client

variable {σ : Type} {client : Client σ}

/-- What a mode makes of a response that was turned down. -/
def penalty : Mode → Rejection → Except Failure Json
  | .error, rejection => .error (.invalid rejection.issues)
  | .warn, rejection => .ok rejection.value
  | .silent, rejection => .ok rejection.value

def judge (client : Client σ) (schema : Node) (response : Json) : Except Failure Json :=
  match client.decoder schema response with
  | .ok value => .ok value
  | .error rejection => penalty client.settings.mode rejection

theorem judge_of_ok {schema : Node} {response value : Json}
    (hdecode : client.decoder schema response = .ok value) :
    client.judge schema response = .ok value := by
  rw [judge, hdecode]

theorem judge_of_error {schema : Node} {response : Json} {rejection : Rejection}
    (hdecode : client.decoder schema response = .error rejection) :
    client.judge schema response = penalty client.settings.mode rejection := by
  rw [judge, hdecode]

def receive (client : Client σ) (source : Source) :
    Except Failure Json → Session σ (Except Failure Json)
  | .error failure => return .error failure
  | .ok response => do
      Session.report (.received response)
      match client.decoder (← source.checkedSchema) response with
      | .ok value => return .ok value
      | .error rejection => settle client.settings.mode rejection

/-- What a response that does not conform comes to is the penalty of the mode.  Besides, only
events are reported. -/
theorem settle_run (mode : Mode) (rejection : Rejection) (traffic : Traffic σ) (drawn : Nat) :
    ∃ events, ((settle mode rejection).run traffic).run drawn =
      ((penalty mode rejection, ⟨traffic.state, events⟩), drawn) := by
  cases mode with
  | error => exact ⟨_, rfl⟩
  | warn => exact ⟨_, rfl⟩
  | silent => exact ⟨_, rfl⟩

/-- An answer is judged by the checked schema, and the state of the transport is left alone. -/
theorem receive_run (client : Client σ) (source : Source) (answer : Except Failure Json)
    (traffic : Traffic σ) (drawn : Nat) :
    ∃ events supply, ((receive client source answer).run traffic).run drawn =
      ((answer >>= client.judge (source.checkedSchema.run drawn).1, ⟨traffic.state, events⟩),
        supply) := by
  cases answer with
  | error failure => exact ⟨traffic.events, drawn, rfl⟩
  | ok response =>
      have hdecode : ((receive client source (.ok response)).run traffic).run drawn =
          (((match client.decoder (source.checkedSchema.run drawn).1 response with
            | .ok value => pure (.ok value)
            | .error rejection => settle client.settings.mode rejection :
              Session σ (Except Failure Json)).run
            ⟨traffic.state, traffic.events ++ [.received response]⟩).run
              (source.checkedSchema.run drawn).2) := rfl
      have hjudge : (.ok response >>= client.judge (source.checkedSchema.run drawn).1 :
          Except Failure Json) = client.judge (source.checkedSchema.run drawn).1 response := rfl
      rw [hdecode, hjudge, judge]
      cases client.decoder (source.checkedSchema.run drawn).1 response with
      | ok value => exact ⟨_, _, rfl⟩
      | error rejection =>
          obtain ⟨events, hsettle⟩ := settle_run client.settings.mode rejection _ _
          exact ⟨events, _, hsettle⟩

/-- A fetch is a sending and a judgement of what it gets. -/
theorem fetch_run (client : Client σ) (source : Source) (params : Option Params)
    (traffic : Traffic σ) (drawn : Nat) :
    let sent := (source.send client.transport params).run traffic.state
    ∃ events supply, ((client.fetch source params).run traffic).run drawn =
      ((sent.1 >>= client.judge (source.checkedSchema.run drawn).1, ⟨sent.2, events⟩),
        supply) := by
  unfold fetch Source.send
  cases hquery : source.groq? with
  | none => exact ⟨traffic.events, drawn, rfl⟩
  | some query =>
      let sent := (client.transport query params).run traffic.state
      exact receive_run client source sent.1
        ⟨sent.2, traffic.events ++ [.sending query params]⟩ drawn

/-- A fetch depends on nothing of the source but its query and how responses to it are checked. -/
theorem fetch_congr {source source' : Source} (hgroq : source.groq? = source'.groq?)
    (hcheck : client.decoder <$> source.checkedSchema = client.decoder <$> source'.checkedSchema)
    (params : Option Params) : client.fetch source params = client.fetch source' params := by
  have hreceive : receive client source = receive client source' := by
    funext answer traffic drawn
    cases answer with
    | error failure => rfl
    | ok response =>
        have hrun (source : Source) : receive client source (.ok response) traffic drawn =
            (fun checked : (Json → Except Rejection Json) × Nat =>
              (match checked.1 response with
                | .ok value => pure (.ok value)
                | .error rejection => settle client.settings.mode rejection :
                  Session σ (Except Failure Json))
                ⟨traffic.state, traffic.events ++ [.received response]⟩ checked.2)
              ((client.decoder <$> source.checkedSchema) drawn) := rfl
        rw [hrun source, hrun source', hcheck]
  cases hquery : source'.groq? with
  | none => rw [fetch, fetch, hgroq, hquery]
  | some query =>
      have hsplit {source : Source} (hsource : source.groq? = some query) :
          client.fetch source params = (do
            Session.report (.sending query params)
            receive client source (← Session.onState (client.transport query params))) := by
        rw [fetch, hsource]
        rfl
      rw [hsplit (hgroq.trans hquery), hsplit hquery, hreceive]

def interpret {α : Type} (read : Reading α) : Except Failure Json → Session σ (Except Failure α)
  | .error failure => return .error failure
  | .ok value =>
      match read value with
      | .ok result => return .ok result
      | .error fault => do
          Session.report (.unreadable [Issue.ofFault fault])
          return .error (.invalid [Issue.ofFault fault])

/-- Reading a result leaves transport and supply of identities alone. -/
theorem interpret_run {α : Type} (read : Reading α) (result : Except Failure Json)
    (traffic : Traffic σ) (drawn : Nat) :
    ∃ events, ((interpret read result).run traffic).run drawn =
      ((result >>= read.outcome, ⟨traffic.state, events⟩), drawn) := by
  cases result with
  | error failure => exact ⟨_, rfl⟩
  | ok value =>
      have hbind : (.ok value >>= read.outcome : Except Failure α) = read.outcome value := rfl
      rw [hbind, Reading.outcome, interpret]
      cases read value with
      | ok result => exact ⟨_, rfl⟩
      | error fault => exact ⟨_, rfl⟩

/-- Fetching at a type is fetching and then reading. -/
theorem fetchAs_run {α : Type} (client : Client σ) (read : Reading α) (source : Source)
    (params : Option Params) (traffic : Traffic σ) (drawn : Nat) :
    let sent := (source.send client.transport params).run traffic.state
    ∃ events supply, ((client.fetchAs read source params).run traffic).run drawn =
      ((sent.1 >>= client.judge (source.checkedSchema.run drawn).1 >>= read.outcome,
        ⟨sent.2, events⟩), supply) := by
  intro sent
  obtain ⟨events, supply, hfetch⟩ := fetch_run client source params traffic drawn
  have hbind : ((client.fetchAs read source params).run traffic).run drawn =
      (fun fetched => ((interpret read fetched.1.1).run fetched.1.2).run fetched.2)
        (((client.fetch source params).run traffic).run drawn) := rfl
  rw [hbind, hfetch]
  obtain ⟨events, hread⟩ := interpret_run read
    (sent.1 >>= client.judge (source.checkedSchema.run drawn).1) ⟨sent.2, events⟩ supply
  exact ⟨events, supply, hread⟩

end Client

end ShapeQuery
