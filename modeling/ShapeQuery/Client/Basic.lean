import ShapeQuery.Client.Event
import ShapeQuery.Client.Settings
import ShapeQuery.Query.Basic
import ShapeQuery.Validation.Check
import ShapeQuery.Validation.IssueJson

/-!
# Clients

A client compiles a source, sends the query, and checks the response against the
schema of the source.  Null is always taken as a response.  What happens to a
response that does not conform is up to the mode.
-/

namespace ShapeQuery

/-- How responses are checked against schemas.  What conforms may be handed back changed. -/
abbrev Decoder := Node → Json → Except Rejection Json

/-- A client that sends through a transport with a state of type `σ`. -/
structure Client (σ : Type) where
  transport : Transport σ
  decoder : Decoder
  settings : Settings

/-- The state of a transport and the events reported so far, oldest first. -/
structure Traffic (σ : Type) where
  state : σ
  events : List Event

abbrev Session (σ : Type) := StateT (Traffic σ) Build

namespace Session

variable {σ : Type}

def report (event : Event) : Session σ Unit :=
  modify fun traffic => { traffic with events := traffic.events ++ [event] }

def onState {α : Type} (run : StateM σ α) : Session σ α :=
  modifyGet fun traffic =>
    let (result, state) := run traffic.state
    (result, { traffic with state })

end Session

namespace Client

variable {σ : Type}

/-- A client with standard settings that checks responses as they are. -/
def ofTransport (transport : Transport σ) : Client σ :=
  ⟨transport, Node.decode, .standard⟩

/-- What becomes of a response that does not conform. -/
def settle (mode : Mode) (rejection : Rejection) : Session σ (Except Failure Json) :=
  match mode with
  | .error => do
      Session.report (.invalid rejection.issues)
      return .error (.invalid rejection.issues)
  | .warn => do
      Session.report (.tolerated rejection.issues)
      return .ok rejection.value
  | .silent => return .ok rejection.value

/-- The response to a source, once it has passed the check. -/
def fetch (client : Client σ) (source : Source) (params : Option Params) :
    Session σ (Except Failure Json) := do
  match source.groq? with
  | none => return .error .missingQuery
  | some query =>
      Session.report (.sending query params)
      match ← Session.onState (client.transport query params) with
      | .error failure => return .error failure
      | .ok response =>
          Session.report (.received response)
          let schema ← Node.nullable (← source.resultSchema)
          match client.decoder schema response with
          | .ok value => return .ok value
          | .error rejection => settle client.settings.mode rejection

/-- The response to a source, read at a type.  A response that cannot be read
fails in every mode, since there is nothing to return in its place. -/
def fetchAs {α : Type} (client : Client σ) (read : Reading α) (source : Source)
    (params : Option Params) : Session σ (Except Failure α) := do
  match ← client.fetch source params with
  | .error failure => return .error failure
  | .ok value =>
      match read value with
      | .ok result => return .ok result
      | .error fault =>
          let issues := [Issue.ofFault fault]
          Session.report (.unreadable issues)
          return .error (.invalid issues)

end Client

end ShapeQuery
