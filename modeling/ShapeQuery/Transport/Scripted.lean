import ShapeQuery.Assoc
import ShapeQuery.Transport.Basic

/-!
# Scripted transports

A scripted transport answers from replies that were laid down before.  Replies
wait in a queue, each for one request, or are registered for a query until they
are replaced; every other request gets the fallback.  All requests are recorded.
-/

namespace ShapeQuery

/-- A reply that was laid down. -/
inductive Reply where
  | response (value : Json)
  | failure (message : String)

def Reply.answer : Reply → Except Failure Json
  | .response value => .ok value
  | .failure message => .error (.transport message)

/-- The replies of a scripted transport: registered by query, waiting in a queue,
and the response to all other requests. -/
structure Script where
  registered : List (String × Reply)
  queued : List Reply
  fallback : Json

namespace Script

def empty : Script := ⟨[], [], .null⟩

def register (script : Script) (query : String) (reply : Reply) : Script :=
  { script with registered := Assoc.insert query reply script.registered }

def enqueue (script : Script) (reply : Reply) : Script :=
  { script with queued := script.queued ++ [reply] }

def withFallback (script : Script) (response : Json) : Script :=
  { script with fallback := response }

end Script

/-- A scripted transport: its script, and the requests received, oldest first. -/
structure Scripted extends Script where
  requests : List Request

namespace Scripted

def ofScript (script : Script) : Scripted := { script with requests := [] }

/-- What can be done to a scripted transport between requests. -/
inductive Action where
  | respondTo (query : String) (response : Json)
  | failOn (query : String) (message : String)
  | pushResponse (response : Json)
  | pushFailure (message : String)
  | setFallback (response : Json)
  /-- Forgets the requests and the queue, but no registered reply. -/
  | reset

def withScript (transport : Scripted) (script : Script) : Scripted :=
  { script with requests := transport.requests }

def act (transport : Scripted) : Action → Scripted
  | .respondTo query response =>
      transport.withScript (transport.toScript.register query (.response response))
  | .failOn query message =>
      transport.withScript (transport.toScript.register query (.failure message))
  | .pushResponse response => transport.withScript (transport.toScript.enqueue (.response response))
  | .pushFailure message => transport.withScript (transport.toScript.enqueue (.failure message))
  | .setFallback response => transport.withScript (transport.toScript.withFallback response)
  | .reset => { transport with requests := [], queued := [] }

def record (transport : Scripted) (request : Request) : Scripted :=
  { transport with requests := transport.requests ++ [request] }

/-- The answer to a query: the reply at the front of the queue, which then leaves
it, or else the registered one, or else the fallback. -/
def answer (transport : Scripted) (query : String) : Except Failure Json × Scripted :=
  match transport.queued with
  | reply :: queued => (reply.answer, { transport with queued })
  | [] =>
      match transport.registered.lookup query with
      | some reply => (reply.answer, transport)
      | none => (.ok transport.fallback, transport)

def fetch : Transport Scripted := fun query params =>
  modifyGet fun transport => (transport.record ⟨query, params⟩).answer query

end Scripted

end ShapeQuery
