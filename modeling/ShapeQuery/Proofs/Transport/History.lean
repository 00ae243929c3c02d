import Mathlib.Data.List.Basic
import ShapeQuery.Transport.Scripted

/-!
# Histories of scripted transports

What a scripted transport does next follows from what was done to it before.  A reset ends
the time of the replies in the queue and of the recorded requests, but not that of
registered replies and of the fallback.  Clones of a transport share its state, so a history
holds what was done through any of them.
-/

namespace ShapeQuery

namespace Script

inductive Preparation where
  | respondTo (query : String) (response : Json)
  | failOn (query : String) (message : String)
  | pushResponse (response : Json)
  | setFallback (response : Json)

def prepare (script : Script) : Preparation → Script
  | .respondTo query response => script.register query (.response response)
  | .failOn query message => script.register query (.failure message)
  | .pushResponse response => script.enqueue (.response response)
  | .setFallback response => script.withFallback response

def prepared (preparations : List Preparation) : Script :=
  preparations.foldl prepare .empty

def Preparation.action : Preparation → Scripted.Action
  | .respondTo query response => .respondTo query response
  | .failOn query message => .failOn query message
  | .pushResponse response => .pushResponse response
  | .setFallback response => .setFallback response

end Script

namespace Scripted

inductive Operation where
  | act (action : Action)
  | fetch (query : String) (params : Option Params)

namespace Operation

/-- Whether the operation makes the transport forget. -/
def isReset : Operation → Bool
  | .act .reset => true
  | _ => false

def pushed? : Operation → Option Reply
  | .act (.pushResponse response) => some (.response response)
  | .act (.pushFailure message) => some (.failure message)
  | _ => none

def registered? (query : String) : Operation → Option Reply
  | .act (.respondTo other response) => if query = other then some (.response response) else none
  | .act (.failOn other message) => if query = other then some (.failure message) else none
  | _ => none

def fallback? : Operation → Option Json
  | .act (.setFallback response) => some response
  | _ => none

def request? : Operation → Option Request
  | .fetch query params => some ⟨query, params⟩
  | _ => none

end Operation

/-- What was done to a transport, the latest operation first. -/
abbrev History := List Operation

def perform (transport : Scripted) : Operation → Scripted
  | .act action => transport.act action
  | .fetch query params => ((Scripted.fetch query params).run transport).2

def after (start : Scripted) : History → Scripted
  | [] => start
  | operation :: earlier => (start.after earlier).perform operation

/-- The replies that left the queue for a request since the last reset, in the order in
which they left. -/
def delivered (start : Scripted) : History → List Reply
  | [] => []
  | .fetch _ _ :: earlier => start.delivered earlier ++ (start.after earlier).queued.take 1
  | .act .reset :: _ => []
  | .act _ :: earlier => start.delivered earlier

namespace History

def ofPreparations (preparations : List Script.Preparation) : History :=
  (preparations.map fun preparation => .act preparation.action).reverse

def sinceReset (history : History) : History :=
  history.takeWhile fun operation => !operation.isReset

/-- The replies pushed since the last reset, oldest first. -/
def pushed (history : History) : List Reply :=
  (history.sinceReset.filterMap Operation.pushed?).reverse

/-- The requests made since the last reset, oldest first. -/
def requests (history : History) : List Request :=
  (history.sinceReset.filterMap Operation.request?).reverse

/-- The latest reply ever registered for a query. -/
def registered? (history : History) (query : String) : Option Reply :=
  history.findSome? (Operation.registered? query)

/-- The latest fallback, which is null as long as there was none. -/
def fallback (history : History) : Json :=
  (history.findSome? Operation.fallback?).getD .null

/-- How many of the replies pushed since the last reset have been handed out: every request
takes one more of those pushed before it, unless none is left. -/
def handedOut : History → Nat
  | [] => 0
  | .fetch _ _ :: earlier => min (handedOut earlier + 1) (pushed earlier).length
  | .act .reset :: _ => 0
  | .act _ :: earlier => handedOut earlier

/-- The reply that is due to a query: the oldest one that was pushed and not handed out, or
else the latest one registered for the query. -/
def due? (history : History) (query : String) : Option Reply :=
  (history.pushed[history.handedOut]?).or (history.registered? query)

/-- A response is answered as it was given, a failure is an error of the transport with its
message, and the fallback answers where no reply is due. -/
def answer (history : History) (query : String) : Except Failure Json :=
  match history.due? query with
  | some (.response value) => .ok value
  | some (.failure message) => .error (.transport message)
  | none => .ok history.fallback

/-- The state of a transport is what the history makes of it. -/
structure Describes (history : History) (transport : Scripted) : Prop where
  queued : transport.queued = history.pushed.drop history.handedOut
  registered : ∀ query, transport.registered.lookup query = history.registered? query
  fallback : transport.fallback = history.fallback
  requests : transport.requests = history.requests

end History

section Answering

variable (transport : Scripted) (query : String)

/-- The queue comes before what is registered, and that before the fallback. -/
theorem answer_fst :
    (transport.answer query).1 =
      (transport.queued.head?.or (transport.registered.lookup query)).elim
        (.ok transport.fallback) Reply.answer := by
  obtain ⟨⟨registered, queued, fallback⟩, requests⟩ := transport
  cases queued with
  | cons reply queued => rfl
  | nil =>
      simp only [answer, List.head?_nil, Option.none_or]
      cases registered.lookup query <;> rfl

/-- An answer changes nothing but the queue. -/
theorem answer_snd :
    (transport.answer query).2 = { transport with queued := transport.queued.tail } := by
  obtain ⟨⟨registered, queued, fallback⟩, requests⟩ := transport
  cases queued with
  | cons reply queued => rfl
  | nil =>
      simp only [answer, List.tail_nil]
      cases registered.lookup query <;> rfl

end Answering

namespace History

variable {history : History} {transport : Scripted} {operation : Operation}

theorem sinceReset_cons (hoperation : operation.isReset = false) :
    sinceReset (operation :: history) = operation :: sinceReset history := by
  simp [sinceReset, hoperation]

theorem pushed_cons (hoperation : operation.isReset = false) :
    pushed (operation :: history) = history.pushed ++ operation.pushed?.toList := by
  rw [pushed, sinceReset_cons hoperation, List.filterMap_cons, pushed]
  cases operation.pushed? <;> simp

theorem requests_cons (hoperation : operation.isReset = false) :
    requests (operation :: history) = history.requests ++ operation.request?.toList := by
  rw [requests, sinceReset_cons hoperation, List.filterMap_cons, requests]
  cases operation.request? <;> simp

theorem registered?_cons (query : String) :
    registered? (operation :: history) query =
      (operation.registered? query).or (history.registered? query) := by
  rw [registered?, List.findSome?_cons, registered?]
  cases operation.registered? query <;> rfl

theorem fallback_cons :
    fallback (operation :: history) = operation.fallback?.getD history.fallback := by
  rw [fallback, List.findSome?_cons, fallback]
  cases operation.fallback? <;> rfl

theorem handedOut_act {action : Action} (haction : (Operation.act action).isReset = false) :
    handedOut (.act action :: history) = history.handedOut := by
  cases action with
  | reset => exact absurd haction (by decide)
  | _ => rfl

/-- A request takes one reply, or none if none is left. -/
theorem drop_handedOut_fetch (history : History) (query : String) (params : Option Params) :
    (pushed (.fetch query params :: history)).drop
        (handedOut (.fetch query params :: history)) =
      history.pushed.drop (history.handedOut + 1) := by
  have hpushed : pushed (.fetch query params :: history) = history.pushed := rfl
  rw [hpushed, handedOut]
  cases Nat.le_total (history.handedOut + 1) history.pushed.length with
  | inl hleft => rw [Nat.min_eq_left hleft]
  | inr hnone => rw [Nat.min_eq_right hnone, List.drop_eq_nil_of_le hnone, List.drop_length]

theorem take_handedOut_fetch (history : History) (query : String) (params : Option Params) :
    (pushed (.fetch query params :: history)).take
        (handedOut (.fetch query params :: history)) =
      history.pushed.take (history.handedOut + 1) := by
  have hpushed : pushed (.fetch query params :: history) = history.pushed := rfl
  rw [hpushed, handedOut, ← List.take_eq_take_min]

/-- No more is handed out than was pushed. -/
theorem handedOut_le (history : History) : history.handedOut ≤ history.pushed.length := by
  induction history with
  | nil => exact Nat.le_refl 0
  | cons operation earlier ih =>
      cases operation with
      | fetch query params =>
          rw [pushed_cons rfl]
          exact Nat.le_trans (Nat.min_le_right _ _) (by simp)
      | act action =>
          by_cases haction : (Operation.act action).isReset = false
          · rw [handedOut_act haction, pushed_cons haction, List.length_append]
            exact Nat.le_trans ih (Nat.le_add_right _ _)
          · cases action with
            | reset => exact Nat.zero_le _
            | _ => exact absurd rfl haction

end History

section Acting

variable (transport : Scripted) {action : Action}

theorem queued_act (haction : (Operation.act action).isReset = false) :
    (transport.act action).queued =
      transport.queued ++ (Operation.act action).pushed?.toList := by
  cases action with
  | reset => exact absurd haction (by decide)
  | pushResponse response => rfl
  | pushFailure message => rfl
  | _ => exact (List.append_nil _).symm

theorem delivered_act {history : History} (haction : (Operation.act action).isReset = false) :
    transport.delivered (.act action :: history) = transport.delivered history := by
  cases action with
  | reset => exact absurd haction (by decide)
  | _ => rfl

/-- An action changes what is registered for its own query only. -/
theorem lookup_registered_act (action : Action) (query : String) :
    (transport.act action).registered.lookup query =
      ((Operation.act action).registered? query).or (transport.registered.lookup query) := by
  cases action with
  | respondTo other response =>
      refine (Assoc.lookup_insert other _ _ query).trans ?_
      by_cases hquery : query = other <;> simp [Operation.registered?, hquery]
  | failOn other message =>
      refine (Assoc.lookup_insert other _ _ query).trans ?_
      by_cases hquery : query = other <;> simp [Operation.registered?, hquery]
  | _ => rfl

theorem fallback_act (action : Action) :
    (transport.act action).fallback =
      (Operation.act action).fallback?.getD transport.fallback := by
  cases action <;> rfl

theorem requests_act (haction : (Operation.act action).isReset = false) :
    (transport.act action).requests = transport.requests := by
  cases action with
  | reset => exact absurd haction (by decide)
  | _ => rfl

end Acting

namespace History.Describes

variable {history : History} {transport : Scripted}

theorem empty : Describes [] (ofScript .empty) := by
  constructor
  · rfl
  · exact fun query => rfl
  · rfl
  · rfl

/-- An action leaves the state that the longer history describes. -/
theorem act (hstate : history.Describes transport) (action : Action) :
    Describes (.act action :: history) (transport.perform (.act action)) := by
  rw [perform]
  by_cases haction : (Operation.act action).isReset = false
  · constructor
    · rw [queued_act transport haction, pushed_cons haction, handedOut_act haction,
        List.drop_append_of_le_length history.handedOut_le, hstate.queued]
    · intro query
      rw [lookup_registered_act, registered?_cons, hstate.registered]
    · rw [fallback_act, fallback_cons, hstate.fallback]
    · rw [requests_act transport haction, requests_cons haction, hstate.requests]
      exact (List.append_nil _).symm
  · cases action with
    | reset => exact ⟨rfl, hstate.registered, hstate.fallback, rfl⟩
    | _ => exact absurd rfl haction

/-- So does a request, which takes what is due from the queue. -/
theorem fetch (hstate : history.Describes transport) (query : String) (params : Option Params) :
    Describes (.fetch query params :: history) (transport.perform (.fetch query params)) := by
  have hperform : transport.perform (.fetch query params) =
      ((transport.record ⟨query, params⟩).answer query).2 := rfl
  rw [hperform, answer_snd]
  constructor
  · rw [drop_handedOut_fetch, ← List.tail_drop, ← hstate.queued]
    rfl
  · exact hstate.registered
  · exact hstate.fallback
  · rw [requests_cons rfl, ← hstate.requests]
    rfl

/-- The answer to a query follows from the history. -/
theorem answer (hstate : history.Describes transport) (query : String)
    (params : Option Params) :
    ((Scripted.fetch query params).run transport).1 = history.answer query := by
  have hfetch : ((Scripted.fetch query params).run transport).1 =
      ((transport.record ⟨query, params⟩).answer query).1 := rfl
  have hdue : transport.queued.head?.or (transport.registered.lookup query) =
      history.due? query := by
    rw [hstate.queued, List.head?_drop, hstate.registered, due?]
  rw [hfetch, answer_fst]
  change (transport.queued.head?.or (transport.registered.lookup query)).elim
    (.ok transport.fallback) Reply.answer = history.answer query
  rw [hdue, hstate.fallback, History.answer]
  cases history.due? query with
  | none => rfl
  | some reply => cases reply <;> rfl

end History.Describes

/-- Whatever is done to a transport that starts empty, its state is what the history makes of it. -/
theorem describes_after (history : History) :
    history.Describes ((ofScript .empty).after history) := by
  induction history with
  | nil => exact .empty
  | cons operation earlier ih =>
      cases operation with
      | act action => exact ih.act action
      | fetch query params => exact ih.fetch query params

/-- Replies leave the queue in the order in which they were pushed. -/
theorem delivered_eq_take (history : History) :
    (ofScript .empty).delivered history = history.pushed.take history.handedOut := by
  induction history with
  | nil => rfl
  | cons operation earlier ih =>
      cases operation with
      | fetch query params =>
          rw [delivered, ih, (describes_after earlier).queued, History.take_handedOut_fetch,
            List.take_add]
      | act action =>
          by_cases haction : (Operation.act action).isReset = false
          · rw [delivered_act _ haction, History.handedOut_act haction, History.pushed_cons haction,
              List.take_append_of_le_length (History.handedOut_le earlier), ih]
          · cases action with
            | reset => rfl
            | _ => exact absurd rfl haction

theorem after_append (start : Scripted) (later earlier : History) :
    start.after (later ++ earlier) = (start.after earlier).after later := by
  induction later with
  | nil => rfl
  | cons operation later ih => rw [List.cons_append, after, after, ih]

/-- Laying things down for a transport is doing the same to a transport that starts empty. -/
theorem ofScript_prepared (preparations : List Script.Preparation) :
    ofScript (Script.prepared preparations) =
      (ofScript .empty).after (History.ofPreparations preparations) := by
  have hprepare (script : Script) :
      ofScript (preparations.foldl Script.prepare script) =
        (ofScript script).after (History.ofPreparations preparations) := by
    induction preparations generalizing script with
    | nil => rfl
    | cons preparation rest ih =>
        have hfirst : ofScript (script.prepare preparation) =
            (ofScript script).after [.act preparation.action] := by
          cases preparation <;> rfl
        rw [List.foldl_cons, ih, hfirst, ← after_append, History.ofPreparations,
          History.ofPreparations, List.map_cons, List.reverse_cons]
  exact hprepare .empty

/-- What a scripted transport answers and records follows from its history, to which what
was laid down for it belongs as well.  Replies are handed out once, in the order in which they
were pushed. -/
theorem answers_by_history (preparations : List Script.Preparation) (history : History)
    (query : String) (params : Option Params) :
    let start := ofScript (Script.prepared preparations)
    let whole : History := history ++ .ofPreparations preparations
    ((Scripted.fetch query params).run (start.after history)).1 = whole.answer query ∧
      (start.after history).requests = whole.requests ∧
      (ofScript .empty).delivered whole ++ (start.after history).queued = whole.pushed ∧
      start = (ofScript .empty).after (.ofPreparations preparations) := by
  intro start whole
  have hstart : start = (ofScript .empty).after (.ofPreparations preparations) :=
    ofScript_prepared preparations
  have hafter : start.after history = (ofScript .empty).after whole := by
    rw [hstart, after_append]
  have hstate : whole.Describes (start.after history) := by
    rw [hafter]
    exact describes_after whole
  refine ⟨hstate.answer query params, hstate.requests, ?_, hstart⟩
  rw [delivered_eq_take, hstate.queued, List.take_append_drop]

/-- A pushed response is handed out once and is lost in a reset.  A registered failure
outlives the reset, and the fallback answers any other query. -/
theorem answers_by_history_queued_failed_default :
    let start := ofScript (Script.prepared
      [.failOn "*[]" "offline", .setFallback (.string "default")])
    let refilled : History :=
      [.act (.pushResponse (.string "kept")), .act .reset, .act (.pushResponse (.string "lost"))]
    let asked : History := .fetch "*[]" none :: refilled
    ((Scripted.fetch "*[]" none).run (start.after refilled)).1 = .ok (.string "kept") ∧
      ((Scripted.fetch "*[]" none).run (start.after asked)).1 = .error (.transport "offline") ∧
      ((Scripted.fetch "*" none).run (start.after asked)).1 = .ok (.string "default") ∧
      (start.after asked).requests = [⟨"*[]", none⟩] := by
  intro start refilled asked
  have hqueued := answers_by_history
    [.failOn "*[]" "offline", .setFallback (.string "default")] refilled "*[]" none
  have hfailed := answers_by_history
    [.failOn "*[]" "offline", .setFallback (.string "default")] asked "*[]" none
  have hdefault := answers_by_history
    [.failOn "*[]" "offline", .setFallback (.string "default")] asked "*" none
  exact ⟨hqueued.1.trans rfl, hfailed.1.trans rfl, hdefault.1.trans rfl, hdefault.2.1.trans rfl⟩

end Scripted

end ShapeQuery
