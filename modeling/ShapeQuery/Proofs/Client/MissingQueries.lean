import ShapeQuery.Proofs.Client.Exchange
import ShapeQuery.Proofs.Groq.Framing
import ShapeQuery.Proofs.Schema.Induction
import ShapeQuery.Proofs.Transport.History

/-!
# Sources without a query

A node that only describes data has nothing to send, and neither does a literal piece of query
text that is empty.  Fetching such a node fails before the transport hears of it, and no other
source fails in this way.
-/

namespace ShapeQuery

/-! ## What has no query -/

/-- The nodes that a query would be empty for: plain data shapes and empty pieces of text, null
or not. -/
inductive Node.Queryless : Node → Prop where
  | leaf {id : Identity} {shape : Shape} : Queryless (.mk id (.leaf shape))
  | fragment {id : Identity} {schema : Node} : Queryless (.mk id (.fragment "" schema))
  | nullable {id : Identity} {inner : Node} :
      Queryless inner → Queryless (.mk id (.nullable inner))

/-- The sources that are such nodes.  Queries never are. -/
def Source.Queryless : Source → Prop
  | .node schema => schema.Queryless
  | .query _ => False

/-- A query is empty for the queryless nodes and for no others. -/
theorem Node.groq_eq_empty_iff (node : Node) : node.groq = "" ↔ node.Queryless := by
  constructor
  · induction node using Node.induction with
    | leaf id shape => exact fun _ => .leaf
    | fragment id text schema =>
        intro hempty
        obtain rfl : text = "" := hempty
        exact .fragment
    | nullable id inner ih => exact fun hempty => .nullable (ih hempty)
    | projection id properties options =>
        exact fun hempty => absurd hempty (Groq.projection_ne_empty _ _)
    | collection id element narrowing =>
        exact fun hempty => absurd hempty (Groq.collection_ne_empty _ _ _)
    | select id branches expansion =>
        exact fun hempty => absurd hempty (Groq.select_ne_empty _ _)
  · intro hqueryless
    induction hqueryless with
    | leaf => rfl
    | fragment => rfl
    | nullable _ ih => exact ih

/-- A query has a text besides the star: at least the brackets that traverse the results. -/
theorem Query.exists_groq_eq {arity : Arity} (composed : Query arity) :
    ∃ text, text ≠ "" ∧ composed.groq = "*" ++ text := by
  have hslice : sliceText composed.slice ≠ "" := by
    cases composed.slice with
    | none => decide
    | some slice => exact Groq.slice_text_ne_empty slice
  refine ⟨String.join (composed.conditions.map conditionText) ++ sliceText composed.slice ++
    composed.schema.groq, ?_, ?_⟩
  · intro hempty
    have hhead := (String.append_eq_empty_iff.mp hempty).1
    exact hslice (String.append_eq_empty_iff.mp hhead).2
  · simp only [groq, String.append_assoc]

namespace Source

theorem groq?_of_queryless {source : Source} (hqueryless : source.Queryless) :
    source.groq? = none := by
  cases source with
  | node schema => exact if_pos ((Node.groq_eq_empty_iff schema).mpr hqueryless)
  | query composed => exact hqueryless.elim

/-- All other sources are sent as more than the star. -/
theorem exists_groq?_of_not_queryless {source : Source} (hqueryless : ¬source.Queryless) :
    ∃ text, text ≠ "" ∧ source.groq? = some ("*" ++ text) := by
  cases source with
  | node schema =>
      have hgroq : schema.groq ≠ "" :=
        fun hempty => hqueryless ((Node.groq_eq_empty_iff schema).mp hempty)
      exact ⟨schema.groq, hgroq, if_neg hgroq⟩
  | query composed =>
      obtain ⟨text, htext, hgroq⟩ := composed.exists_groq_eq
      exact ⟨text, htext, congrArg some hgroq⟩

end Source

/-! ## Failures of other kinds -/

namespace Scripted

variable (transport : Scripted) (query : String) (params : Option Params)

theorem requests_fetch :
    ((fetch query params).run transport).2.requests = transport.requests ++ [⟨query, params⟩] := by
  have hfetch : ((fetch query params).run transport).2 =
      ((transport.record ⟨query, params⟩).answer query).2 := rfl
  rw [hfetch, answer_snd]
  rfl

/-- A script makes the transport fail, but never for want of a query. -/
theorem fetch_ne_missingQuery :
    ((fetch query params).run transport).1 ≠ .error .missingQuery := by
  have hfetch : ((fetch query params).run transport).1 =
      ((transport.record ⟨query, params⟩).answer query).1 := rfl
  rw [hfetch, answer_fst]
  match Option.or _ _ with
  | none => exact nofun
  | some (.response value) => exact nofun
  | some (.failure message) => exact nofun

end Scripted

/-- What can only fail in other ways goes on to fail in other ways. -/
theorem bind_ne_missingQuery {α β : Type} {result : Except Failure α}
    {next : α → Except Failure β} (hresult : result ≠ .error .missingQuery)
    (hnext : ∀ value, next value ≠ .error .missingQuery) :
    result >>= next ≠ .error .missingQuery := by
  cases result with
  | error failure =>
      intro hbind
      exact hresult (congrArg Except.error (Except.error.inj hbind))
  | ok value => exact hnext value

theorem Reading.outcome_ne_missingQuery {α : Type} (read : Reading α) (response : Json) :
    read.outcome response ≠ .error .missingQuery := by
  unfold outcome
  cases read response with
  | ok value => exact nofun
  | error fault => exact nofun

namespace Client

/-- Once there is a response, it is too late to miss the query. -/
theorem judge_ne_missingQuery {σ : Type} (client : Client σ) (schema : Node) (response : Json) :
    client.judge schema response ≠ .error .missingQuery := by
  unfold judge
  cases client.decoder schema response with
  | ok value => exact nofun
  | error rejection => cases client.settings.mode <;> exact nofun

/-! ## Failing fast -/

variable {σ : Type} {client : Client σ} {source : Source} {params : Option Params}

/-- Nothing is sent, reported or drawn for a source without a query. -/
theorem fetch_of_queryless (hqueryless : source.Queryless) :
    client.fetch source params = pure (.error .missingQuery) := by
  rw [fetch, source.groq?_of_queryless hqueryless]

theorem fetchAs_of_queryless {α : Type} {read : Reading α} (hqueryless : source.Queryless) :
    client.fetchAs read source params = pure (.error .missingQuery) := by
  rw [fetchAs, fetch_of_queryless hqueryless, pure_bind]

section Scripted

variable (decoder : Decoder) (settings : Settings) (traffic : Traffic Scripted) (drawn : ℕ)
variable {query : String}

/-- A source with a query is sent once, and whatever the script answers, no query is missing. -/
theorem send_scripted (hquery : source.groq? = some query) (params : Option Params)
    (state : Scripted) :
    let sent := (source.send Scripted.fetch params).run state
    sent.1 ≠ .error .missingQuery ∧ sent.2.requests = state.requests ++ [⟨query, params⟩] := by
  have hsend : source.send Scripted.fetch params = Scripted.fetch query params := by
    rw [Source.send, hquery]
  rw [hsend]
  exact ⟨state.fetch_ne_missingQuery query params, state.requests_fetch query params⟩

/-- A query is sent and recorded, and whatever comes of it, no query was missing. -/
theorem fetch_scripted (hquery : source.groq? = some query) (params : Option Params) :
    let client : Client Scripted := ⟨Scripted.fetch, decoder, settings⟩
    let fetched := ((client.fetch source params).run traffic).run drawn
    fetched.1.1 ≠ .error .missingQuery ∧
      fetched.1.2.state.requests = traffic.state.requests ++ [⟨query, params⟩] := by
  intro client fetched
  obtain ⟨events, supply, hfetched⟩ := fetch_run client source params traffic drawn
  obtain ⟨hsent, hrequests⟩ := send_scripted hquery params traffic.state
  rw [show fetched = _ from hfetched]
  exact ⟨bind_ne_missingQuery hsent (client.judge_ne_missingQuery _), hrequests⟩

theorem fetchAs_scripted {α : Type} (read : Reading α) (hquery : source.groq? = some query)
    (params : Option Params) :
    let client : Client Scripted := ⟨Scripted.fetch, decoder, settings⟩
    let fetched := ((client.fetchAs read source params).run traffic).run drawn
    fetched.1.1 ≠ .error .missingQuery ∧
      fetched.1.2.state.requests = traffic.state.requests ++ [⟨query, params⟩] := by
  intro client fetched
  obtain ⟨events, supply, hfetched⟩ := fetchAs_run client read source params traffic drawn
  obtain ⟨hsent, hrequests⟩ := send_scripted hquery params traffic.state
  rw [show fetched = _ from hfetched]
  have hjudged := bind_ne_missingQuery hsent
    (client.judge_ne_missingQuery (source.checkedSchema.run drawn).1)
  exact ⟨bind_ne_missingQuery hjudged read.outcome_ne_missingQuery, hrequests⟩

/-- Over a scripted transport in any state, a fetch misses a query exactly for the sources that
have none.  It then does nothing at all, while any other source sends one request, whose text
goes on after the star. -/
theorem fetch_misses_query_iff_queryless {α : Type} (read : Reading α) (source : Source)
    (params : Option Params) :
    let client : Client Scripted := ⟨Scripted.fetch, decoder, settings⟩
    let fetched := ((client.fetch source params).run traffic).run drawn
    let interpreted := ((client.fetchAs read source params).run traffic).run drawn
    (fetched.1.1 = .error .missingQuery ↔ source.Queryless) ∧
      (interpreted.1.1 = .error .missingQuery ↔ source.Queryless) ∧
      (source.Queryless → fetched = ((.error .missingQuery, traffic), drawn) ∧
        interpreted = ((.error .missingQuery, traffic), drawn)) ∧
      (¬source.Queryless → ∃ text, text ≠ "" ∧ source.groq? = some ("*" ++ text) ∧
        fetched.1.2.state.requests = traffic.state.requests ++ [⟨"*" ++ text, params⟩] ∧
        interpreted.1.2.state.requests = traffic.state.requests ++ [⟨"*" ++ text, params⟩]) := by
  intro client fetched interpreted
  by_cases hqueryless : source.Queryless
  · have hfetched : fetched = ((.error .missingQuery, traffic), drawn) := by
      simp only [fetched, fetch_of_queryless hqueryless]
      rfl
    have hinterpreted : interpreted = ((.error .missingQuery, traffic), drawn) := by
      simp only [interpreted, fetchAs_of_queryless hqueryless]
      rfl
    rw [hfetched, hinterpreted]
    simp [hqueryless]
  · obtain ⟨text, htext, hquery⟩ := source.exists_groq?_of_not_queryless hqueryless
    obtain ⟨hfetched, hrequests⟩ := fetch_scripted decoder settings traffic drawn hquery params
    obtain ⟨hinterpreted, hrequests'⟩ :=
      fetchAs_scripted decoder settings traffic drawn read hquery params
    refine ⟨iff_of_false hfetched hqueryless, iff_of_false hinterpreted hqueryless,
      fun h => absurd h hqueryless, fun _ => ?_⟩
    exact ⟨text, htext, hquery, hrequests, hrequests'⟩

/-- An empty piece of text that may be null is not sent, and a collection of plain values is. -/
theorem fetch_misses_query_of_empty_fragment :
    let client : Client Scripted := .ofTransport Scripted.fetch
    let traffic : Traffic Scripted := ⟨.ofScript (Script.empty.enqueue (.failure "offline")), []⟩
    let text : Node := .mk ⟨0⟩ (.leaf .string)
    let missing : Source := .node (.mk ⟨2⟩ (.nullable (.mk ⟨1⟩ (.fragment "" text))))
    let values : Source := .node (.mk ⟨3⟩ (.collection text .none))
    missing.Queryless ∧ ((client.fetch missing none).run traffic).run 4 =
        ((.error .missingQuery, traffic), 4) ∧
      ¬values.Queryless ∧ (((client.fetch values none).run traffic).run 4).1.1 ≠
        .error .missingQuery := by
  intro client traffic text missing values
  have hmissing : missing.Queryless := .nullable .fragment
  have hvalues : ¬values.Queryless := nofun
  let run := fetch_misses_query_iff_queryless Node.decode .standard traffic 4 Reading.any
  exact ⟨hmissing, ((run missing none).2.2.1 hmissing).1, hvalues,
    fun h => hvalues ((run values none).1.mp h)⟩

end Scripted

end Client

end ShapeQuery
