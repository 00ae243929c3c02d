import ShapeQuery.Proofs.Query.Readability

/-!
# Chains of calls

A query is composed by calling one method after another.  Every call replaces or extends one part of
the query and hands the other parts on, so what a chain of calls composes can be told from what the
calls were given: all conditions in their order, the last position, and the last schema.
-/

namespace ShapeQuery

theorem Slice.arity_eq_one_iff {slice : Option Slice} :
    Slice.arity slice = .one ↔ ∃ position, slice = some (.index position) := by
  match slice with
  | none => simp [arity]
  | some (.index position) => simp [arity]
  | some (.range start stop) => simp [arity]

namespace Query

/-- The queries that chains start from. -/
inductive Origin where
  | all
  | ofType (discriminant : String)
  | ofTypeWhere (discriminant : String) (condition : Predicate)

/-- A call on a query, with the arity before it and the arity after it. -/
inductive Call : Arity → Arity → Type where
  | filter {arity : Arity} (condition : Predicate) : Call arity arity
  | grab {arity : Arity} (schema : Node) : Call arity arity
  | range (start stop : ℕ) : Call .many .many
  | nth (position : ℕ) : Call .many .one
  | first : Call .many .one

inductive Chain : Arity → Arity → Type where
  | nil {arity : Arity} : Chain arity arity
  | cons {before between after : Arity} (call : Call before between) (rest : Chain between after) :
      Chain before after

variable {before between after arity : Arity}

def Origin.query : Origin → Build (Query .many)
  | .all => Query.all
  | .ofType discriminant => Query.ofType discriminant
  | .ofTypeWhere discriminant condition => Query.ofTypeWhere discriminant condition

def Origin.conditions : Origin → List Predicate
  | .all => []
  | .ofType discriminant => [.typeIs discriminant]
  | .ofTypeWhere discriminant condition => [(Predicate.typeIs discriminant).and condition]

namespace Call

def apply : Call before after → Query before → Query after
  | .filter condition, query => query.filter condition
  | .grab schema, query => query.grab schema
  | .range start stop, query => query.range start stop
  | .nth position, query => query.nth position
  | .first, query => query.first

def condition? : Call before after → Option Predicate
  | .filter condition => some condition
  | _ => none

/-- The position that a call is given, or stands for. -/
def position? : Call before after → Option Slice
  | .range start stop => some (.range start stop)
  | .nth position => some (.index position)
  | .first => some (.index 0)
  | _ => none

/-- The schema that a call is given. -/
def schema? : Call before after → Option Node
  | .grab schema => some schema
  | _ => none

/-- A call changes the query by what it is given, and by nothing else. -/
theorem apply_eq (call : Call before after) (query : Query before) :
    call.apply query = ⟨call.schema?.getD query.schema, call.position?.or query.slice,
      query.conditions ++ call.condition?.toList⟩ := by
  cases call with
  | filter condition => rfl
  | grab schema => exact congrArg (Query.mk _ _) (List.append_nil _).symm
  | range start stop => exact congrArg (Query.mk _ _) (List.append_nil _).symm
  | nth position => exact congrArg (Query.mk _ _) (List.append_nil _).symm
  | first => exact congrArg (Query.mk _ _) (List.append_nil _).symm

/-- The position, which tells the arity before a call, tells the arity after it. -/
theorem arity_apply (call : Call before after) {query : Query before}
    (hquery : Slice.arity query.slice = before) :
    Slice.arity (call.apply query).slice = after := by
  cases call with
  | filter condition => exact hquery
  | grab schema => exact hquery
  | range start stop => rfl
  | nth position => rfl
  | first => rfl

end Call

namespace Chain

def apply : {before after : Arity} → Chain before after → Query before → Query after
  | _, _, .nil, query => query
  | _, _, .cons call rest, query => rest.apply (call.apply query)

def append : {before between : Arity} → Chain before between → Chain between after →
    Chain before after
  | _, _, .nil, others => others
  | _, _, .cons call rest, others => .cons call (rest.append others)

def given {α : Type} (get : (before after : Arity) → Call before after → Option α) :
    {before after : Arity} → Chain before after → List α
  | _, _, .nil => []
  | _, _, .cons call rest => (get _ _ call).toList ++ rest.given get

def conditions (chain : Chain before after) : List Predicate :=
  chain.given fun _ _ call => call.condition?

/-- The last position that the calls are given. -/
def position? (chain : Chain before after) : Option Slice :=
  (chain.given fun _ _ call => call.position?).getLast?

/-- The last schema that the calls are given. -/
def schema? (chain : Chain before after) : Option Node :=
  (chain.given fun _ _ call => call.schema?).getLast?

/-- The query that a chain composes. -/
def composed (origin : Origin) (chain : Chain .many arity) : Build (Query arity) := do
  return chain.apply (← origin.query)

/-! ## What is given to a chain -/

theorem given_append {α : Type} (get : (before after : Arity) → Call before after → Option α)
    (chain : Chain before between) (others : Chain between after) :
    (chain.append others).given get = chain.given get ++ others.given get := by
  induction chain with
  | nil => rfl
  | cons call rest ih => rw [append, given, given, ih, List.append_assoc]

theorem getLast?_given_cons {α : Type}
    (get : (before after : Arity) → Call before after → Option α) (call : Call before between)
    (rest : Chain between after) :
    ((cons call rest).given get).getLast? = (rest.given get).getLast?.or (get _ _ call) := by
  rw [given, List.getLast?_append]
  cases get _ _ call <;> rfl

/-- The last position counts. -/
theorem position?_cons (call : Call before between) (rest : Chain between after) :
    (cons call rest).position? = rest.position?.or call.position? :=
  getLast?_given_cons _ call rest

theorem schema?_cons (call : Call before between) (rest : Chain between after) :
    (cons call rest).schema? = rest.schema?.or call.schema? :=
  getLast?_given_cons _ call rest

/-- Conditions add up. -/
theorem conditions_append (chain : Chain before between) (others : Chain between after) :
    (chain.append others).conditions = chain.conditions ++ others.conditions :=
  given_append _ chain others

theorem position?_append (chain : Chain before between) (others : Chain between after) :
    (chain.append others).position? = others.position?.or chain.position? := by
  rw [position?, given_append, List.getLast?_append]
  rfl

theorem schema?_append (chain : Chain before between) (others : Chain between after) :
    (chain.append others).schema? = others.schema?.or chain.schema? := by
  rw [schema?, given_append, List.getLast?_append]
  rfl

/-! ## What a chain composes -/

/-- The calls change the query by what they are given, and by nothing else. -/
theorem apply_eq (chain : Chain before after) (query : Query before) :
    chain.apply query = ⟨chain.schema?.getD query.schema, chain.position?.or query.slice,
      query.conditions ++ chain.conditions⟩ := by
  induction chain with
  | nil => exact congrArg (Query.mk _ _) (List.append_nil _).symm
  | cons call rest ih =>
      rw [apply, ih, call.apply_eq, schema?_cons, position?_cons, Option.or_assoc,
        List.append_assoc, Option.getD_or]
      rfl

/-- After the calls a query has the arity that the chain ends with. -/
theorem arity_apply (chain : Chain before after) {query : Query before}
    (hquery : Slice.arity query.slice = before) :
    Slice.arity (chain.apply query).slice = after := by
  induction chain with
  | nil => exact hquery
  | cons call rest ih => exact ih (call.arity_apply hquery)

theorem query_run (origin : Origin) (drawn : ℕ) : origin.query.run drawn =
    (⟨.mk ⟨drawn⟩ (.leaf .unknown), none, origin.conditions⟩, drawn + 1) := by
  cases origin <;> rfl

/-- A chain comes to all conditions, the last position and the last schema. -/
theorem composed_run (origin : Origin) (chain : Chain .many arity) (drawn : ℕ) :
    (chain.composed origin).run drawn =
      (⟨chain.schema?.getD (.mk ⟨drawn⟩ (.leaf .unknown)), chain.position?,
        origin.conditions ++ chain.conditions⟩, drawn + 1) := by
  have hrun : (chain.composed origin).run drawn =
      (chain.apply (origin.query.run drawn).1, (origin.query.run drawn).2) := rfl
  rw [hrun, query_run, apply_eq, Option.or_none]

theorem arity_composed (origin : Origin) (chain : Chain .many arity) (drawn : ℕ) :
    Slice.arity ((chain.composed origin).run drawn).1.slice = arity := by
  have hstart : Slice.arity (origin.query.run drawn).1.slice = .many := by
    rw [query_run]
    rfl
  exact chain.arity_apply hstart

/-- The text of what a chain composes, with every condition in brackets of its own. -/
theorem groq_composed (origin : Origin) (chain : Chain .many arity) (drawn : ℕ) :
    ((chain.composed origin).run drawn).1.groq = "*" ++
      String.join ((origin.conditions ++ chain.conditions).map
        fun condition => "[" ++ condition.groq ++ "]") ++
      (chain.position?.map Slice.text).getD "[]" ++ (chain.schema?.map Node.groq).getD "" := by
  -- Without a schema there is an unknown value, which has no text.
  have hschema : (chain.schema?.getD (.mk ⟨drawn⟩ (.leaf .unknown))).groq =
      (chain.schema?.map Node.groq).getD "" := by
    cases chain.schema? with
    | none => simp [Node.groq, Kind.groq]
    | some schema => rfl
  rw [composed_run, Query.groq, hschema]
  rfl

/-- Chains that are given the same compose the same query. -/
theorem composed_congr (origin : Origin) {chain other : Chain .many arity}
    (hconditions : chain.conditions = other.conditions)
    (hposition : chain.position? = other.position?) (hschema : chain.schema? = other.schema?) :
    chain.composed origin = other.composed origin := by
  funext drawn
  have hruns : (chain.composed origin).run drawn = (other.composed origin).run drawn := by
    rw [composed_run, composed_run, hconditions, hposition, hschema]
  exact hruns

/-- A schema may be given before or after anything that is no schema. -/
theorem composed_grab_comm (origin : Origin) (start : Chain .many before)
    {call : Call before after} (hcall : call.schema? = none) (schema : Node)
    (rest : Chain after arity) :
    (start.append (.cons (.grab schema) (.cons call rest))).composed origin =
      (start.append (.cons call (.cons (.grab schema) rest))).composed origin := by
  apply composed_congr
  · rw [conditions_append, conditions_append]
    rfl
  · simp only [position?_append, position?_cons, Call.position?, Option.or_none]
  · simp only [schema?_append, schema?_cons, hcall, Option.or_none]
    rfl

/-- A schema leaves no trace once another one is given. -/
theorem composed_grab_replaced (origin : Origin) (start : Chain .many before) (schema : Node)
    {rest : Chain before arity} (hrest : rest.schema? ≠ none) :
    (start.append (.cons (.grab schema) rest)).composed origin =
      (start.append rest).composed origin := by
  obtain ⟨last, hlast⟩ := Option.ne_none_iff_exists'.mp hrest
  apply composed_congr
  · rw [conditions_append, conditions_append]
    rfl
  · simp only [position?_append, position?_cons, Call.position?, Option.or_none]
  · simp only [schema?_append, schema?_cons, hlast, Option.some_or]

/-- A range leaves no trace once another position is given. -/
theorem composed_range_replaced (origin : Origin) (start : Chain .many .many) (first last : ℕ)
    {rest : Chain .many arity} (hrest : rest.position? ≠ none) :
    (start.append (.cons (.range first last) rest)).composed origin =
      (start.append rest).composed origin := by
  obtain ⟨position, hposition⟩ := Option.ne_none_iff_exists'.mp hrest
  apply composed_congr
  · rw [conditions_append, conditions_append]
    rfl
  · simp only [position?_append, position?_cons, hposition, Option.some_or]
  · simp only [schema?_append, schema?_cons, Call.schema?, Option.or_none]

/-- Whatever the order of the calls, the text has all conditions in the order in which they were
given, the position that was given last, and the schema that was given last; only a query for one
result has an index, and the schema of the answer is the last one, or an array of it.  So a schema
may be given at any time, and what is replaced leaves no trace. -/
theorem composed_normal_form (origin : Origin) (chain : Chain .many arity) (drawn : ℕ) :
    let query := ((chain.composed origin).run drawn).1
    let schema := chain.schema?.getD (.mk ⟨drawn⟩ (.leaf .unknown))
    (query.groq = "*" ++
        String.join ((origin.conditions ++ chain.conditions).map
          fun condition => "[" ++ condition.groq ++ "]") ++
        (chain.position?.map Slice.text).getD "[]" ++ (chain.schema?.map Node.groq).getD "") ∧
    ((∃ position, query.slice = some (.index position)) ↔ arity = .one) ∧
    (∀ supply, arity = .one → (query.resultSchema.run supply).1 = schema) ∧
    (∀ supply, arity = .many →
      (query.resultSchema.run supply).1.kind = .leaf (.array schema)) ∧
    (∀ {before after : Arity} (start : Chain .many before) (call : Call before after)
        (rest : Chain after arity) (schema : Node), call.schema? = none →
      (start.append (.cons (.grab schema) (.cons call rest))).composed origin =
        (start.append (.cons call (.cons (.grab schema) rest))).composed origin) ∧
    (∀ {before : Arity} (start : Chain .many before) (rest : Chain before arity) (schema : Node),
      rest.schema? ≠ none →
      (start.append (.cons (.grab schema) rest)).composed origin =
        (start.append rest).composed origin) ∧
    ∀ (start : Chain .many .many) (rest : Chain .many arity) (first last : ℕ),
      rest.position? ≠ none →
      (start.append (.cons (.range first last) rest)).composed origin =
        (start.append rest).composed origin := by
  intro query schema
  have hquery : query = ⟨schema, chain.position?, origin.conditions ++ chain.conditions⟩ :=
    congrArg Prod.fst (chain.composed_run origin drawn)
  have harity : Slice.arity query.slice = arity := chain.arity_composed origin drawn
  refine ⟨chain.groq_composed origin drawn, ?_, ?_, ?_, ?_, ?_, ?_⟩
  · rw [← Slice.arity_eq_one_iff, harity]
  · rintro supply rfl
    rw [hquery]
    rfl
  · rintro supply rfl
    rw [hquery]
    rfl
  · exact fun start call rest schema hcall => composed_grab_comm origin start hcall schema rest
  · exact fun start rest schema hrest => composed_grab_replaced origin start schema hrest
  · exact fun start rest first last hrest => composed_range_replaced origin start first last hrest

/-- A schema that is given early or late, and a range that gives way to an index. -/
theorem composed_normal_form_moved_schema :
    let origin := Origin.ofType "movie"
    let recent := Predicate.verbatim "year > 1990"
    let titles := Node.mk ⟨1⟩ (.projection [("title", .mk ⟨2⟩ (.leaf .string))] .none)
    let early := cons (.range 0 5) (cons (.grab titles) (cons (.filter recent) (cons (.nth 3) nil)))
    let late := cons (.filter recent) (cons (.nth 3) (cons (.grab titles) nil))
    early.composed origin = late.composed origin ∧
      ((late.composed origin).run 0).1.groq =
        "*[_type == \"movie\"][year > 1990][3]\x7btitle\x7d" := by
  intro origin recent titles early late
  obtain ⟨htext, -, -, -, hcomm, -, hrange⟩ := composed_normal_form origin late 0
  constructor
  · calc
      early.composed origin = (cons (.grab titles) (cons (.filter recent)
          (cons (.nth 3) nil))).composed origin := hrange nil _ 0 5 nofun
      _ = (cons (.filter recent) (cons (.grab titles) (cons (.nth 3) nil))).composed origin :=
        hcomm nil (.filter recent) (cons (.nth 3) nil) titles rfl
      _ = late.composed origin := hcomm (cons (.filter recent) nil) (.nth 3) nil titles rfl
  · rw [htext]
    rfl

end Chain

end Query

end ShapeQuery
