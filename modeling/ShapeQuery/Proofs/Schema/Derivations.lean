import Mathlib.Data.List.Basic
import ShapeQuery.Schema.Derive

/-!
# Derivations one after another

Deriving a node step by step comes to one derivation with the values that were given last.
Patches merge with the later one first, and merging is all that the steps do: nodes only ever
see the merged patch, and keep everything that is not an option, down to the identities of the
nodes that they are made of.
-/

namespace ShapeQuery

inductive Patch.Field where
  | filter
  | slice
  | expansion
  | spread
deriving DecidableEq

def Kind.carries : Kind → Patch.Field → Bool
  | .projection _ _, _ => true
  | .collection _ _, .filter | .collection _ _, .slice => true
  | .select _ _, .expansion => true
  | _, _ => false

def Kind.withoutOptions : Kind → Kind
  | .projection properties _ => .projection properties .none
  | .collection element _ => .collection element .none
  | .select branches _ => .select branches none
  | kind => kind

namespace Derivation

def filter? : Derivation → Option String
  | .filter condition => some condition
  | .patch values => values.filter
  | .slice _ | .expand _ | .dereference | .spread => none

def slice? : Derivation → Option Slice
  | .slice position => some position
  | .patch values => values.slice
  | .filter _ | .expand _ | .dereference | .spread => none

def expansion? : Derivation → Option Expansion
  | .expand expansion => some expansion
  | .dereference => some .always
  | .patch values => values.expansion
  | .filter _ | .slice _ | .spread => none

def spread? : Derivation → Option Bool
  | .spread => some true
  | .patch values => values.spread
  | .filter _ | .slice _ | .expand _ | .dereference => none

theorem toPatch_eq (step : Derivation) :
    step.toPatch = ⟨step.filter?, step.slice?, step.expansion?, step.spread?⟩ := by
  cases step <;> rfl

/-- The last of the values that the steps give to an option. -/
def last? {α : Type} (value? : Derivation → Option α) (steps : List Derivation) : Option α :=
  (steps.filterMap value?).getLast?

end Derivation

/-- The content that some steps come to.  An option that the kind has holds the value given
last, or else the one from before. -/
def Kind.afterSteps (steps : List Derivation) : Kind → Kind
  | .projection properties ⟨⟨filter, slice⟩, expansion, spread⟩ =>
      .projection properties
        ⟨⟨(Derivation.last? (·.filter?) steps).or filter,
            (Derivation.last? (·.slice?) steps).or slice⟩,
          (Derivation.last? (·.expansion?) steps).or expansion,
          (Derivation.last? (·.spread?) steps).getD spread⟩
  | .collection element ⟨filter, slice⟩ =>
      .collection element
        ⟨(Derivation.last? (·.filter?) steps).or filter,
          (Derivation.last? (·.slice?) steps).or slice⟩
  | .select branches expansion =>
      .select branches ((Derivation.last? (·.expansion?) steps).or expansion)
  | .leaf shape => .leaf shape
  | .fragment text schema => .fragment text schema
  | .nullable inner => .nullable inner

namespace Patch

def gives (patch : Patch) : Field → Bool
  | .filter => patch.filter.isSome
  | .slice => patch.slice.isSome
  | .expansion => patch.expansion.isSome
  | .spread => patch.spread.isSome

def only (patch : Patch) (fields : Field → Bool) : Patch where
  filter := if fields .filter then patch.filter else .none
  slice := if fields .slice then patch.slice else .none
  expansion := if fields .expansion then patch.expansion else .none
  spread := if fields .spread then patch.spread else .none

/-- For every option, the value that is given last. -/
def latest (patches : List Patch) : Patch where
  filter := (patches.filterMap Patch.filter).getLast?
  slice := (patches.filterMap Patch.slice).getLast?
  expansion := (patches.filterMap Patch.expansion).getLast?
  spread := (patches.filterMap Patch.spread).getLast?

/-- Two patches in one.  What the later one gives counts. -/
def merge (first later : Patch) : Patch where
  filter := later.filter.or first.filter
  slice := later.slice.or first.slice
  expansion := later.expansion.or first.expansion
  spread := later.spread.or first.spread

variable {first later : Patch}

theorem merge_assoc (first second third : Patch) :
    (first.merge second).merge third = first.merge (second.merge third) := by
  simp only [merge, Option.or_assoc]

theorem merge_self (patch : Patch) : patch.merge patch = patch := by
  simp only [merge, Option.or_self]

/-- Patches for different options merge in either order. -/
theorem merge_comm (hfields : ∀ field, first.gives field = true → later.gives field = false) :
    first.merge later = later.merge first := by
  -- An option with two candidates would be given by both patches.
  have hor {α : Type} {x y : Option α} (h : x.isSome = true → y.isSome = false) :
      y.or x = x.or y := by
    cases x <;> cases y <;> simp_all
  simp only [merge, hor (hfields .filter), hor (hfields .slice), hor (hfields .expansion),
    hor (hfields .spread)]

/-- What later patches give counts before what earlier ones give. -/
theorem latest_append (patches others : List Patch) :
    latest (patches ++ others) = (latest patches).merge (latest others) := by
  simp only [latest, merge, List.filterMap_append, List.getLast?_append]

theorem latest_singleton (patch : Patch) : latest [patch] = patch := by
  have hone {α : Type} (value? : Patch → Option α) :
      ([patch].filterMap value?).getLast? = value? patch := by
    cases h : value? patch <;> simp [h]
  simp only [latest, hone]

theorem latest_cons (patch : Patch) (patches : List Patch) :
    latest (patch :: patches) = patch.merge (latest patches) := by
  rw [← List.singleton_append, latest_append, latest_singleton]

theorem only_merge (first later : Patch) (fields : Field → Bool) :
    (first.merge later).only fields = (first.only fields).merge (later.only fields) := by
  simp only [only, merge, mk.injEq]
  refine ⟨?_, ?_, ?_, ?_⟩ <;> split <;> rfl

theorem latest_map_only (patches : List Patch) (fields : Field → Bool) :
    latest (patches.map fun patch => patch.only fields) = (latest patches).only fields := by
  induction patches with
  | nil => simp [latest, only]
  | cons patch patches ih => rw [List.map_cons, latest_cons, ih, latest_cons, only_merge]

/-- What the patches of some steps give last is what the steps give last. -/
theorem latest_toPatch (steps : List Derivation) :
    latest (steps.map Derivation.toPatch) =
      ⟨Derivation.last? (·.filter?) steps, Derivation.last? (·.slice?) steps,
        Derivation.last? (·.expansion?) steps, Derivation.last? (·.spread?) steps⟩ := by
  simp only [latest, List.filterMap_map, Function.comp_def, Derivation.toPatch_eq,
    Derivation.last?]

end Patch

namespace Kind

theorem patched_none (kind : Kind) : kind.patched .none = kind := by
  cases kind <;> rfl

/-- One patch after another is one patch. -/
theorem patched_patched (kind : Kind) (first later : Patch) :
    (kind.patched first).patched later = kind.patched (first.merge later) := by
  cases kind with
  | projection properties options =>
      simp only [patched, ProjectionOptions.patched, Narrowing.patched, Patch.merge,
        Option.or_assoc, Option.getD_or]
  | collection element narrowing =>
      simp only [patched, Narrowing.patched, Patch.merge, Option.or_assoc]
  | select branches expansion => simp only [patched, Patch.merge, Option.or_assoc]
  | leaf shape => rfl
  | fragment text schema => rfl
  | nullable inner => rfl

/-- Options that a kind does not have are not looked at. -/
theorem patched_only_carries (kind : Kind) (patch : Patch) :
    kind.patched (patch.only kind.carries) = kind.patched patch := by
  cases kind <;> rfl

/-- A patch with the values given last comes to what the steps come to, kind by kind. -/
theorem patched_latest (kind : Kind) (steps : List Derivation) :
    kind.patched (.latest (steps.map Derivation.toPatch)) = kind.afterSteps steps := by
  rw [Patch.latest_toPatch]
  cases kind <;> rfl

/-- Patches change options and nothing else. -/
theorem withoutOptions_patched (kind : Kind) (patch : Patch) :
    (kind.patched patch).withoutOptions = kind.withoutOptions := by
  cases kind <;> rfl

end Kind

namespace Node

variable {node : Node} {drawn : ℕ}

theorem derive_run (node : Node) (step : Derivation) (drawn : ℕ) :
    (node.derive step).run drawn = (.mk ⟨drawn⟩ (node.kind.patched step.toPatch), drawn + 1) :=
  rfl

theorem deriveAll_cons_run (node : Node) (step : Derivation) (rest : List Derivation) (drawn : ℕ) :
    (node.deriveAll (step :: rest)).run drawn =
      ((mk ⟨drawn⟩ (node.kind.patched step.toPatch)).deriveAll rest).run (drawn + 1) :=
  rfl

/-- Any number of steps patch the content once, with the values given last. -/
theorem kind_deriveAll (node : Node) (steps : List Derivation) (drawn : ℕ) :
    ((node.deriveAll steps).run drawn).1.kind =
      node.kind.patched (.latest (steps.map Derivation.toPatch)) := by
  induction steps generalizing node drawn with
  | nil => exact node.kind.patched_none.symm
  | cons step rest ih =>
      rw [deriveAll_cons_run, ih, kind, Kind.patched_patched, List.map_cons, Patch.latest_cons]

/-- The content depends on the patches only as far as they merge. -/
theorem kind_deriveAll_congr {steps others : List Derivation}
    (h : Patch.latest (steps.map Derivation.toPatch) = .latest (others.map Derivation.toPatch)) :
    ((node.deriveAll steps).run drawn).1.kind = ((node.deriveAll others).run drawn).1.kind := by
  rw [kind_deriveAll, kind_deriveAll, h]

/-- After any number of steps each option of a node holds the value given last, or else the one
from before.  That is deriving the node once with the values given last.  Options that the
node does not have may be left out of the steps, and all that is not an option stays as it is,
nodes with their identities.  Hence neighbouring steps for different options may change places,
and a step that is repeated changes the identity and nothing else. -/
theorem deriveAll_merges (node : Node) (drawn : ℕ) :
    (∀ steps : List Derivation,
      let final := ((node.deriveAll steps).run drawn).1
      final.kind = node.kind.afterSteps steps ∧
        final.kind =
          ((node.derive (.patch (.latest (steps.map Derivation.toPatch)))).run drawn).1.kind ∧
        final.kind = ((node.deriveAll
          (steps.map fun step => .patch (step.toPatch.only node.kind.carries))).run drawn).1.kind ∧
        final.kind.withoutOptions = node.kind.withoutOptions) ∧
    (∀ (before after : List Derivation) (first second : Derivation),
      (∀ field, first.toPatch.gives field = true → second.toPatch.gives field = false) →
      ((node.deriveAll (before ++ first :: second :: after)).run drawn).1.kind =
        ((node.deriveAll (before ++ second :: first :: after)).run drawn).1.kind) ∧
    (∀ (before after : List Derivation) (step : Derivation),
      ((node.deriveAll (before ++ step :: step :: after)).run drawn).1.kind =
        ((node.deriveAll (before ++ step :: after)).run drawn).1.kind) ∧
    ∀ step : Derivation,
      let once := (node.derive step).run drawn
      let again := (once.1.derive step).run once.2
      again.1.kind = once.1.kind ∧ again.1.id ≠ once.1.id := by
  refine ⟨fun steps => ⟨?latest, ?merged, ?carried, ?kept⟩, ?commute, ?repeated, ?again⟩
  case latest => rw [kind_deriveAll, Kind.patched_latest]
  case merged =>
    rw [kind_deriveAll, derive_run]
    rfl
  case carried =>
    rw [kind_deriveAll, kind_deriveAll, ← Kind.patched_only_carries, ← Patch.latest_map_only,
      List.map_map, List.map_map]
    rfl
  case kept => rw [kind_deriveAll, Kind.withoutOptions_patched]
  case commute =>
    intro before after first second hfields
    apply kind_deriveAll_congr
    simp only [List.map_append, List.map_cons, Patch.latest_append, Patch.latest_cons]
    rw [← Patch.merge_assoc first.toPatch, Patch.merge_comm hfields, Patch.merge_assoc]
  case repeated =>
    intro before after step
    apply kind_deriveAll_congr
    simp only [List.map_append, List.map_cons, Patch.latest_append, Patch.latest_cons]
    rw [← Patch.merge_assoc step.toPatch, Patch.merge_self]
  case again =>
    intro step
    refine ⟨?_, ?_⟩
    · simp only [derive_run, kind, Kind.patched_patched, Patch.merge_self]
    · simp [derive_run, id]

/-- A patch that makes a projection name its attributes only, and a slice that is taken
afterwards, or before.  Likewise on a collection, which has a filter and a slice, and on a
union, which has an expansion. -/
theorem deriveAll_merges_slice_and_patch :
    let title : Node := mk ⟨1⟩ (.leaf .string)
    let first : Derivation := .patch ⟨some "featured", none, none, some false⟩
    let second : Derivation := .slice (.index 0)
    let options : ProjectionOptions := ⟨⟨some "old", some (.index 9)⟩, some (.ofType "a"), true⟩
    let movie : Node := mk ⟨0⟩ (.projection [("title", title)] options)
    let titles : Node := mk ⟨0⟩ (.collection title options.toNarrowing)
    let choice : Node := mk ⟨0⟩ (.select [(.otherwise, title)] none)
    (∀ field, first.toPatch.gives field = true → second.toPatch.gives field = false) ∧
      ((movie.deriveAll ([.spread] ++ [first, second])).run 2).1.kind =
        .projection [("title", title)]
          ⟨⟨some "featured", some (.index 0)⟩, some (.ofType "a"), false⟩ ∧
      ((movie.deriveAll ([.spread] ++ [second, first])).run 2).1.kind =
        .projection [("title", title)]
          ⟨⟨some "featured", some (.index 0)⟩, some (.ofType "a"), false⟩ ∧
      ((titles.deriveAll [.dereference, first, second]).run 2).1.kind =
        .collection title ⟨some "featured", some (.index 0)⟩ ∧
      ((choice.deriveAll [.expand (.ofType "a"), first, .dereference]).run 2).1.kind =
        .select [(.otherwise, title)] (some .always) := by
  intro title first second options movie titles choice
  have hfields (field : Patch.Field) (hfirst : first.toPatch.gives field = true) :
      second.toPatch.gives field = false := by
    revert hfirst
    cases field <;> decide
  obtain ⟨hmovie, hcommute, -⟩ := deriveAll_merges movie 2
  obtain ⟨htitles, -⟩ := deriveAll_merges titles 2
  obtain ⟨hchoice, -⟩ := deriveAll_merges choice 2
  have hfeatured : ((movie.deriveAll ([.spread] ++ [first, second])).run 2).1.kind =
      .projection [("title", title)]
        ⟨⟨some "featured", some (.index 0)⟩, some (.ofType "a"), false⟩ :=
    (hmovie ([.spread] ++ [first, second])).1.trans rfl
  exact ⟨hfields, hfeatured, (hcommute [.spread] [] first second hfields).symm.trans hfeatured,
    (htitles [.dereference, first, second]).1.trans rfl,
    (hchoice [.expand (.ofType "a"), first, .dereference]).1.trans rfl⟩

end Node

end ShapeQuery
