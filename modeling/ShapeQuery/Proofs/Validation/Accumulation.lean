import ShapeQuery.Proofs.Schema.Induction
import ShapeQuery.Validation.Check

/-!
# Issues found on the way

A check threads the place of a value and the issues found so far.  Neither has
any influence on what it finds: it appends the issues it would find at the root,
moved below the place.  The issues of a value are therefore put together from
those of its parts.
-/

namespace ShapeQuery

namespace Issue

/-- The issue in a value that a pointer leads to. -/
def below (path : String) (issue : Issue) : Issue :=
  { issue with path := path ++ issue.path }

@[simp]
theorem below_empty : below "" = id := by
  funext issue
  simp [below]

/-- An issue moves down a joined pointer as it moves down its parts. -/
theorem below_append (outer inner : String) (issue : Issue) :
    issue.below (outer ++ inner) = (issue.below inner).below outer := by
  simp [below, String.append_assoc]

theorem below_child (path key : String) (issue : Issue) :
    issue.below (Pointer.child path key) =
      (issue.below (Pointer.child "" key)).below path := by
  rw [← below_append]
  simp [Pointer.child, String.append_assoc]

end Issue

namespace Check

/-- A check that appends its issues, moved below the place it is given. -/
def Appends (check : String → Array Issue → Array Issue) : Prop :=
  ∀ path issues, check path issues = issues ++ (check "" #[]).map (Issue.below path)

/-- The issues that a check finds at the root. -/
def found (check : String → Array Issue → Array Issue) : List Issue :=
  (check "" #[]).toList

section Combinators

variable {check first second : String → Array Issue → Array Issue}

theorem appends_skip : Appends fun _ issues => issues := by
  intro path issues
  simp

theorem appends_push (message : String) :
    Appends fun path issues => issues.push ⟨path, message⟩ := by
  intro path issues
  simp [Issue.below]

theorem appends_require (holds : Bool) (message : String) :
    Appends (require holds message) := by
  intro path issues
  cases holds <;> simp [require, Issue.below]

theorem appends_child (hcheck : Appends check) (key : String) :
    Appends fun path => check (Pointer.child path key) := by
  intro path issues
  simp only
  rw [hcheck (Pointer.child path key), hcheck (Pointer.child "" key) #[]]
  simp [Function.comp_def, ← Issue.below_child]

/-- One check after another appends if both do. -/
theorem appends_then (hfirst : Appends first) (hsecond : Appends second) :
    Appends fun path issues => second path (first path issues) := by
  intro path issues
  simp only
  rw [hsecond path, hfirst path, hsecond "" (first "" #[])]
  simp [Array.append_assoc]

theorem found_require (holds : Bool) (message : String) :
    found (require holds message) = if holds then [] else [⟨"", message⟩] := by
  cases holds <;> simp [found, require]

theorem found_child (hcheck : Appends check) (key : String) :
    found (fun path => check (Pointer.child path key)) =
      (found check).map (Issue.below (Pointer.child "" key)) := by
  simp only [found]
  rw [hcheck (Pointer.child "" key) #[]]
  simp

theorem found_then (hsecond : Appends second) :
    found (fun path issues => second path (first path issues)) =
      found first ++ found second := by
  simp only [found]
  rw [hsecond "" (first "" #[])]
  simp

theorem isEmpty_of_appends (hcheck : Appends check) (path : String) :
    (check path #[]).isEmpty = (found check).isEmpty := by
  rw [hcheck path, found, Bool.eq_iff_iff]
  simp

end Combinators

theorem appends_elementKey (item : Json) : Appends (elementKey item) := by
  unfold elementKey
  cases item.field? "_key" with
  | none => exact appends_skip
  | some key => exact appends_child (appends_require _ _) "_key"

section Containers

variable {check : Json → String → Array Issue → Array Issue}

def item (check : Json → String → Array Issue → Array Issue) (keyed : Bool) (value : Json)
    (path : String) (issues : Array Issue) : Array Issue :=
  if keyed then elementKey value path (check value path issues) else check value path issues

theorem appends_item (hcheck : ∀ value, Appends (check value)) (keyed : Bool)
    (value : Json) : Appends (item check keyed value) := by
  cases keyed with
  | false => exact hcheck value
  | true =>
      have hboth : Appends fun path issues => elementKey value path (check value path issues) :=
        appends_then (hcheck value) (appends_elementKey value)
      exact hboth

theorem items_cons (keyed : Bool) (position : Nat) (value : Json) (rest : List Json) :
    items check keyed position (value :: rest) = fun path issues =>
      items check keyed (position + 1) rest path
        (item check keyed value (Pointer.child path (toString position)) issues) := by
  funext path issues
  rw [items, item]

theorem appends_items (hcheck : ∀ value, Appends (check value)) (keyed : Bool)
    (values : List Json) : ∀ position, Appends (items check keyed position values) := by
  induction values with
  | nil => exact fun _ => appends_skip
  | cons value rest ih =>
      intro position
      rw [items_cons]
      exact appends_then (appends_child (appends_item hcheck keyed value) _) (ih _)

/-- Every item has its issues below its position. -/
theorem found_items (hcheck : ∀ value, Appends (check value)) (keyed : Bool)
    (values : List Json) (position : Nat) :
    found (items check keyed position values) =
      (values.zipIdx position).flatMap fun entry =>
        (found (item check keyed entry.1)).map
          (Issue.below (Pointer.child "" (toString entry.2))) := by
  induction values generalizing position with
  | nil => rfl
  | cons value rest ih =>
      rw [items_cons, found_then (appends_items hcheck keyed rest _),
        found_child (appends_item hcheck keyed value), ih, List.zipIdx_cons,
        List.flatMap_cons]

theorem appends_array (hcheck : ∀ value, Appends (check value)) (keyed : Bool)
    (value : Json) : Appends (array check keyed value) := by
  cases value with
  | array values => exact appends_items hcheck keyed values 0
  | _ => exact appends_push _

theorem attributes_cons (key : String) (value : Json) (rest : List (String × Json)) :
    attributes check ((key, value) :: rest) = fun path issues =>
      attributes check rest path (check value (Pointer.child path key) issues) := rfl

theorem appends_attributes (hcheck : ∀ value, Appends (check value))
    (fields : List (String × Json)) : Appends (attributes check fields) := by
  induction fields with
  | nil => exact appends_skip
  | cons field rest ih =>
      obtain ⟨key, value⟩ := field
      rw [attributes_cons]
      exact appends_then (appends_child (hcheck value) key) ih

/-- Every attribute has its issues below its name. -/
theorem found_attributes (hcheck : ∀ value, Appends (check value))
    (fields : List (String × Json)) :
    found (attributes check fields) = fields.flatMap fun field =>
      (found (check field.2)).map (Issue.below (Pointer.child "" field.1)) := by
  induction fields with
  | nil => rfl
  | cons field rest ih =>
      obtain ⟨key, value⟩ := field
      rw [attributes_cons, found_then (appends_attributes hcheck rest),
        found_child (hcheck value), ih, List.flatMap_cons]

theorem appends_record (hcheck : ∀ value, Appends (check value)) (value : Json) :
    Appends (record check value) := by
  cases value with
  | object fields => exact appends_attributes hcheck fields
  | _ => exact appends_push _

end Containers

end Check

end ShapeQuery
