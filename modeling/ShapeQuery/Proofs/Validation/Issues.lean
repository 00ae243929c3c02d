import ShapeQuery.Proofs.Validation.Acceptance

/-!
# Issues part by part

The issues that a schema has with a value are those with its parts, in the order of the parts and
under their keys.  So what holds of all issues is shown part by part, and neither the place of a
value nor the issues found before come up any more.
-/

namespace ShapeQuery

open Check

namespace Issue

/-- The issues of a part of a value, as issues of the value. -/
def under (key : String) (issues : List Issue) : List Issue :=
  issues.map (below (Pointer.child "" key))

def failing (holds : Bool) (message : String) : List Issue :=
  if holds then [] else [⟨"", message⟩]

theorem mem_under {key : String} {issues : List Issue} {issue : Issue} :
    issue ∈ under key issues ↔ ∃ inner ∈ issues, inner.below (Pointer.child "" key) = issue :=
  List.mem_map

theorem mem_failing {holds : Bool} {message : String} {issue : Issue} :
    issue ∈ failing holds message ↔ holds = false ∧ issue = ⟨"", message⟩ := by
  cases holds <;> simp [failing]

def ofKey (item : Json) : List Issue :=
  match item.field? "_key" with
  | some key => under "_key" (failing key.isStringOrNull "Expected string")
  | none => []

def ofAttribute (node : Node) : Option Json → List Issue
  | some value => node.check value
  | none => failing (node.check .null).isEmpty "Expected required property"

/-- The issues with a value that has to be an object with properties. -/
def ofProperties (properties : List (String × Node)) : Json → List Issue
  | .object fields => properties.flatMap fun property =>
      under property.1 (ofAttribute property.2 (fields.lookup property.1))
  | _ => [⟨"", "Expected object"⟩]

def ofFields (item : Node) : Json → List Issue
  | .object fields => fields.flatMap fun field => under field.1 (item.check field.2)
  | _ => [⟨"", "Expected object"⟩]

/-- The issues with a value that has to be an array, of items with keys where these are wanted. -/
def ofItems (element : Node) (keyed : Bool) : Json → List Issue
  | .array items => items.zipIdx.flatMap fun entry =>
      under (toString entry.2) (element.check entry.1 ++ if keyed then ofKey entry.1 else [])
  | _ => [⟨"", "Expected array"⟩]

theorem found_elementKey (item : Json) : found (elementKey item) = ofKey item := by
  unfold elementKey ofKey
  cases item.field? "_key" with
  | none => rfl
  | some key => exact (found_child (appends_require _ _) _).trans (by rw [found_require]; rfl)

theorem found_item (node : Node) (keyed : Bool) (value : Json) :
    found (item node.checkInto keyed value) =
      node.check value ++ if keyed then ofKey value else [] := by
  cases keyed with
  | false => exact (List.append_nil _).symm
  | true =>
      have hboth : found (item node.checkInto true value) =
          node.check value ++ found (elementKey value) := found_then (appends_elementKey value)
      rw [hboth, found_elementKey]
      rfl

theorem found_checkAttribute (node : Node) (held : Option Json) :
    found (node.checkAttribute held) = ofAttribute node held := by
  cases held with
  | none => exact found_require _ _
  | some value => rfl

theorem found_array (element : Node) (keyed : Bool) (value : Json) :
    found (array element.checkInto keyed value) = ofItems element keyed value := by
  cases value with
  | array items =>
      refine (found_items element.appends_checkInto keyed items 0).trans ?_
      simp only [found_item]
      rfl
  | _ => rfl

theorem found_record (node : Node) (value : Json) :
    found (record node.checkInto value) = ofFields node value := by
  cases value with
  | object fields => exact found_attributes node.appends_checkInto fields
  | _ => rfl

end Issue

namespace Node

variable (id : Identity) (value : Json)

theorem check_null : (mk id (.leaf .null)).check value =
    Issue.failing (isNull value) "Expected null" := found_require _ _

theorem check_boolean : (mk id (.leaf .boolean)).check value =
    Issue.failing (isBoolean value) "Expected boolean" := found_require _ _

theorem check_number : (mk id (.leaf .number)).check value =
    Issue.failing (isNumber value) "Expected number" := found_require _ _

theorem check_integer : (mk id (.leaf .integer)).check value =
    Issue.failing (isInteger value) "Expected integer" := found_require _ _

theorem check_string : (mk id (.leaf .string)).check value =
    Issue.failing (isString value) "Expected string" := found_require _ _

theorem check_literal (literal : Json) : (mk id (.leaf (.literal literal))).check value =
    Issue.failing (value.same literal) ("Expected " ++ literal.text) := found_require _ _

/-- A wrapper for null finds nothing of its own. -/
theorem check_nullable {schema : Node} {value : Json} (hvalue : value ≠ .null) :
    (mk id (.nullable schema)).check value = schema.check value := by
  cases value with
  | null => exact absurd rfl hvalue
  | _ => rfl

theorem check_record (item : Node) :
    (mk id (.leaf (.record item))).check value = Issue.ofFields item value :=
  Issue.found_record item value

theorem check_array (item : Node) :
    (mk id (.leaf (.array item))).check value = Issue.ofItems item false value :=
  Issue.found_array item false value

/-- Keys are wanted of structured elements. -/
theorem check_collection (element : Node) (narrowing : Narrowing) :
    (mk id (.collection element narrowing)).check value =
      Issue.ofItems element element.isStructured value :=
  Issue.found_array element element.isStructured value

theorem check_projection (properties : List (String × Node)) (options : ProjectionOptions) :
    (mk id (.projection properties options)).check value = Issue.ofProperties properties value := by
  cases value with
  | object fields =>
      refine (found_checkProperties properties fields).trans ?_
      simp only [Issue.found_checkAttribute]
      rfl
  | _ => rfl

theorem check_object (properties : List (String × Node)) :
    (mk id (.leaf (.object properties))).check value = Issue.ofProperties properties value := by
  rw [← check_projection id value properties .none]
  cases value <;> rfl

theorem check_select (branches : List (Guard × Node)) (expansion : Option Expansion) :
    (mk id (.select branches expansion)).check value =
      Issue.failing (branches.any fun branch => (branch.2.check value).isEmpty)
        "Expected union value" := by
  rw [← anyBranchAccepts_eq (fun branch _ => branch.2.appends_checkInto value) ""]
  exact found_require _ _

theorem check_union (members : List Node) :
    (mk id (.leaf (.union members))).check value =
      Issue.failing (members.any fun member => (member.check value).isEmpty)
        "Expected union value" := by
  rw [← anyMemberAccepts_eq (fun member _ => member.appends_checkInto value) ""]
  exact found_require _ _

end Node

end ShapeQuery
