import ShapeQuery.Proofs.Validation.Places

/-!
# Checks at any place

A check is told where its value stands and what was found before.  On the way it also checks for
itself, to see whether a member of a union accepts the value or an attribute may be missing.  All
of this comes to the same at every place and behind all issues: what is appended are the issues of
the value, moved to the place, and of what is checked on the side only the outcome is seen.
-/

namespace ShapeQuery

namespace Node

variable {schema : Node} {members : List Node} {properties : List (String × Node)}

instance (schema : Node) (value : Json) : Decidable (schema.Accepts value) :=
  inferInstanceAs (Decidable (_ = _))

def alternatives? (node : Node) : Option (List Node) :=
  match node.kind with
  | .leaf (.union members) => some members
  | .select branches _ => some (branches.map Prod.snd)
  | _ => none

/-- What was found before stays, and what is found now is moved below the place. -/
theorem checkInto_eq_append (schema : Node) (value : Json) (path : String)
    (issues : Array Issue) :
    schema.checkInto value path issues =
      issues ++ ((schema.check value).map (Issue.below path)).toArray := by
  rw [schema.appends_checkInto value path issues, check, ← Array.toList_map, Array.toArray_toList]

/-- Nothing is appended for accepted values, and for no others. -/
theorem checkInto_eq_self_iff (schema : Node) (value : Json) (path : String)
    (issues : Array Issue) :
    schema.checkInto value path issues = issues ↔ schema.Accepts value := by
  rw [checkInto_eq_append, Array.append_right_eq_self]
  simp [Accepts]

/-- A union has one issue with a value, or none. -/
theorem check_of_alternatives (hschema : schema.alternatives? = some members) (value : Json) :
    schema.check value = Issue.failing (members.any fun member => (member.check value).isEmpty)
      "Expected union value" := by
  obtain ⟨id, kind⟩ := schema
  unfold alternatives? at hschema
  split at hschema
  · next hkind =>
      obtain rfl : kind = _ := hkind
      obtain rfl := Option.some.inj hschema
      exact check_union id value _
  · next branches expansion hkind =>
      obtain rfl : kind = _ := hkind
      obtain rfl := Option.some.inj hschema
      rw [check_select, List.any_map]
      rfl
  · exact absurd hschema.symm (Option.some_ne_none _)

/-- Of the members that a union turns down, nothing is seen but that it turns them down. -/
theorem checkInto_of_alternatives (hschema : schema.alternatives? = some members) (value : Json)
    (path : String) (issues : Array Issue) :
    schema.checkInto value path issues =
      if ∃ member ∈ members, member.Accepts value then issues
      else issues.push ⟨path, "Expected union value"⟩ := by
  have hany : (members.any fun member => (member.check value).isEmpty) = true ↔
      ∃ member ∈ members, member.Accepts value := by simp [Accepts]
  rw [checkInto_eq_append, check_of_alternatives hschema]
  by_cases haccepted : ∃ member ∈ members, member.Accepts value
  · rw [if_pos haccepted, hany.mpr haccepted]
    simp [Issue.failing]
  · rw [if_neg haccepted, Bool.eq_false_iff.mpr (mt hany.mp haccepted)]
    simp [Issue.failing, Issue.below]

/-- What is found of an attribute of an object that stands at a place.  An attribute that is not
there only has to be one that may be null. -/
def attributeAt (path key : String) (node : Node) : Option Json → List Issue
  | some held => (node.check held).map (Issue.below (Pointer.child path key))
  | none =>
      if node.Accepts .null then []
      else [⟨Pointer.child path key, "Expected required property"⟩]

theorem map_below_under_ofAttribute (path key : String) (node : Node) (held : Option Json) :
    (Issue.under key (Issue.ofAttribute node held)).map (Issue.below path) =
      node.attributeAt path key held := by
  have hunder (issues : List Issue) : (Issue.under key issues).map (Issue.below path) =
      issues.map (Issue.below (Pointer.child path key)) := by
    rw [Issue.under, List.map_map]
    congr 1
    funext issue
    exact (Issue.below_child path key issue).symm
  rw [hunder]
  cases held with
  | some value => rfl
  | none =>
      have hempty : (node.check .null).isEmpty = true ↔ node.Accepts .null := List.isEmpty_iff
      by_cases hnull : node.Accepts .null
      · simp [attributeAt, Issue.ofAttribute, Issue.failing, hempty.mpr hnull, hnull]
      · simp [attributeAt, Issue.ofAttribute, Issue.failing, Issue.below,
          Bool.eq_false_iff.mpr (mt hempty.mp hnull), hnull]

theorem checkInto_of_properties (hschema : schema.properties? = some properties)
    (fields : List (String × Json)) (path : String) (issues : Array Issue) :
    schema.checkInto (.object fields) path issues =
      issues ++ (properties.flatMap fun property =>
        property.2.attributeAt path property.1 (fields.lookup property.1)).toArray := by
  rw [checkInto_eq_append, check_of_properties hschema, Issue.ofProperties, List.map_flatMap]
  simp only [map_below_under_ofAttribute]

/-- A check appends to the issues found before what it finds at the root, with the place put before
every path and no other change.  So whether a value is accepted is the same everywhere: a union
passes or fails as a whole by what its members accept, and an attribute may be missing when null is
accepted for it. -/
theorem checkInto_at_any_place (schema : Node) (value : Json) (path : String)
    (issues : Array Issue) :
    schema.checkInto value path issues =
        issues ++ ((schema.check value).map (Issue.below path)).toArray ∧
      (schema.checkInto value path issues = issues ↔ schema.Accepts value) ∧
      (∀ members, schema.alternatives? = some members →
        schema.checkInto value path issues =
          if ∃ member ∈ members, member.Accepts value then issues
          else issues.push ⟨path, "Expected union value"⟩) ∧
      ∀ properties fields, schema.properties? = some properties → value = .object fields →
        schema.checkInto value path issues =
          issues ++ (properties.flatMap fun property =>
            property.2.attributeAt path property.1 (fields.lookup property.1)).toArray := by
  refine ⟨checkInto_eq_append schema value path issues,
    checkInto_eq_self_iff schema value path issues, ?_, ?_⟩
  · intro members hschema
    exact checkInto_of_alternatives hschema value path issues
  · rintro properties fields hschema rfl
    exact checkInto_of_properties hschema fields path issues

/-- A cast of which no member is accepted, each with issues of its own further down, and an object
that lacks one attribute which may be missing and one which may not. -/
theorem checkInto_at_any_place_rejected_members :
    let name := mk ⟨0⟩ (.leaf .string)
    let person := mk ⟨1⟩ (.projection [("name", name), ("born", mk ⟨2⟩ (.nullable name))] .none)
    let credit := mk ⟨3⟩ (.leaf (.union [person, mk ⟨4⟩ (.leaf (.array person))]))
    let before : Array Issue := #[⟨"/title", "Expected string"⟩]
    credit.alternatives? = some [person, mk ⟨4⟩ (.leaf (.array person))] ∧
      person.properties? = some [("name", name), ("born", mk ⟨2⟩ (.nullable name))] ∧
      credit.checkInto (.array [.object []]) "/cast/0" before =
        before.push ⟨"/cast/0", "Expected union value"⟩ ∧
      person.checkInto (.object []) "/cast/0" before =
        before.push ⟨"/cast/0/name", "Expected required property"⟩ := by
  intro name person credit before
  obtain ⟨-, -, hcredit, -⟩ :=
    checkInto_at_any_place credit (.array [.object []]) "/cast/0" before
  obtain ⟨-, -, -, hperson⟩ := checkInto_at_any_place person (.object []) "/cast/0" before
  refine ⟨rfl, rfl, ?_, ?_⟩
  · rw [hcredit _ rfl]
    exact if_neg (by decide)
  · rw [hperson _ _ rfl rfl]
    decide

end Node

end ShapeQuery
