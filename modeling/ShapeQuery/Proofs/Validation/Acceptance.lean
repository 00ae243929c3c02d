import ShapeQuery.Proofs.Validation.Accumulation

/-!
# Acceptance

A schema accepts a value when it has no issue with it.  Every kind of node and
shape accepts by what its parts accept, whatever the place of the value and the
issues found before.
-/

namespace ShapeQuery

open Check

/-- A schema that has no issue with a value. -/
def Node.Accepts (schema : Node) (value : Json) : Prop :=
  schema.check value = []

theorem Node.isEmpty_checkInto {node : Node} {value : Json}
    (hcheck : Appends (node.checkInto value)) (path : String) :
    (node.checkInto value path #[]).isEmpty = (node.check value).isEmpty :=
  isEmpty_of_appends hcheck path

/-- Which members accept a value does not depend on its place. -/
theorem anyMemberAccepts_eq {members : List Node} {value : Json}
    (hcheck : ∀ member ∈ members, Appends (member.checkInto value)) (path : String) :
    anyMemberAccepts members value path =
      members.any fun member => (member.check value).isEmpty := by
  induction members with
  | nil => rfl
  | cons member rest ih =>
      obtain ⟨hmember, hrest⟩ := List.forall_mem_cons.mp hcheck
      rw [anyMemberAccepts, Node.isEmpty_checkInto hmember, ih hrest, List.any_cons]

theorem anyBranchAccepts_eq {branches : List (Guard × Node)} {value : Json}
    (hcheck : ∀ branch ∈ branches, Appends (branch.2.checkInto value)) (path : String) :
    anyBranchAccepts branches value path =
      branches.any fun branch => (branch.2.check value).isEmpty := by
  induction branches with
  | nil => rfl
  | cons branch rest ih =>
      obtain ⟨hbranch, hrest⟩ := List.forall_mem_cons.mp hcheck
      rw [anyBranchAccepts, Node.isEmpty_checkInto hbranch, ih hrest, List.any_cons]

def Node.checkAttribute (node : Node) : Option Json → String → Array Issue → Array Issue
  | some value => node.checkInto value
  | none => require (node.check .null).isEmpty "Expected required property"

theorem checkProperties_cons (key : String) (node : Node) (rest : List (String × Node))
    (fields : List (String × Json)) :
    checkProperties ((key, node) :: rest) fields = fun path issues =>
      checkProperties rest fields path
        (node.checkAttribute (fields.lookup key) (Pointer.child path key) issues) := by
  funext path issues
  rw [checkProperties]
  cases fields.lookup key with
  | none => simp only [Node.checkAttribute, Node.check, Array.isEmpty_toList]
  | some value => rfl

theorem Node.appends_checkAttribute {node : Node}
    (hcheck : ∀ value, Appends (node.checkInto value)) (held : Option Json) :
    Appends (node.checkAttribute held) := by
  cases held with
  | none => exact appends_require _ _
  | some value => exact hcheck value

theorem appends_checkProperties {properties : List (String × Node)}
    (hcheck : ∀ property ∈ properties, ∀ value, Appends (property.2.checkInto value))
    (fields : List (String × Json)) : Appends (checkProperties properties fields) := by
  induction properties with
  | nil => exact appends_skip
  | cons property rest ih =>
      obtain ⟨key, node⟩ := property
      obtain ⟨hnode, hrest⟩ := List.forall_mem_cons.mp hcheck
      rw [checkProperties_cons]
      exact appends_then (appends_child (Node.appends_checkAttribute hnode _) key) (ih hrest)

theorem Shape.appends_checkInto {shape : Shape}
    (hcheck : ∀ child ∈ shape.children, ∀ value, Appends (child.checkInto value))
    (value : Json) : Appends (shape.checkInto value) := by
  cases shape with
  | unknown => exact appends_skip
  | null | boolean | number | integer | string | literal => exact appends_require _ _
  | object properties =>
      cases value with
      | object fields =>
          refine appends_checkProperties (fun property hproperty => ?_) fields
          exact hcheck property.2 (List.mem_map_of_mem hproperty)
      | _ => exact appends_push _
  | record item => exact appends_record (hcheck item (List.mem_singleton_self item)) value
  | array item => exact appends_array (hcheck item (List.mem_singleton_self item)) false value
  | union members =>
      have hmembers : ∀ member ∈ members, Appends (member.checkInto value) :=
        fun member hmember => hcheck member hmember value
      intro path issues
      simp only [Shape.checkInto, anyMemberAccepts_eq hmembers]
      exact appends_require _ _ path issues

/-- A node appends the issues it would find at the root to those found before. -/
theorem Node.appends_checkInto (node : Node) (value : Json) :
    Appends (node.checkInto value) := by
  induction node using Node.induction generalizing value with
  | leaf id shape hchildren => exact shape.appends_checkInto hchildren value
  | fragment id text schema hschema => exact hschema value
  | nullable id inner hinner =>
      intro path issues
      simp only [Node.checkInto, Kind.checkInto]
      split
      · simp
      · exact hinner value path issues
  | projection id properties options hproperties =>
      cases value with
      | object fields => exact appends_checkProperties hproperties fields
      | _ => exact appends_push _
  | collection id element narrowing helement =>
      exact appends_array helement element.isStructured value
  | select id branches expansion hbranches =>
      have hvalue : ∀ branch ∈ branches, Appends (branch.2.checkInto value) :=
        fun branch hbranch => hbranches branch hbranch value
      intro path issues
      simp only [Node.checkInto, Kind.checkInto, anyBranchAccepts_eq hvalue]
      exact appends_require _ _ path issues

theorem found_checkProperties (properties : List (String × Node))
    (fields : List (String × Json)) :
    found (checkProperties properties fields) = properties.flatMap fun property =>
      (found (property.2.checkAttribute (fields.lookup property.1))).map
        (Issue.below (Pointer.child "" property.1)) := by
  induction properties with
  | nil => rfl
  | cons property rest ih =>
      obtain ⟨key, node⟩ := property
      have hnode := Node.appends_checkAttribute node.appends_checkInto (fields.lookup key)
      have hrest : Appends (checkProperties rest fields) :=
        appends_checkProperties (fun property _ => property.2.appends_checkInto) fields
      rw [checkProperties_cons, found_then hrest, found_child hnode, ih, List.flatMap_cons]

/-- A missing attribute counts as null. -/
theorem found_checkAttribute_eq_nil (node : Node) (held : Option Json) :
    found (node.checkAttribute held) = [] ↔ node.Accepts (held.getD .null) := by
  cases held with
  | none => simp [Node.checkAttribute, found_require, Node.Accepts]
  | some value => rfl

theorem found_elementKey_eq_nil (item : Json) :
    found (elementKey item) = [] ↔
      ∀ key, item.field? "_key" = some key → key.isStringOrNull = true := by
  unfold elementKey
  cases item.field? "_key" with
  | none => simp [found]
  | some key => simp [found_child (appends_require _ _), found_require]

theorem found_item_eq_nil {node : Node} (keyed : Bool) (value : Json) :
    found (item node.checkInto keyed value) = [] ↔
      node.Accepts value ∧ (keyed = true → found (elementKey value) = []) := by
  cases keyed with
  | false => simp [item, found, Node.Accepts, Node.check]
  | true =>
      have hboth : found (item node.checkInto true value) =
          node.check value ++ found (elementKey value) :=
        found_then (appends_elementKey value)
      rw [hboth, List.append_eq_nil_iff]
      simp [Node.Accepts]

theorem forall_mem_zipIdx {α : Type} {motive : α → Prop} (values : List α) (position : Nat) :
    (∀ entry ∈ values.zipIdx position, motive entry.1) ↔ ∀ value ∈ values, motive value := by
  have hmap : (∀ value ∈ (values.zipIdx position).map Prod.fst, motive value) ↔
      ∀ entry ∈ values.zipIdx position, motive entry.1 := List.forall_mem_map
  rw [List.zipIdx_map_fst] at hmap
  exact hmap.symm

theorem found_array_eq_nil (node : Node) (keyed : Bool) (value : Json) :
    found (array node.checkInto keyed value) = [] ↔
      ∃ items, value = .array items ∧ ∀ item ∈ items,
        node.Accepts item ∧ (keyed = true → found (elementKey item) = []) := by
  cases value with
  | array items =>
      have hitems : found (array node.checkInto keyed (.array items)) = _ :=
        found_items node.appends_checkInto keyed items 0
      have hmem := forall_mem_zipIdx (motive := fun item =>
        node.Accepts item ∧ (keyed = true → found (elementKey item) = [])) items 0
      rw [hitems, List.flatMap_eq_nil_iff]
      simp only [List.map_eq_nil_iff, found_item_eq_nil]
      rw [hmem]
      simp
  | _ => simp [array, found]

theorem found_record_eq_nil (node : Node) (value : Json) :
    found (record node.checkInto value) = [] ↔
      ∃ fields, value = .object fields ∧ ∀ field ∈ fields, node.Accepts field.2 := by
  cases value with
  | object fields =>
      have hfields : found (record node.checkInto (.object fields)) = _ :=
        found_attributes node.appends_checkInto fields
      rw [hfields, List.flatMap_eq_nil_iff]
      simp [Node.Accepts, found, Node.check]
  | _ => simp [record, found]

/-- An attribute that is not there is accepted if null is. -/
theorem found_checkProperties_eq_nil (properties : List (String × Node))
    (fields : List (String × Json)) :
    found (checkProperties properties fields) = [] ↔ ∀ property ∈ properties,
      property.2.Accepts ((fields.lookup property.1).getD .null) := by
  rw [found_checkProperties, List.flatMap_eq_nil_iff]
  simp only [List.map_eq_nil_iff, found_checkAttribute_eq_nil]

namespace Node

/-- A node accepts a value exactly when decoding hands the value back. -/
theorem decode_eq_ok_iff (schema : Node) (value result : Json) :
    schema.decode value = .ok result ↔ schema.Accepts value ∧ result = value := by
  unfold decode Accepts
  cases schema.check value with
  | nil => simp [eq_comm]
  | cons issue rest => simp

theorem accepts_of_require {node : Node} {value : Json} {holds : Bool} {message : String}
    (hcheck : node.check value = found (require holds message)) :
    node.Accepts value ↔ holds = true := by
  rw [Accepts, hcheck, found_require]
  simp

/-- Null is accepted besides what the inner node accepts. -/
theorem accepts_nullable (id : Identity) (inner : Node) (value : Json) :
    (mk id (.nullable inner)).Accepts value ↔ value = .null ∨ inner.Accepts value := by
  cases value with
  | null => simp [Accepts, check, checkInto, Kind.checkInto, isNull]
  | _ => simp [Accepts, check, checkInto, Kind.checkInto, isNull]

/-- A projection accepts objects by the attributes that it names. -/
theorem accepts_projection (id : Identity) (properties : List (String × Node))
    (options : ProjectionOptions) (value : Json) :
    (mk id (.projection properties options)).Accepts value ↔
      ∃ fields, value = .object fields ∧ ∀ property ∈ properties,
        property.2.Accepts ((fields.lookup property.1).getD .null) := by
  cases value with
  | object fields =>
      refine (found_checkProperties_eq_nil properties fields).trans ?_
      simp
  | _ => simp [Accepts, check, checkInto, Kind.checkInto]

/-- A plain object accepts what a projection of its properties accepts. -/
theorem accepts_object (id : Identity) (properties : List (String × Node)) (value : Json) :
    (mk id (.leaf (.object properties))).Accepts value ↔
      ∃ fields, value = .object fields ∧ ∀ property ∈ properties,
        property.2.Accepts ((fields.lookup property.1).getD .null) := by
  cases value with
  | object fields =>
      refine (found_checkProperties_eq_nil properties fields).trans ?_
      simp
  | _ => simp [Accepts, check, checkInto, Kind.checkInto, Shape.checkInto]

/-- Structured elements may have a key, which is then a string or null. -/
theorem accepts_collection (id : Identity) (element : Node) (narrowing : Narrowing)
    (value : Json) :
    (mk id (.collection element narrowing)).Accepts value ↔
      ∃ items, value = .array items ∧ ∀ item ∈ items, element.Accepts item ∧
        (element.isStructured = true → found (elementKey item) = []) :=
  found_array_eq_nil element element.isStructured value

theorem accepts_array (id : Identity) (element : Node) (value : Json) :
    (mk id (.leaf (.array element))).Accepts value ↔
      ∃ items, value = .array items ∧ ∀ item ∈ items, element.Accepts item := by
  refine (found_array_eq_nil element false value).trans ?_
  simp

theorem accepts_record (id : Identity) (item : Node) (value : Json) :
    (mk id (.leaf (.record item))).Accepts value ↔
      ∃ fields, value = .object fields ∧ ∀ field ∈ fields, item.Accepts field.2 :=
  found_record_eq_nil item value

/-- A union accepts what one of its branches accepts, whatever the guards. -/
theorem accepts_select (id : Identity) (branches : List (Guard × Node))
    (expansion : Option Expansion) (value : Json) :
    (mk id (.select branches expansion)).Accepts value ↔
      ∃ branch ∈ branches, branch.2.Accepts value := by
  have hissues : (mk id (.select branches expansion)).check value =
      found (require (anyBranchAccepts branches value "") "Expected union value") := rfl
  rw [accepts_of_require hissues,
    anyBranchAccepts_eq fun branch _ => branch.2.appends_checkInto value]
  simp [Accepts]

theorem accepts_union (id : Identity) (members : List Node) (value : Json) :
    (mk id (.leaf (.union members))).Accepts value ↔
      ∃ member ∈ members, member.Accepts value := by
  have hissues : (mk id (.leaf (.union members))).check value =
      found (require (anyMemberAccepts members value "") "Expected union value") := rfl
  rw [accepts_of_require hissues,
    anyMemberAccepts_eq fun member _ => member.appends_checkInto value]
  simp [Accepts]

end Node

end ShapeQuery
