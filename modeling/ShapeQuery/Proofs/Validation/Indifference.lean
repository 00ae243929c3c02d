import ShapeQuery.Proofs.Json.Agreement
import ShapeQuery.Proofs.RelatedLists
import ShapeQuery.Proofs.Validation.Mismatches

/-!
# What checks do not look at

A check looks at the attributes that the schema names and at the keys of collection elements, and it
takes an attribute that is missing for one that is null.  So values that agree on these names have
issues at the same places.  The messages differ only where an attribute is missing from one value
and null in the other.
-/

namespace ShapeQuery

/-- The names of attributes that a schema knows: those of its properties, at whatever depth, and
that of the key of collection elements. -/
def Node.names (schema : Node) : Set String :=
  { name | name = "_key" ∨ ∃ node properties, Within node schema ∧
      node.properties? = some properties ∧ name ∈ properties.map Prod.fst }

/-- A schema that looks at no other attributes than those it names: it has no records, and no
literals with objects inside. -/
structure Node.LooksByName (schema : Node) : Prop where
  no_record : ∀ node, Within node schema → ∀ item, node.kind ≠ .leaf (.record item)
  literal : ∀ node, Within node schema → ∀ literal,
    node.kind = .leaf (.literal literal) → literal.ObjectFree

/-- Issues of two values at the same place: the same issue, or one with an attribute that is missing
from one value and null in the other. -/
inductive Issue.Alike (value other : Json) : Issue → Issue → Prop where
  | same (issue : Issue) : Alike value other issue issue
  | missing {path : String} (message : String) :
      value.Lacks path → other.at? path = some .null →
      Alike value other ⟨path, "Expected required property"⟩ ⟨path, message⟩
  | null {path : String} (message : String) :
      value.at? path = some .null → other.Lacks path →
      Alike value other ⟨path, message⟩ ⟨path, "Expected required property"⟩

namespace Issue

variable {value other part part' : Json} {issue issue' : Issue} {issues issues' : List Issue}
variable {key : String}

theorem Alike.path_eq (hissues : Alike value other issue issue') : issue.path = issue'.path := by
  cases hissues <;> rfl

theorem Alike.symm (hissues : Alike value other issue issue') :
    Alike other value issue' issue := by
  cases hissues with
  | same => exact .same _
  | missing message hmissing hnull => exact .null message hnull hmissing
  | null message hnull hmissing => exact .missing message hmissing hnull

/-- What is alike in a part of two values is alike in the values. -/
theorem Alike.below (hpart : value.part? key = some part) (hpart' : other.part? key = some part')
    (hissues : Alike part part' issue issue') :
    Alike value other (issue.below (Pointer.child "" key))
      (issue'.below (Pointer.child "" key)) := by
  cases hissues with
  | same => exact .same _
  | missing message hmissing hnull =>
      exact .missing message (hmissing.child hpart) (Json.at?_child hpart' hnull)
  | null message hnull hmissing =>
      exact .null message (Json.at?_child hpart hnull) (hmissing.child hpart')

theorem alike_refl (issues : List Issue) : List.Forall₂ (Alike value other) issues issues :=
  List.forall₂_same.mpr fun issue _ => .same issue

theorem alike_of_eq (hissues : issues = issues') :
    List.Forall₂ (Alike value other) issues issues' :=
  hissues ▸ alike_refl issues

theorem alike_symm (hissues : List.Forall₂ (Alike value other) issues issues') :
    List.Forall₂ (Alike other value) issues' issues :=
  (hissues.imp fun _ _ hissue => hissue.symm).flip

theorem alike_under (hpart : value.part? key = some part) (hpart' : other.part? key = some part')
    (hissues : List.Forall₂ (Alike part part') issues issues') :
    List.Forall₂ (Alike value other) (under key issues) (under key issues') := by
  rw [under, under, List.forall₂_map_left_iff, List.forall₂_map_right_iff]
  exact hissues.imp fun issue issue' hissue => hissue.below hpart hpart'

theorem map_path_eq (hissues : List.Forall₂ (Alike value other) issues issues') :
    issues.map path = issues'.map path := by
  rw [← List.forall₂_eq_eq_eq, List.forall₂_map_left_iff, List.forall₂_map_right_iff]
  exact hissues.imp fun issue issue' hissue => hissue.path_eq

theorem isEmpty_eq (hissues : List.Forall₂ (Alike value other) issues issues') :
    issues.isEmpty = issues'.isEmpty := by
  cases hissues <;> rfl

end Issue

/-- Any schema has at most one issue with null, and it is with null as a whole. -/
theorem Node.check_null_cases (schema : Node) :
    schema.check .null = [] ∨ ∃ message, schema.check .null = [⟨"", message⟩] := by
  have hfailing (holds : Bool) (message : String) : Issue.failing holds message = [] ∨
      ∃ message', Issue.failing holds message = [⟨"", message'⟩] := by
    cases holds with
    | true => exact .inl rfl
    | false => exact .inr ⟨message, rfl⟩
  induction schema using Node.induction with
  | leaf id shape hchildren =>
      cases shape with
      | unknown => exact .inl rfl
      | null => exact .inl rfl
      | literal literal => exact check_literal id .null literal ▸ hfailing _ _
      | union members => exact check_union id .null members ▸ hfailing _ _
      | _ => exact .inr ⟨_, rfl⟩
  | fragment id text schema ih => exact ih
  | nullable id inner ih => exact .inl rfl
  | projection id properties options ih => exact .inr ⟨_, rfl⟩
  | collection id element narrowing ih => exact .inr ⟨_, rfl⟩
  | select id branches expansion ih => exact check_select id .null branches expansion ▸ hfailing _ _

namespace Issue

variable {names : Set String} {value other : Json} {node element : Node}

/-- An attribute that is missing is reported where it is reported when it is null. -/
theorem alike_missing_null {fields others : List (String × Json)} {key : String}
    (hmissing : fields.lookup key = none) (hnull : others.lookup key = some .null) :
    List.Forall₂ (Alike (.object fields) (.object others)) (under key (ofAttribute node none))
      (under key (ofAttribute node (some .null))) := by
  cases node.check_null_cases with
  | inl haccepts =>
      rw [ofAttribute, ofAttribute, haccepts]
      exact .nil
  | inr hrejects =>
      obtain ⟨message, hrejects⟩ := hrejects
      rw [ofAttribute, ofAttribute, hrejects]
      have hpart : (Json.object others).part? key = some .null := hnull
      have hplace := Json.at?_child hpart (Json.at?_empty .null)
      exact .cons (.missing message (Json.Lacks.of_lookup hmissing) hplace) .nil

/-- An attribute may be held, null or missing in either of two objects that agree on it. -/
theorem alike_ofAttribute {fields others : List (String × Json)} {key : String}
    (hnode : ∀ value other, Json.Agree names value other →
      List.Forall₂ (Alike value other) (node.check value) (node.check other))
    (hattribute : Json.Agree names ((fields.lookup key).getD .null)
      ((others.lookup key).getD .null)) :
    List.Forall₂ (Alike (.object fields) (.object others))
      (under key (ofAttribute node (fields.lookup key)))
      (under key (ofAttribute node (others.lookup key))) := by
  cases hheld : fields.lookup key with
  | some held =>
      cases hheld' : others.lookup key with
      | some held' =>
          rw [hheld, hheld'] at hattribute
          exact alike_under hheld hheld' (hnode held held' hattribute)
      | none =>
          rw [hheld, hheld'] at hattribute
          obtain rfl : held = .null := hattribute.eq_null_right
          exact alike_symm (alike_missing_null hheld' hheld)
  | none =>
      cases hheld' : others.lookup key with
      | some held' =>
          rw [hheld, hheld'] at hattribute
          obtain rfl : held' = .null := hattribute.eq_null_left
          exact alike_missing_null hheld hheld'
      | none => exact alike_refl _

/-- An attribute that one value lacks may be null in the other. -/
theorem alike_ofProperties {properties : List (String × Node)}
    (hproperties : ∀ property ∈ properties, ∀ value other, Json.Agree names value other →
      List.Forall₂ (Alike value other) (property.2.check value) (property.2.check other))
    (hnames : ∀ property ∈ properties, property.1 ∈ names)
    (hvalues : Json.Agree names value other) :
    List.Forall₂ (Alike value other) (ofProperties properties value)
      (ofProperties properties other) := by
  cases hvalues with
  | object hfields =>
      apply forall₂_flatMap
      apply List.forall₂_same.mpr
      intro property hproperty
      apply alike_ofAttribute (hproperties property hproperty)
      exact hfields property.1 (hnames property hproperty)
  | _ => exact alike_refl _

/-- A key that is missing passes, as does one that is null. -/
theorem ofKey_object (fields : List (String × Json)) : ofKey (.object fields) =
    under "_key" (failing ((fields.lookup "_key").getD .null).isStringOrNull "Expected string") := by
  rw [ofKey, Json.field?]
  cases fields.lookup "_key" <;> rfl

theorem ofKey_eq (hkey : "_key" ∈ names) (hvalues : Json.Agree names value other) :
    ofKey value = ofKey other := by
  cases hvalues with
  | object hfields => rw [ofKey_object, ofKey_object, (hfields "_key" hkey).isStringOrNull_eq]
  | _ => rfl

theorem alike_ofItems (helement : ∀ value other, Json.Agree names value other →
      List.Forall₂ (Alike value other) (element.check value) (element.check other))
    (hkey : "_key" ∈ names) (keyed : Bool) (hvalues : Json.Agree names value other) :
    List.Forall₂ (Alike value other) (ofItems element keyed value)
      (ofItems element keyed other) := by
  cases hvalues with
  | array hitems =>
      apply forall₂_flatMap
      refine (forall₂_zipIdx hitems).imp fun entry entry' hentries => ?_
      obtain ⟨hentry, hentry', hposition, hagree⟩ := hentries
      have hpart := Json.part?_item hentry
      rw [hposition] at hpart
      rw [ofKey_eq hkey hagree, hposition]
      apply alike_under hpart (Json.part?_item hentry')
      exact List.rel_append (helement entry.1 entry'.1 hagree) (alike_refl _)
  | _ => exact alike_refl _

theorem alike_failing {holds holds' : Bool} (hholds : holds = holds') (message : String) :
    List.Forall₂ (Alike value other) (failing holds message) (failing holds' message) :=
  alike_of_eq (congrArg (failing · message) hholds)

end Issue

namespace Node

variable {names : Set String} {schema inner : Node}

def LooksWithin (names : Set String) (schema : Node) : Prop :=
  schema.LooksByName ∧ schema.names ⊆ names

/-- Names stay sufficient for what a schema is made of. -/
theorem LooksWithin.child (hschema : schema.LooksWithin names)
    (hinner : inner ∈ schema.kind.children) : inner.LooksWithin names := by
  constructor
  · constructor
    · exact fun node hnode => hschema.1.no_record node (.child hinner hnode)
    · exact fun node hnode => hschema.1.literal node (.child hinner hnode)
  · intro name hname
    apply hschema.2
    apply hname.imp_right
    intro hproperty
    obtain ⟨node, properties, hnode, hproperties⟩ := hproperty
    exact ⟨node, properties, .child hinner hnode, hproperties⟩

theorem LooksWithin.name_mem (hschema : schema.LooksWithin names)
    {properties : List (String × Node)} (hproperties : schema.properties? = some properties)
    {property : String × Node} (hproperty : property ∈ properties) : property.1 ∈ names :=
  hschema.2 (.inr ⟨schema, properties, .refl, hproperties, List.mem_map_of_mem hproperty⟩)

theorem LooksWithin.key_mem (hschema : schema.LooksWithin names) : "_key" ∈ names :=
  hschema.2 (.inl rfl)

/-- A schema that does not tell values apart that agree. -/
def Indifferent (names : Set String) (schema : Node) : Prop :=
  ∀ value other, Json.Agree names value other →
    List.Forall₂ (Issue.Alike value other) (schema.check value) (schema.check other)

theorem indifferent_leaf {id : Identity} {shape : Shape}
    (hchildren : ∀ child ∈ shape.children, child.Indifferent names)
    (hshape : (mk id (.leaf shape)).LooksWithin names) :
    (mk id (.leaf shape)).Indifferent names := by
  intro value other hvalues
  cases shape with
  | unknown => exact Issue.alike_refl _
  | null =>
      rw [check_null, check_null]
      exact Issue.alike_failing (by cases hvalues <;> rfl) _
  | boolean =>
      rw [check_boolean, check_boolean]
      exact Issue.alike_failing (by cases hvalues <;> rfl) _
  | number =>
      rw [check_number, check_number]
      exact Issue.alike_failing (by cases hvalues <;> rfl) _
  | integer =>
      rw [check_integer, check_integer]
      apply Issue.alike_failing
      cases hvalues with
      | number hnumbers => exact hnumbers.isWhole_eq
      | _ => rfl
  | string =>
      rw [check_string, check_string]
      exact Issue.alike_failing (by cases hvalues <;> rfl) _
  | literal literal =>
      rw [check_literal, check_literal]
      exact Issue.alike_failing (hvalues.same_eq (hshape.1.literal _ .refl literal rfl)) _
  | object properties =>
      rw [check_object, check_object]
      refine Issue.alike_ofProperties (fun property hproperty => ?_) (fun property hproperty => ?_)
        hvalues
      · exact hchildren property.2 (List.mem_map_of_mem hproperty)
      · exact hshape.name_mem rfl hproperty
  | record item => exact absurd rfl (hshape.1.no_record _ .refl item)
  | array item =>
      rw [check_array, check_array]
      exact Issue.alike_ofItems (hchildren item (List.mem_singleton_self item)) hshape.key_mem false
        hvalues
  | union members =>
      rw [check_union, check_union]
      apply Issue.alike_failing
      exact any_eq_of_forall_mem fun member hmember =>
        Issue.isEmpty_eq (hchildren member hmember value other hvalues)

/-- A schema that looks within some names does not tell values apart that agree on them. -/
theorem indifferent (hschema : schema.LooksWithin names) : schema.Indifferent names := by
  induction schema using Node.induction with
  | leaf id shape ih =>
      exact indifferent_leaf (fun inner hinner => ih inner hinner (hschema.child hinner)) hschema
  | fragment id text inner ih => exact ih (hschema.child List.mem_cons_self)
  | nullable id inner ih =>
      intro value other hvalues
      by_cases hnull : value = .null
      · subst hnull
        obtain rfl := hvalues.eq_null_left
        exact .nil
      · have hnull' : other ≠ .null := by
          rintro rfl
          exact hnull hvalues.eq_null_right
        rw [check_nullable id hnull, check_nullable id hnull']
        exact ih (hschema.child List.mem_cons_self) value other hvalues
  | projection id properties options ih =>
      intro value other hvalues
      rw [check_projection, check_projection]
      refine Issue.alike_ofProperties (fun property hproperty => ?_) (fun property hproperty => ?_)
        hvalues
      · exact ih property hproperty (hschema.child (List.mem_map_of_mem hproperty))
      · exact hschema.name_mem rfl hproperty
  | collection id element narrowing ih =>
      intro value other hvalues
      rw [check_collection, check_collection]
      exact Issue.alike_ofItems (ih (hschema.child List.mem_cons_self)) hschema.key_mem _ hvalues
  | select id branches expansion ih =>
      have hbranches : ∀ branch ∈ branches, branch.2.Indifferent names := fun branch hbranch =>
        ih branch hbranch (hschema.child (List.mem_map_of_mem hbranch))
      intro value other hvalues
      rw [check_select, check_select]
      apply Issue.alike_failing
      exact any_eq_of_forall_mem fun branch hbranch =>
        Issue.isEmpty_eq (hbranches branch hbranch value other hvalues)

/-- Values that agree on the names of a schema that looks by name have issues at the same places in
the same order.  They have the same issues but for attributes that are missing from one and null
in the other, and they are accepted together. -/
theorem check_alike_of_agree (hschema : schema.LooksByName) {value other : Json}
    (hvalues : Json.Agree schema.names value other) :
    List.Forall₂ (Issue.Alike value other) (schema.check value) (schema.check other) ∧
      (schema.check value).map Issue.path = (schema.check other).map Issue.path ∧
      (schema.Accepts value ↔ schema.Accepts other) := by
  have halike := indifferent ⟨hschema, Set.Subset.rfl⟩ value other hvalues
  refine ⟨halike, Issue.map_path_eq halike, ?_⟩
  rw [Accepts, Accepts, ← List.isEmpty_iff, ← List.isEmpty_iff, Issue.isEmpty_eq halike]

/-- A name that is missing from one element and null in the other, beside an age that need not be
given and a note that is nothing to the schema. -/
theorem check_alike_of_agree_missing_name :
    let name := mk ⟨0⟩ (.leaf .string)
    let number := mk ⟨1⟩ (.leaf .number)
    let age := mk ⟨2⟩ (.nullable number)
    let person := mk ⟨3⟩ (.projection [("name", name), ("age", age)] .none)
    let schema := mk ⟨4⟩ (.collection person .none)
    let value := Json.array [.object [("_key", .null), ("note", .bool true)], .bool false]
    let other := Json.array [.object [("age", .null), ("name", .null)], .bool false]
    (schema.LooksByName ∧ Json.Agree schema.names value other) ∧
      List.Forall₂ (Issue.Alike value other) (schema.check value) (schema.check other) ∧
      (schema.check value).map Issue.path = (schema.check other).map Issue.path ∧
      (schema.Accepts value ↔ schema.Accepts other) := by
  intro name number age person schema value other
  have hwithin {p : Node → Prop} (hp : ∀ node ∈ [schema, person, age, number, name], p node)
      (node : Node) (hnode : node.Within schema) : p node := by
    apply hp
    refine hnode.of_closed ?_ List.mem_cons_self
    simp [kind, Kind.children, Shape.children, schema, person, age, number, name]
  have hschema : schema.LooksByName := by
    constructor
    · exact hwithin (by simp [kind, schema, person, age, number, name])
    · exact hwithin (by simp [kind, schema, person, age, number, name])
  have hproperties : ∀ node, Within node schema → ∀ properties,
      node.properties? = some properties → properties.map Prod.fst = ["name", "age"] :=
    hwithin (by simp [properties?, kind, schema, person, age, number, name])
  have hperson : Json.Agree schema.names (.object [("_key", .null), ("note", .bool true)])
      (.object [("age", .null), ("name", .null)]) := by
    constructor
    intro key hkey
    rcases hkey with rfl | ⟨node, properties, hnode, hheld, hkey⟩
    · exact .null
    · rw [hproperties node hnode properties hheld] at hkey
      rcases hkey with - | ⟨-, - | ⟨-, hnone⟩⟩
      · exact .null
      · exact .null
      · exact absurd hnone List.not_mem_nil
  have hvalues : Json.Agree schema.names value other :=
    .array (.cons hperson (.cons (.bool false) .nil))
  exact ⟨⟨hschema, hvalues⟩, schema.check_alike_of_agree hschema hvalues⟩

end Node

end ShapeQuery
