import ShapeQuery.Proofs.Schema.Equality
import ShapeQuery.Proofs.Validation.Issues

/-!
# Equal schemas and equal values

Properties are checked in the order of the schema, and the attributes of a record in the order of
the value.  Neither order counts for equality.  So a schema and a value may be replaced by equal
ones: the issues come in another order, and the messages about literals may name the other of two
equal values, but the places of the issues stay the same.
-/

namespace ShapeQuery

namespace Issue

variable {issues issues' later later' : List Issue} {value other : Json} {node node' : Node}

/-- Issues at the same places, in any order. -/
def SamePlaces (issues issues' : List Issue) : Prop :=
  (issues.map path).Perm (issues'.map path)

theorem SamePlaces.refl (issues : List Issue) : SamePlaces issues issues :=
  List.Perm.refl _

theorem SamePlaces.append (hissues : SamePlaces issues issues') (hlater : SamePlaces later later') :
    SamePlaces (issues ++ later) (issues' ++ later') := by
  rw [SamePlaces, List.map_append, List.map_append]
  exact List.Perm.append hissues hlater

theorem SamePlaces.under (key : String) (hissues : SamePlaces issues issues') :
    SamePlaces (under key issues) (under key issues') := by
  have hpath (issues : List Issue) : (Issue.under key issues).map path =
      (issues.map path).map (Pointer.child "" key ++ ·) := by
    rw [Issue.under, List.map_map, List.map_map]
    rfl
  rw [SamePlaces, hpath, hpath]
  exact List.Perm.map _ hissues

theorem SamePlaces.isEmpty_eq (hissues : SamePlaces issues issues') :
    issues.isEmpty = issues'.isEmpty := by
  have hplaces := List.Perm.isEmpty_eq hissues
  rwa [List.isEmpty_map, List.isEmpty_map] at hplaces

/-- Values that fail a test together are at fault at the same place, whatever is said about it. -/
theorem samePlaces_failing {holds holds' : Bool} (hholds : holds = holds')
    (message message' : String) : SamePlaces (failing holds message) (failing holds' message') := by
  subst hholds
  cases holds <;> exact List.Perm.refl _

theorem samePlaces_flatMap {α β : Type} {first : α → List Issue} {second : β → List Issue}
    {items : List α} {others : List β}
    (hitems : List.Forall₂ (fun item other => SamePlaces (first item) (second other)) items
      others) : SamePlaces (items.flatMap first) (others.flatMap second) := by
  rw [SamePlaces, List.map_flatMap, List.map_flatMap]
  exact perm_flatMap_of_forall₂ hitems

theorem samePlaces_flatMap_of_matches {α β γ : Type} {related : β → γ → Prop}
    {first : α × β → List Issue} {second : α × γ → List Issue} {entries : List (α × β)}
    {others : List (α × γ)} (hmatches : Assoc.Matches related entries others)
    (hvalues : ∀ key value other, related value other →
      SamePlaces (first (key, value)) (second (key, other))) :
    SamePlaces (entries.flatMap first) (others.flatMap second) := by
  rw [SamePlaces, List.map_flatMap, List.map_flatMap]
  exact hmatches.perm_flatMap hvalues

end Issue

/-- Schemas that have issues at the same places with equal values. -/
def Node.Congruent (schema schema' : Node) : Prop :=
  ∀ value value' : Json, value.Distinct → value.Equal value' →
    Issue.SamePlaces (schema.check value) (schema'.check value')

namespace Issue

variable {value other : Json} {node node' element element' : Node}

theorem samePlaces_ofAttribute (hnode : node.Congruent node') {held held' : Option Json}
    (hheld : Option.Rel (fun value other => value.Distinct ∧ value.Equal other) held held') :
    SamePlaces (ofAttribute node held) (ofAttribute node' held') := by
  cases hheld with
  | some hvalues => exact hnode _ _ hvalues.1 hvalues.2
  | none => exact samePlaces_failing (hnode .null .null .null .null).isEmpty_eq _ _

/-- Properties may stand in another order, and so may attributes. -/
theorem samePlaces_ofProperties {properties others : List (String × Node)}
    (hproperties : Assoc.Matches Node.Congruent properties others) (hdistinct : value.Distinct)
    (hvalues : value.Equal other) :
    SamePlaces (ofProperties properties value) (ofProperties others other) := by
  cases hvalues with
  | object hlength hkeys hequals =>
      have hfields := Json.Equal.field? hdistinct (.object hlength hkeys hequals)
      refine samePlaces_flatMap_of_matches hproperties fun key node node' hnodes => ?_
      exact (samePlaces_ofAttribute hnodes (hfields key)).under key
  | _ => exact .refl _

theorem samePlaces_ofFields (hnode : node.Congruent node') (hdistinct : value.Distinct)
    (hvalues : value.Equal other) : SamePlaces (ofFields node value) (ofFields node' other) := by
  cases hvalues with
  | object hlength hkeys hequals =>
      have hmatches := Json.Equal.matches_fields hdistinct (.object hlength hkeys hequals)
      refine samePlaces_flatMap_of_matches hmatches fun key value other hvalues => ?_
      exact (hnode value other hvalues.1 hvalues.2).under key
  | _ => exact .refl _

theorem samePlaces_ofKey (hdistinct : value.Distinct) (hvalues : value.Equal other) :
    SamePlaces (ofKey value) (ofKey other) := by
  have hkeys := hvalues.field? hdistinct "_key"
  rw [ofKey, ofKey]
  generalize value.field? "_key" = key at hkeys ⊢
  generalize other.field? "_key" = key' at hkeys ⊢
  cases hkeys with
  | none => exact .refl _
  | some hkeys => exact (samePlaces_failing hkeys.2.isStringOrNull_eq _ _).under "_key"

theorem samePlaces_ofItems (helement : element.Congruent element') (keyed : Bool)
    (hdistinct : value.Distinct) (hvalues : value.Equal other) :
    SamePlaces (ofItems element keyed value) (ofItems element' keyed other) := by
  cases hvalues with
  | array hitems =>
      cases hdistinct with
      | array hdistincts =>
          have hboth := (List.forall₂_and_left _ _).mpr ⟨hdistincts, hitems⟩
          apply samePlaces_flatMap
          refine (forall₂_zipIdx hboth).imp fun entry entry' hentries => ?_
          obtain ⟨-, -, hposition, hdistinct, hequal⟩ := hentries
          rw [hposition]
          apply SamePlaces.under
          apply (helement entry.1 entry'.1 hdistinct hequal).append
          cases keyed with
          | false => exact .refl _
          | true => exact samePlaces_ofKey hdistinct hequal
  | _ => exact .refl _

end Issue

namespace Node

variable {schema schema' inner inner' : Node} {id id' : Identity}

/-! ## Every kind of content respects equality -/

/-- Some member accepts a value exactly if the other members accept an equal one. -/
theorem any_accepts_eq {members others : List Node} {value value' : Json}
    (hmembers : List.Forall₂ Congruent members others) (hvalue : value.Distinct)
    (hvalues : value.Equal value') :
    (members.any fun member => (member.check value).isEmpty) =
      others.any fun member => (member.check value').isEmpty := by
  apply any_eq_of_forall₂
  exact hmembers.imp fun member other hmember => (hmember value value' hvalue hvalues).isEmpty_eq

theorem congruent_fragment (hinner : inner.Congruent inner') (text : String) :
    (mk id (.fragment text inner)).Congruent (mk id' (.fragment text inner')) :=
  hinner

theorem congruent_nullable (hinner : inner.Congruent inner') :
    (mk id (.nullable inner)).Congruent (mk id' (.nullable inner')) := by
  intro value value' hvalue hvalues
  by_cases hnull : value = .null
  · subst hnull
    cases hvalues
    exact .refl _
  · have hnull' : value' ≠ .null := by
      rintro rfl
      cases hvalues
      exact hnull rfl
    rw [check_nullable id hnull, check_nullable id' hnull']
    exact hinner value value' hvalue hvalues

theorem congruent_projection {properties others : List (String × Node)}
    (hproperties : Assoc.Matches Congruent properties others) (options : ProjectionOptions) :
    (mk id (.projection properties options)).Congruent (mk id' (.projection others options)) := by
  intro value value' hvalue hvalues
  rw [check_projection, check_projection]
  exact Issue.samePlaces_ofProperties hproperties hvalue hvalues

/-- Congruent elements have to be structured alike, since this decides on their keys. -/
theorem congruent_collection (helement : inner.Congruent inner')
    (hstructured : inner.isStructured = inner'.isStructured) (narrowing : Narrowing) :
    (mk id (.collection inner narrowing)).Congruent (mk id' (.collection inner' narrowing)) := by
  intro value value' hvalue hvalues
  rw [check_collection, check_collection, hstructured]
  exact Issue.samePlaces_ofItems helement _ hvalue hvalues

theorem congruent_select {branches others : List (Guard × Node)}
    (hnodes : List.Forall₂ Congruent (branches.map Prod.snd) (others.map Prod.snd))
    (expansion : Option Expansion) :
    (mk id (.select branches expansion)).Congruent (mk id' (.select others expansion)) := by
  intro value value' hvalue hvalues
  have haccepts := any_accepts_eq hnodes hvalue hvalues
  rw [List.any_map, List.any_map] at haccepts
  rw [check_select, check_select]
  exact Issue.samePlaces_failing haccepts _ _

/-- Data shapes that are built alike of congruent children are congruent. -/
theorem congruent_leaf {shape shape' : Shape}
    (hchildren : ∀ child ∈ shape.children, ∀ other, child.Equal other → child.Congruent other)
    (hdistinct : (mk id (.leaf shape)).Distinct) (hshapes : shape.Equal shape') :
    (mk id (.leaf shape)).Congruent (mk id' (.leaf shape')) := by
  intro value value' hvalue hvalues
  cases hshapes with
  | unknown => exact .refl _
  | null =>
      rw [check_null, check_null]
      exact Issue.samePlaces_failing (by cases hvalues <;> rfl) _ _
  | boolean =>
      rw [check_boolean, check_boolean]
      exact Issue.samePlaces_failing (by cases hvalues <;> rfl) _ _
  | number =>
      rw [check_number, check_number]
      exact Issue.samePlaces_failing (by cases hvalues <;> rfl) _ _
  | integer =>
      rw [check_integer, check_integer]
      apply Issue.samePlaces_failing
      cases hvalues with
      | number hnumbers => exact hnumbers.isWhole_eq
      | _ => rfl
  | string =>
      rw [check_string, check_string]
      exact Issue.samePlaces_failing (by cases hvalues <;> rfl) _ _
  | literal hliterals =>
      rw [check_literal, check_literal]
      apply Issue.samePlaces_failing
      exact hvalues.same_congr hvalue (hdistinct.literal _ .refl _ rfl) hliterals
  | object hequal =>
      rw [check_object, check_object]
      have hproperties := hequal.matches (hdistinct.properties _ .refl _ rfl)
        fun property hproperty => hchildren property.2 (List.mem_map_of_mem hproperty)
      exact Issue.samePlaces_ofProperties hproperties hvalue hvalues
  | record hitem =>
      rw [check_record, check_record]
      exact Issue.samePlaces_ofFields (hchildren _ List.mem_cons_self _ hitem) hvalue hvalues
  | array hitem =>
      rw [check_array, check_array]
      exact Issue.samePlaces_ofItems (hchildren _ List.mem_cons_self _ hitem) false hvalue hvalues
  | union hequal =>
      rw [check_union, check_union]
      have hmembers := forall₂_imp_of_mem hchildren hequal
      exact Issue.samePlaces_failing (any_accepts_eq hmembers hvalue hvalues) _ _

/-- Equal schemas have issues at the same places with equal values. -/
theorem Equal.congruent (hdistinct : schema.Distinct) (hequal : schema.Equal schema') :
    schema.Congruent schema' := by
  induction schema using Node.induction_of_children generalizing schema' with
  | step schema ih =>
      have hchildren : ∀ child ∈ schema.kind.children, ∀ other, child.Equal other →
          child.Congruent other := fun child hchild other =>
        ih child hchild (hdistinct.child hchild)
      cases hequal with
      | mk hkinds =>
          cases hkinds with
          | leaf hshapes => exact congruent_leaf hchildren hdistinct hshapes
          | fragment text hschema =>
              exact congruent_fragment (hchildren _ List.mem_cons_self _ hschema) text
          | nullable hinner =>
              exact congruent_nullable (hchildren _ List.mem_cons_self _ hinner)
          | projection options hequal =>
              have hproperties := hequal.matches (hdistinct.properties _ .refl _ rfl)
                fun property hproperty => hchildren property.2 (List.mem_map_of_mem hproperty)
              exact congruent_projection hproperties options
          | collection narrowing helement =>
              exact congruent_collection (hchildren _ List.mem_cons_self _ helement)
                helement.isStructured_eq narrowing
          | select expansion hguards hnodes =>
              exact congruent_select (forall₂_imp_of_mem hchildren hnodes) expansion

/-- A schema and a value may be replaced by equal ones, both at once: the issues are at the same
places, each as often as before, and what was accepted still is.  Properties, the objects in
literals and those in the value hold each key once, as maps do. -/
theorem check_perm_of_same (hschema : schema.Distinct) (hschemas : schema.same schema' = true)
    {value value' : Json} (hvalue : value.Distinct) (hvalues : value.same value' = true) :
    ((schema.check value).map Issue.path).Perm ((schema'.check value').map Issue.path) ∧
      (schema.Accepts value ↔ schema'.Accepts value') := by
  have hcongruent := ((schema.same_iff schema').mp hschemas).congruent hschema
  have hplaces := hcongruent value value' hvalue ((value.same_iff value').mp hvalues)
  refine ⟨hplaces, ?_⟩
  rw [Accepts, Accepts, ← List.isEmpty_iff, ← List.isEmpty_iff, hplaces.isEmpty_eq]

/-- Properties and attributes in another order, other identities, and a zero of the other sign in
the schema as well as in the value. -/
theorem check_perm_of_same_reordered_movie :
    let title := mk ⟨0⟩ (.leaf .string)
    let votes := mk ⟨1⟩ (.leaf (.record (mk ⟨2⟩ (.leaf .integer))))
    let rating := fun negative => mk ⟨3⟩ (.leaf (.literal (.number (.float (.zero negative)))))
    let movie := mk ⟨4⟩ (.projection [("title", title), ("votes", votes), ("rating", rating false)]
      .none)
    let movie' := mk ⟨5⟩ (.projection [("votes", votes), ("rating", rating true), ("title", title)]
      .none)
    let schema := mk ⟨6⟩ (.collection movie .none)
    let schema' := mk ⟨7⟩ (.collection movie' .none)
    let value := Json.array [.object [("title", .null), ("rating", .number (.float (.zero true))),
      ("votes", .object [("first", .bool true), ("second", .null)])]]
    let value' := Json.array [.object [("rating", .number (.float (.zero false))),
      ("votes", .object [("second", .null), ("first", .bool true)]), ("title", .null)]]
    (schema.Distinct ∧ schema.same schema' = true ∧ value.Distinct ∧ value.same value' = true) ∧
      ((schema.check value).map Issue.path).Perm ((schema'.check value').map Issue.path) ∧
      (schema.Accepts value ↔ schema'.Accepts value') := by
  intro title votes rating movie movie' schema schema' value value'
  have hwithin {p : Node → Prop}
      (hp : ∀ node ∈ [schema, movie, rating false, votes, mk ⟨2⟩ (.leaf .integer), title], p node)
      (node : Node) (hnode : node.Within schema) : p node := by
    apply hp
    refine hnode.of_closed ?_ List.mem_cons_self
    simp [kind, Kind.children, Shape.children, schema, movie, rating, votes, title]
  have hschema : schema.Distinct := by
    constructor
    · exact hwithin (by simp [properties?, kind, schema, movie, rating, votes, title])
    · exact hwithin (by simp [kind, Json.Distinct.number, schema, movie, rating, votes, title])
  have hschemas : schema.same schema' = true := by
    have hzeros : Json.same (.number (.float (.zero false))) (.number (.float (.zero true))) := rfl
    simp [Node.same, Kind.same, Shape.same, sameProperties, List.lookup_cons, hzeros, schema,
      schema', movie, movie', title, votes, rating]
  have hvotes : (Json.object [("first", .bool true), ("second", .null)]).Distinct :=
    .object (by decide) (List.forall_mem_cons.mpr ⟨.bool true, List.forall_mem_singleton.mpr .null⟩)
  have hvalue : value.Distinct := by
    refine .array (List.forall_mem_singleton.mpr (.object (by decide) ?_))
    exact List.forall_mem_cons.mpr ⟨.null, List.forall_mem_cons.mpr
      ⟨.number _, List.forall_mem_singleton.mpr hvotes⟩⟩
  have hvalues : value.same value' = true := by decide
  exact ⟨⟨hschema, hschemas, hvalue, hvalues⟩, check_perm_of_same hschema hschemas hvalue hvalues⟩

end Node

end ShapeQuery
