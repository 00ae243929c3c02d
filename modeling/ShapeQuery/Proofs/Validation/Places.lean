import ShapeQuery.Proofs.Validation.Issues
import ShapeQuery.Proofs.Validation.Pointers

/-!
# Places of issues

Every issue leads to a place that keys name, and different keys name different places.  So the
issues at one place can be told from the others: below a key they are those of the part under the
key.
-/

namespace ShapeQuery

namespace Issue

variable {issues later : List Issue} {key key' : String} {keys : List String}

/-- Issues that lead to places which keys name. -/
def Placed (issues : List Issue) : Prop :=
  ∀ issue ∈ issues, ∃ keys, issue.path = Pointer.ofKeys keys

def atKeys (keys : List String) (issues : List Issue) : List Issue :=
  issues.filter fun issue => issue.path = Pointer.ofKeys keys

theorem placed_nil : Placed [] := List.forall_mem_nil _

theorem placed_failing (holds : Bool) (message : String) : Placed (failing holds message) := by
  intro issue hissue
  obtain ⟨-, rfl⟩ := mem_failing.mp hissue
  exact ⟨[], rfl⟩

theorem Placed.append (hissues : Placed issues) (hlater : Placed later) :
    Placed (issues ++ later) :=
  List.forall_mem_append.mpr ⟨hissues, hlater⟩

theorem Placed.under (hissues : Placed issues) (key : String) : Placed (under key issues) := by
  intro issue hissue
  obtain ⟨inner, hinner, rfl⟩ := mem_under.mp hissue
  obtain ⟨keys, hkeys⟩ := hissues inner hinner
  exact ⟨key :: keys, congrArg (Pointer.child "" key ++ ·) hkeys⟩

theorem atKeys_append (keys : List String) (issues later : List Issue) :
    atKeys keys (issues ++ later) = atKeys keys issues ++ atKeys keys later :=
  List.filter_append ..

theorem length_atKeys_failing_le (keys : List String) (holds : Bool) (message : String) :
    (atKeys keys (failing holds message)).length ≤ 1 := by
  refine (List.length_filter_le _ _).trans ?_
  cases holds <;> simp [failing]

theorem atKeys_nil_under (key : String) (issues : List Issue) :
    atKeys [] (under key issues) = [] := by
  rw [atKeys, List.filter_eq_nil_iff]
  intro issue hissue
  obtain ⟨inner, -, rfl⟩ := mem_under.mp hissue
  simp [below, Pointer.child, Pointer.ofKeys]

theorem atKeys_cons_under (key : String) (keys : List String) (issues : List Issue) :
    atKeys (key :: keys) (under key issues) = under key (atKeys keys issues) := by
  rw [atKeys, under, List.filter_map, under, atKeys]
  congr 2
  funext issue
  simp [below, Pointer.ofKeys]

/-- Issues below one key are not found below another. -/
theorem atKeys_cons_under_of_ne (hissues : Placed issues) (hne : key ≠ key')
    (keys : List String) : atKeys (key' :: keys) (under key issues) = [] := by
  rw [atKeys, List.filter_eq_nil_iff]
  intro issue hissue hpath
  obtain ⟨inner, hinner, rfl⟩ := mem_under.mp hissue
  obtain ⟨inside, hinside⟩ := hissues inner hinner
  have hkeys : Pointer.ofKeys (key :: inside) = Pointer.ofKeys (key' :: keys) := by
    rw [← of_decide_eq_true hpath, Pointer.ofKeys, ← hinside]
    rfl
  exact hne (List.cons.inj (Pointer.ofKeys_injective hkeys)).1

theorem map_below_ofKeys (keys keys' : List String) (issues : List Issue) :
    (issues.map (below (Pointer.ofKeys keys'))).map (below (Pointer.ofKeys keys)) =
      issues.map (below (Pointer.ofKeys (keys ++ keys'))) := by
  rw [List.map_map, Pointer.ofKeys_append]
  congr 1
  funext issue
  exact (below_append _ _ issue).symm

section Entries

variable {α : Type} {entries : List (String × α)} (found : String × α → List Issue)

theorem placed_flatMap_under (hfound : ∀ entry ∈ entries, Placed (found entry)) :
    Placed (entries.flatMap fun entry => under entry.1 (found entry)) := by
  intro issue hissue
  obtain ⟨entry, hentry, hmem⟩ := List.mem_flatMap.mp hissue
  exact (hfound entry hentry).under entry.1 issue hmem

/-- Parts under different keys have their issues at different places. -/
theorem atKeys_cons_flatMap_under (hentries : (entries.map Prod.fst).Nodup)
    (hfound : ∀ entry ∈ entries, Placed (found entry)) (key : String) (keys : List String) :
    atKeys (key :: keys) (entries.flatMap fun entry => under entry.1 (found entry)) =
      (entries.lookup key).toList.flatMap fun value =>
        under key (atKeys keys (found (key, value))) := by
  induction entries with
  | nil => rfl
  | cons entry rest ih =>
      obtain ⟨first, value⟩ := entry
      obtain ⟨hfirst, hrest⟩ := List.nodup_cons.mp hentries
      obtain ⟨hvalue, hvalues⟩ := List.forall_mem_cons.mp hfound
      rw [List.flatMap_cons, atKeys_append, ih hrest hvalues]
      by_cases heq : first = key
      · subst heq
        rw [atKeys_cons_under, List.lookup_cons_self, Assoc.lookup_eq_none_of_not_mem hfirst]
        simp
      · rw [atKeys_cons_under_of_ne hvalue heq, List.lookup_cons, beq_false_of_ne (Ne.symm heq)]
        rfl

/-- Where no key is repeated, what is found below a key comes from one entry. -/
theorem atKeys_cons_flatMap_under_of_lookup (hentries : (entries.map Prod.fst).Nodup)
    (hfound : ∀ entry ∈ entries, Placed (found entry)) {value : α}
    (hvalue : entries.lookup key = some value) (keys : List String) :
    atKeys (key :: keys) (entries.flatMap fun entry => under entry.1 (found entry)) =
      under key (atKeys keys (found (key, value))) := by
  rw [atKeys_cons_flatMap_under found hentries hfound, hvalue]
  simp

/-- Issues of parts are at no other place than below a key. -/
theorem atKeys_flatMap_under_cases (hentries : (entries.map Prod.fst).Nodup)
    (hfound : ∀ entry ∈ entries, Placed (found entry)) (keys : List String) :
    (atKeys keys (entries.flatMap fun entry => under entry.1 (found entry))).length ≤ 1 ∨
      ∃ key rest value, keys = key :: rest ∧ entries.lookup key = some value := by
  cases keys with
  | nil =>
      left
      have hnone : atKeys [] (entries.flatMap fun entry => under entry.1 (found entry)) = [] := by
        rw [atKeys, List.filter_flatMap, List.flatMap_eq_nil_iff]
        exact fun entry _ => atKeys_nil_under entry.1 (found entry)
      simp [hnone]
  | cons key rest =>
      cases hvalue : entries.lookup key with
      | none =>
          left
          simp [atKeys_cons_flatMap_under found hentries hfound, hvalue]
      | some value => exact .inr ⟨key, rest, value, rfl, hvalue⟩

end Entries

/-! ## Issues of values and of their parts -/

def ofItem (element : Node) (keyed : Bool) (item : Json) : List Issue :=
  element.check item ++ if keyed then ofKey item else []

theorem ofItems_array (element : Node) (keyed : Bool) (items : List Json) :
    ofItems element keyed (.array items) = (Json.array items).parts.flatMap fun part =>
      under part.1 (ofItem element keyed part.2) := by
  rw [Json.parts, List.flatMap_map]
  rfl

theorem placed_ofKey (item : Json) : Placed (ofKey item) := by
  unfold ofKey
  cases item.field? "_key" with
  | none => exact placed_nil
  | some key => exact (placed_failing _ _).under "_key"

theorem placed_ofAttribute {node : Node} (hnode : ∀ value, Placed (node.check value))
    (held : Option Json) : Placed (ofAttribute node held) := by
  cases held with
  | none => exact placed_failing _ _
  | some value => exact hnode value

theorem placed_ofItem {element : Node} (helement : ∀ value, Placed (element.check value))
    (keyed : Bool) (item : Json) : Placed (ofItem element keyed item) := by
  apply (helement item).append
  cases keyed with
  | false => exact placed_nil
  | true => exact placed_ofKey item

theorem length_ofKey_le (item : Json) : (ofKey item).length ≤ 1 := by
  unfold ofKey
  cases item.field? "_key" with
  | none => exact Nat.zero_le 1
  | some key => cases hkey : key.isStringOrNull <;> simp [under, failing, hkey]

/-- The key of an element has a place of its own. -/
theorem atKeys_ofKey (item : Json) : atKeys ["_key"] (ofKey item) = ofKey item := by
  unfold ofKey
  cases item.field? "_key" with
  | none => rfl
  | some key =>
      have hroot (holds : Bool) (message : String) :
          atKeys [] (failing holds message) = failing holds message := by cases holds <;> rfl
      exact (atKeys_cons_under _ _ _).trans (congrArg (under "_key") (hroot _ _))

theorem atKeys_ofKey_of_ne (hkeys : keys ≠ ["_key"]) (item : Json) :
    atKeys keys (ofKey item) = [] := by
  rw [← atKeys_ofKey, atKeys, atKeys, List.filter_filter, List.filter_eq_nil_iff]
  intro issue _ hboth
  simp only [Bool.and_eq_true, decide_eq_true_eq] at hboth
  exact hkeys (Pointer.ofKeys_injective (hboth.1.symm.trans hboth.2))

/-- The issues with a value are those of a test of the value as a whole, or they come from a check
by another schema or from checks of the parts. -/
inductive Findings : Node → Json → List Issue → Prop where
  | test (schema : Node) (value : Json) (holds : Bool) (message : String) :
      Findings schema value (failing holds message)
  | fragment (id : Identity) (text : String) (schema : Node) (value : Json) :
      Findings (.mk id (.fragment text schema)) value (schema.check value)
  | nullable (id : Identity) (inner : Node) {value : Json} :
      value ≠ .null → Findings (.mk id (.nullable inner)) value (inner.check value)
  | properties {schema : Node} {properties : List (String × Node)} :
      schema.properties? = some properties → ∀ fields,
        Findings schema (.object fields) (ofProperties properties (.object fields))
  | record (id : Identity) (item : Node) (fields : List (String × Json)) :
      Findings (.mk id (.leaf (.record item))) (.object fields) (ofFields item (.object fields))
  | array (id : Identity) (item : Node) (items : List Json) :
      Findings (.mk id (.leaf (.array item))) (.array items) (ofItems item false (.array items))
  | collection (id : Identity) (element : Node) (narrowing : Narrowing) (items : List Json) :
      Findings (.mk id (.collection element narrowing)) (.array items)
        (ofItems element element.isStructured (.array items))

end Issue

namespace Node

open Issue

theorem kind_of_properties {schema : Node} {properties : List (String × Node)}
    (hschema : schema.properties? = some properties) :
    (∃ options, schema.kind = .projection properties options) ∨
      schema.kind = .leaf (.object properties) := by
  unfold properties? at hschema
  split at hschema
  · next options hkind =>
      obtain rfl := Option.some.inj hschema
      exact .inl ⟨options, hkind⟩
  · next hkind =>
      obtain rfl := Option.some.inj hschema
      exact .inr hkind
  · exact absurd hschema.symm (Option.some_ne_none _)

/-- Projections and plain objects are checked alike. -/
theorem check_of_properties {schema : Node} {properties : List (String × Node)}
    (hschema : schema.properties? = some properties) (value : Json) :
    schema.check value = ofProperties properties value := by
  obtain ⟨id, kind⟩ := schema
  rcases kind_of_properties hschema with ⟨options, rfl : kind = _⟩ | (rfl : kind = _)
  · exact check_projection id value properties options
  · exact check_object id value properties

theorem mem_children_of_mem_properties {schema : Node} {properties : List (String × Node)}
    (hschema : schema.properties? = some properties) {property : String × Node}
    (hproperty : property ∈ properties) : property.2 ∈ schema.kind.children := by
  rcases kind_of_properties hschema with ⟨options, hkind⟩ | hkind
  · rw [hkind]
    exact List.mem_map_of_mem hproperty
  · rw [hkind]
    exact List.mem_map_of_mem hproperty

theorem findings_of_properties {schema : Node} {properties : List (String × Node)}
    (hschema : schema.properties? = some properties) (value : Json) :
    Findings schema value (schema.check value) := by
  rw [check_of_properties hschema]
  cases value with
  | object fields => exact .properties hschema fields
  | _ => exact .test _ _ false "Expected object"

theorem findings_leaf (id : Identity) (shape : Shape) (value : Json) :
    Findings (mk id (.leaf shape)) value ((mk id (.leaf shape)).check value) := by
  cases shape with
  | unknown => exact .test _ _ true ""
  | null => exact check_null id value ▸ .test ..
  | boolean => exact check_boolean id value ▸ .test ..
  | number => exact check_number id value ▸ .test ..
  | integer => exact check_integer id value ▸ .test ..
  | string => exact check_string id value ▸ .test ..
  | literal literal => exact check_literal id value literal ▸ .test ..
  | object properties => exact findings_of_properties rfl value
  | record item =>
      rw [check_record]
      cases value with
      | object fields => exact .record id item fields
      | _ => exact .test _ _ false "Expected object"
  | array item =>
      rw [check_array]
      cases value with
      | array items => exact .array id item items
      | _ => exact .test _ _ false "Expected array"
  | union members => exact check_union id value members ▸ .test ..

/-- Every check tests a value as a whole or hands on to other checks. -/
theorem findings_check (schema : Node) (value : Json) :
    Findings schema value (schema.check value) := by
  obtain ⟨id, kind⟩ := schema
  cases kind with
  | leaf shape => exact findings_leaf id shape value
  | fragment text schema => exact .fragment id text schema value
  | nullable inner =>
      by_cases hnull : value = .null
      · subst hnull
        exact .test _ _ true ""
      · rw [check_nullable id hnull]
        exact .nullable id inner hnull
  | projection properties options => exact findings_of_properties rfl value
  | collection element narrowing =>
      rw [check_collection]
      cases value with
      | array items => exact .collection id element narrowing items
      | _ => exact .test _ _ false "Expected array"
  | select branches expansion => exact check_select id value branches expansion ▸ .test ..

/-- Every issue leads to a place that keys name. -/
theorem placed_check (schema : Node) (value : Json) : Placed (schema.check value) := by
  induction schema using Node.induction_of_children generalizing value with
  | step schema ih =>
      have hfindings := schema.findings_check value
      generalize schema.check value = issues at hfindings ⊢
      cases hfindings with
      | test => exact placed_failing _ _
      | fragment id text schema => exact ih schema List.mem_cons_self value
      | nullable id inner => exact ih inner List.mem_cons_self value
      | properties hschema fields =>
          exact placed_flatMap_under _ fun property hproperty =>
            placed_ofAttribute (ih _ (mem_children_of_mem_properties hschema hproperty)) _
      | record id item fields =>
          exact placed_flatMap_under _ fun field _ => ih item List.mem_cons_self field.2
      | array id item items =>
          rw [ofItems_array]
          exact placed_flatMap_under _ fun part _ =>
            placed_ofItem (ih item List.mem_cons_self) false part.2
      | collection id element narrowing items =>
          rw [ofItems_array]
          exact placed_flatMap_under _ fun part _ =>
            placed_ofItem (ih element List.mem_cons_self) _ part.2

end Node

end ShapeQuery
