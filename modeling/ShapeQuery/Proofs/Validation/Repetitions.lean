import ShapeQuery.Proofs.Schema.Equality
import ShapeQuery.Proofs.Validation.Places

/-!
# Issues at one place

A check comes from a value to its parts step by step.  Either a value is not what was expected, and
then no part of it is looked at, or all issues lie further down; so no place has two issues.  Only
the key of an element is looked at twice, by the schema of the element and by the collection.
-/

namespace ShapeQuery

namespace Node

open Issue

/-- One step of a check: from a value to the same value at another schema, or to a part of it under
a key. -/
inductive Descends : Node → Json → List String → Node → Json → Prop where
  | fragment (id : Identity) (text : String) (schema : Node) (value : Json) :
      Descends (mk id (.fragment text schema)) value [] schema value
  | nullable (id : Identity) (inner : Node) {value : Json} :
      value ≠ .null → Descends (mk id (.nullable inner)) value [] inner value
  | property {schema child : Node} {properties : List (String × Node)}
      {fields : List (String × Json)} {key : String} {held : Json} :
      schema.properties? = some properties → (key, child) ∈ properties →
        (Json.object fields).part? key = some held →
          Descends schema (.object fields) [key] child held
  | field (id : Identity) (item : Node) {fields : List (String × Json)} {key : String}
      {held : Json} : (Json.object fields).part? key = some held →
        Descends (mk id (.leaf (.record item))) (.object fields) [key] item held
  | item (id : Identity) (item : Node) {items : List Json} {key : String} {held : Json} :
      (Json.array items).part? key = some held →
        Descends (mk id (.leaf (.array item))) (.array items) [key] item held
  | element (id : Identity) (element : Node) (narrowing : Narrowing) {items : List Json}
      {key : String} {held : Json} : (Json.array items).part? key = some held →
        Descends (mk id (.collection element narrowing)) (.array items) [key] element held

/-- A check of a value comes to a part of it, below keys, and to the schema of the part. -/
inductive ComesTo : Node → Json → List String → Node → Json → Prop where
  | here (schema : Node) (value : Json) : ComesTo schema value [] schema value
  | step {schema child node : Node} {value held part : Json} {first rest : List String} :
      Descends schema value first child held → ComesTo child held rest node part →
        ComesTo schema value (first ++ rest) node part

/-- A check of a value comes to an item of a collection with structured elements. -/
inductive ComesToElement (schema : Node) (value : Json) : List String → Node → Json → Prop where
  | intro {id : Identity} {element : Node} {narrowing : Narrowing} {items : List Json}
      {item : Json} {keys : List String} {key : String} :
      schema.ComesTo value keys (mk id (.collection element narrowing)) (.array items) →
        element.isStructured = true → (Json.array items).part? key = some item →
          ComesToElement schema value (keys ++ [key]) element item

/-- What is found in an item besides the issues of the schema that the check comes to. -/
def alsoFound (schema : Node) (item : Json) : List Issue :=
  match schema.kind with
  | .collection element _ => if element.isStructured then ofKey item else []
  | _ => []

variable {schema child element : Node} {value held item : Json} {first keys : List String}

theorem alsoFound_of_properties {properties : List (String × Node)}
    (hschema : schema.properties? = some properties) (item : Json) :
    schema.alsoFound item = [] := by
  rcases kind_of_properties hschema with ⟨options, hkind⟩ | hkind
  · rw [alsoFound, hkind]
  · rw [alsoFound, hkind]

theorem Descends.mem_children (hstep : schema.Descends value first child held) :
    child ∈ schema.kind.children := by
  cases hstep with
  | property hproperties hchild => exact mem_children_of_mem_properties hproperties hchild
  | _ => exact List.mem_cons_self

theorem Descends.distinct (hstep : schema.Descends value first child held)
    (hvalue : value.Distinct) : held.Distinct := by
  cases hstep with
  | fragment | nullable => exact hvalue
  | property _ _ hheld | field _ _ hheld | item _ _ hheld | element _ _ _ hheld =>
      exact hvalue.of_part hheld

/-- The issues below the keys of a step are those of the part that the step leads to. -/
theorem Descends.atKeys_check (hstep : schema.Descends value first child held)
    (hschema : schema.Distinct) (hvalue : value.Distinct) (keys : List String) :
    atKeys (first ++ keys) (schema.check value) =
      (atKeys keys (child.check held ++ schema.alsoFound held)).map
        (below (Pointer.ofKeys first)) := by
  have hunder (key : String) (issues : List Issue) :
      issues.map (below (Pointer.ofKeys [key])) = under key issues := by
    rw [Pointer.ofKeys, Pointer.ofKeys, String.append_empty, under]
  cases hstep with
  | fragment id text =>
      have hcheck : (mk id (.fragment text child)).check value = child.check value := rfl
      simp [hcheck, Pointer.ofKeys, alsoFound, kind]
  | nullable id _ hnull =>
      rw [check_nullable id hnull]
      simp [Pointer.ofKeys, alsoFound, kind]
  | @property _ _ properties fields key _ hproperties hchild hheld =>
      have hkeys := hschema.properties _ .refl _ hproperties
      have hlookup := (Assoc.mem_iff_lookup_eq_some hkeys).mp hchild
      have hattribute : ofAttribute child (fields.lookup key) = child.check held := by
        rw [show fields.lookup key = some held from hheld, ofAttribute]
      rw [check_of_properties hproperties, alsoFound_of_properties hproperties, List.append_nil,
        hunder, ← hattribute]
      exact atKeys_cons_flatMap_under_of_lookup
        (fun property => ofAttribute property.2 (fields.lookup property.1)) hkeys
        (fun property _ => placed_ofAttribute property.2.placed_check _) hlookup keys
  | field id _ hheld =>
      rw [check_record, show alsoFound _ held = [] from rfl, List.append_nil, hunder]
      exact atKeys_cons_flatMap_under_of_lookup (fun field => child.check field.2)
        hvalue.nodup_keys (fun field _ => child.placed_check field.2) hheld keys
  | item id _ hheld =>
      rw [check_array, ofItems_array, hunder]
      exact atKeys_cons_flatMap_under_of_lookup (fun part => ofItem child false part.2)
        hvalue.nodup_keys (fun part _ => placed_ofItem child.placed_check _ part.2) hheld keys
  | element id _ narrowing hheld =>
      rw [check_collection, ofItems_array, hunder]
      exact atKeys_cons_flatMap_under_of_lookup
        (fun part => ofItem child child.isStructured part.2) hvalue.nodup_keys
        (fun part _ => placed_ofItem child.placed_check _ part.2) hheld keys

/-- Where no step leads, there is one issue at most. -/
theorem atKeys_check_cases (hschema : schema.Distinct) (hvalue : value.Distinct)
    (keys : List String) : (atKeys keys (schema.check value)).length ≤ 1 ∨
      ∃ first child held rest, schema.Descends value first child held ∧ keys = first ++ rest := by
  have hfindings := schema.findings_check value
  generalize schema.check value = issues at hfindings ⊢
  cases hfindings with
  | test => exact .inl (length_atKeys_failing_le keys _ _)
  | fragment id text schema => exact .inr ⟨[], _, _, keys, .fragment id text schema value, rfl⟩
  | nullable id inner hnull => exact .inr ⟨[], _, _, keys, .nullable id inner hnull, rfl⟩
  | @properties _ properties hproperties fields =>
      have hkeys := hschema.properties _ .refl _ hproperties
      have hplaced : ∀ property ∈ properties,
          Placed (ofAttribute property.2 (fields.lookup property.1)) :=
        fun property _ => placed_ofAttribute property.2.placed_check _
      rcases atKeys_flatMap_under_cases _ hkeys hplaced keys with hone |
        ⟨key, rest, child, rfl, hchild⟩
      · exact .inl hone
      · cases hheld : fields.lookup key with
        | some held =>
            have hmem := (Assoc.mem_iff_lookup_eq_some hkeys).mpr hchild
            exact .inr ⟨[key], child, held, rest, .property hproperties hmem hheld, rfl⟩
        | none =>
            left
            rw [ofProperties, atKeys_cons_flatMap_under_of_lookup _ hkeys hplaced hchild rest,
              hheld, under, List.length_map]
            exact length_atKeys_failing_le rest _ _
  | record id item fields =>
      refine (atKeys_flatMap_under_cases _ hvalue.nodup_keys
        (fun field _ => item.placed_check field.2) keys).imp_right ?_
      rintro ⟨key, rest, held, rfl, hheld⟩
      exact ⟨[key], item, held, rest, .field id item hheld, rfl⟩
  | array id item items =>
      rw [ofItems_array]
      refine (atKeys_flatMap_under_cases _ hvalue.nodup_keys
        (fun part _ => placed_ofItem item.placed_check _ part.2) keys).imp_right ?_
      rintro ⟨key, rest, held, rfl, hheld⟩
      exact ⟨[key], item, held, rest, .item id item hheld, rfl⟩
  | collection id element narrowing items =>
      rw [ofItems_array]
      refine (atKeys_flatMap_under_cases _ hvalue.nodup_keys
        (fun part _ => placed_ofItem element.placed_check _ part.2) keys).imp_right ?_
      rintro ⟨key, rest, held, rfl, hheld⟩
      exact ⟨[key], element, held, rest, .element id element narrowing hheld, rfl⟩

/-- Besides the issues of its schema, only the key of an item is found to be wrong. -/
theorem atKeys_alsoFound_of_ne (hkeys : keys ≠ ["_key"]) (schema : Node) (item : Json) :
    atKeys keys (schema.alsoFound item) = [] := by
  unfold alsoFound
  split
  · split
    · exact atKeys_ofKey_of_ne hkeys item
    · rfl
  · rfl

/-- Something more is found only of items of collections with structured elements. -/
theorem Descends.comesToElement (hstep : schema.Descends value first child held)
    (hfound : schema.alsoFound held ≠ []) : schema.ComesToElement value first child held := by
  cases hstep with
  | element id _ narrowing hheld =>
      by_cases hstructured : child.isStructured = true
      · exact .intro (.here _ _) hstructured hheld
      · exact absurd (if_neg hstructured) hfound
  | property hproperties => exact absurd (alsoFound_of_properties hproperties held) hfound
  | _ => exact absurd rfl hfound

/-- A step to where an item is checked is a step towards the item. -/
theorem ComesToElement.step (hstep : schema.Descends value first child held)
    (hcomes : child.ComesToElement held keys element item) :
    schema.ComesToElement value (first ++ keys) element item := by
  obtain ⟨hcomes, hstructured, hitem⟩ := hcomes
  rw [← List.append_assoc]
  exact .intro (.step hstep hcomes) hstructured hitem

theorem ComesToElement.ne_nil (hcomes : schema.ComesToElement value keys element item) :
    keys ≠ [] := by
  cases hcomes
  exact List.append_ne_nil_of_right_ne_nil _ (List.cons_ne_nil _ _)

theorem ComesTo.distinct {node : Node} {part : Json} (hcomes : schema.ComesTo value keys node part)
    (hschema : schema.Distinct) (hvalue : value.Distinct) : node.Distinct ∧ part.Distinct := by
  induction hcomes with
  | here => exact ⟨hschema, hvalue⟩
  | step hstep _ ih => exact ih (hschema.child hstep.mem_children) (hstep.distinct hvalue)

theorem ComesToElement.distinct (hcomes : schema.ComesToElement value keys element item)
    (hschema : schema.Distinct) (hvalue : value.Distinct) : element.Distinct ∧ item.Distinct := by
  obtain ⟨hcomes, -, hitem⟩ := hcomes
  obtain ⟨hcollection, hitems⟩ := hcomes.distinct hschema hvalue
  exact ⟨hcollection.child List.mem_cons_self, hitems.of_part hitem⟩

/-- The issues below a part that a check comes to are those of the part, unless the part is an
element and the issues are those with its key. -/
theorem ComesTo.atKeys_check {node : Node} {part : Json}
    (hcomes : schema.ComesTo value keys node part) (hschema : schema.Distinct)
    (hvalue : value.Distinct) {rest : List String} (hrest : 2 ≤ rest.length) :
    atKeys (keys ++ rest) (schema.check value) =
      (atKeys rest (node.check part)).map (Issue.below (Pointer.ofKeys keys)) := by
  induction hcomes with
  | here => simp [Pointer.ofKeys]
  | @step _ child _ _ held _ first keys hstep _ ih =>
      have hlong : keys ++ rest ≠ ["_key"] := by
        intro heq
        have hlength := congrArg List.length heq
        simp only [List.length_append, List.length_singleton] at hlength
        omega
      rw [List.append_assoc, hstep.atKeys_check hschema hvalue, atKeys_append,
        atKeys_alsoFound_of_ne hlong, List.append_nil,
        ih (hschema.child hstep.mem_children) (hstep.distinct hvalue), map_below_ofKeys]

/-- The issues with the key of an element are its own and that of the collection. -/
theorem ComesToElement.atKeys_check (hcomes : schema.ComesToElement value keys element item)
    (hschema : schema.Distinct) (hvalue : value.Distinct) :
    atKeys (keys ++ ["_key"]) (schema.check value) =
      (atKeys ["_key"] (element.check item) ++ ofKey item).map (below (Pointer.ofKeys keys)) := by
  obtain @⟨id, _, narrowing, items, _, keys, key, hcomes, hstructured, hitem⟩ := hcomes
  obtain ⟨hcollection, hitems⟩ := hcomes.distinct hschema hvalue
  have hstep := Descends.element id element narrowing hitem
  have halso : (mk id (.collection element narrowing)).alsoFound item = ofKey item :=
    if_pos hstructured
  have hkey : 2 ≤ ([key] ++ ["_key"]).length := Nat.le_refl 2
  rw [List.append_assoc, hcomes.atKeys_check hschema hvalue hkey,
    hstep.atKeys_check hcollection hitems, halso, atKeys_append, atKeys_ofKey, map_below_ofKeys]

/-- There is one issue at a place at most, unless it is that of the key of an element. -/
theorem apart (hschema : schema.Distinct) (hvalue : value.Distinct) (keys : List String) :
    (atKeys keys (schema.check value)).length ≤ 1 ∨ ∃ before element item,
      schema.ComesToElement value before element item ∧ keys = before ++ ["_key"] := by
  induction schema using Node.induction_of_children generalizing value keys with
  | step schema ih =>
      rcases atKeys_check_cases hschema hvalue keys with hone |
        ⟨first, child, held, rest, hstep, rfl⟩
      · exact .inl hone
      · have hchild := ih child hstep.mem_children (hschema.child hstep.mem_children)
          (hstep.distinct hvalue) rest
        rcases hchild with hone | ⟨before, element, item, hcomes, rfl⟩
        · by_cases halso : atKeys rest (schema.alsoFound held) = []
          · left
            rwa [hstep.atKeys_check hschema hvalue, atKeys_append, halso, List.append_nil,
              List.length_map]
          · right
            have hrest : rest = ["_key"] := by
              by_contra hrest
              exact halso (atKeys_alsoFound_of_ne hrest schema held)
            have hfound : schema.alsoFound held ≠ [] := by
              intro hnone
              rw [hnone] at halso
              exact halso rfl
            exact ⟨first, child, held, hstep.comesToElement hfound, by rw [hrest]⟩
        · exact .inr ⟨_, element, item, hcomes.step hstep, (List.append_assoc ..).symm⟩

theorem count_path (issues : List Issue) (path : String) :
    (issues.map Issue.path).count path =
      (issues.filter fun issue => issue.path = path).length := by
  rw [List.count, List.countP_map, List.countP_eq_length_filter]
  rfl

/-- No place has two issues but that of the key of an element of a collection with structured
elements.  There, one may be an issue that the schema of the element has with its own attribute, and
one comes from the collection if the key is neither a string nor null. -/
theorem issues_apart_but_for_keys (hschema : schema.Distinct) (hvalue : value.Distinct) :
    (∀ path, (∀ keys element item, schema.ComesToElement value keys element item →
        path ≠ Pointer.ofKeys (keys ++ ["_key"])) →
      ((schema.check value).map Issue.path).count path ≤ 1) ∧
    ∀ keys element item, schema.ComesToElement value keys element item →
      let own := (element.check item).filter fun issue => issue.path = Pointer.child "" "_key"
      let ofCollection := Check.found (Check.elementKey item)
      ((schema.check value).filter fun issue => issue.path = Pointer.ofKeys (keys ++ ["_key"])) =
        (own ++ ofCollection).map (Issue.below (Pointer.ofKeys keys)) ∧
      own.length ≤ 1 ∧ ofCollection.length ≤ 1 := by
  constructor
  · intro path hpath
    rw [count_path]
    by_cases hnone : ∃ issue ∈ schema.check value, issue.path = path
    · obtain ⟨issue, hissue, rfl⟩ := hnone
      obtain ⟨keys, hkeys⟩ := schema.placed_check value issue hissue
      rcases apart hschema hvalue keys with hone | ⟨before, element, item, hcomes, rfl⟩
      · rw [hkeys]
        exact hone
      · exact absurd hkeys (hpath before element item hcomes)
    · have hempty : (schema.check value).filter (fun issue => issue.path = path) = [] := by
        rw [List.filter_eq_nil_iff]
        exact fun issue hissue hpath => hnone ⟨issue, hissue, of_decide_eq_true hpath⟩
      simp [hempty]
  · intro keys element item hcomes own ofCollection
    have hroot : Pointer.child "" "_key" = Pointer.ofKeys ["_key"] := String.append_empty.symm
    have hown : own = atKeys ["_key"] (element.check item) := by
      simp only [own, hroot, atKeys]
    have hcollection : ofCollection = ofKey item := found_elementKey item
    rw [hcollection, hown]
    refine ⟨hcomes.atKeys_check hschema hvalue, ?_, length_ofKey_le item⟩
    obtain ⟨helement, hitem⟩ := hcomes.distinct hschema hvalue
    rcases apart helement hitem ["_key"] with hone | ⟨before, _, _, hinside, hkeys⟩
    · exact hone
    · exact absurd (List.append_left_eq_self.mp hkeys.symm) hinside.ne_nil

/-- A key that is a truth value, where the schema of the element asks for a number. -/
theorem issues_apart_but_for_keys_wrong_key :
    let movie := mk ⟨0⟩ (.projection [("_key", mk ⟨1⟩ (.leaf .number)),
      ("title", mk ⟨2⟩ (.leaf .string))] .none)
    let movies := mk ⟨3⟩ (.collection movie .none)
    let archive := mk ⟨4⟩ (.projection [("movies", movies)] .none)
    let schema := mk ⟨5⟩ (.nullable archive)
    let item := Json.object [("_key", .bool true), ("title", .string "Heat")]
    let value := Json.object [("movies", .array [.object [("_key", .null)], item])]
    (schema.Distinct ∧ value.Distinct ∧ schema.ComesToElement value ["movies", "1"] movie item) ∧
      ((schema.check value).filter fun issue => issue.path = "/movies/1/_key") =
        [⟨"/movies/1/_key", "Expected number"⟩, ⟨"/movies/1/_key", "Expected string"⟩] ∧
      ((schema.check value).map Issue.path).count "/movies/0/title" ≤ 1 := by
  intro movie movies archive schema item value
  have hwithin {p : Node → Prop} (hp : ∀ node ∈ [schema, archive, movies, movie,
      mk ⟨1⟩ (.leaf .number), mk ⟨2⟩ (.leaf .string)], p node)
      (node : Node) (hnode : node.Within schema) : p node := by
    apply hp
    refine hnode.of_closed ?_ List.mem_cons_self
    simp [kind, Kind.children, Shape.children, schema, archive, movies, movie]
  have hschema : schema.Distinct := by
    constructor
    · exact hwithin (by simp [properties?, kind, schema, archive, movies, movie])
    · exact hwithin (by simp [kind, schema, archive, movies, movie])
  have hitem : item.Distinct := .object (by decide)
    (List.forall_mem_cons.mpr ⟨.bool true, List.forall_mem_singleton.mpr (.string "Heat")⟩)
  have hother : (Json.object [("_key", .null)]).Distinct :=
    .object (by decide) (List.forall_mem_singleton.mpr .null)
  have hvalue : value.Distinct := .object (by decide) (List.forall_mem_singleton.mpr
    (.array (List.forall_mem_cons.mpr ⟨hother, List.forall_mem_singleton.mpr hitem⟩)))
  have hnull : value ≠ .null := nofun
  have hmovies : archive.Descends value ["movies"] movies
      (.array [.object [("_key", .null)], item]) := .property rfl List.mem_cons_self rfl
  have hpart : (Json.array [.object [("_key", .null)], item]).part? "1" = some item := by cbv
  have hcomes : schema.ComesToElement value ["movies", "1"] movie item :=
    .intro (.step (.nullable ⟨5⟩ archive hnull) (.step hmovies (.here _ _))) rfl hpart
  obtain ⟨hplaces, hkeys⟩ := issues_apart_but_for_keys hschema hvalue
  refine ⟨⟨hschema, hvalue, hcomes⟩, (hkeys ["movies", "1"] movie item hcomes).1, ?_⟩
  refine hplaces _ fun keys _ _ _ heq => ?_
  -- The last key that the pointer names is another one.
  have hread : keys ++ ["_key"] = ["movies", "0", "title"] := by
    have hnamed := congrArg Pointer.keys? heq
    rw [Pointer.keys?_ofKeys] at hnamed
    exact (Option.some.inj hnamed).symm
  have hlast := congrArg List.getLast? hread
  simp at hlast

end Node

end ShapeQuery
