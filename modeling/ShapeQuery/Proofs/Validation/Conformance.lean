import ShapeQuery.Proofs.Json.Equality
import ShapeQuery.Proofs.Validation.Acceptance

/-!
# Conformance

Which values a schema describes, said by rules over schemas and values and
without a checker.  Decoding agrees with it in both directions: it hands back
exactly the values that conform.
-/

namespace ShapeQuery

/-- A number without a fractional part, whichever way it is kept. -/
inductive Number.Integral : Number → Prop where
  | integer (n : WideInt) : Integral (.integer n)
  | float (x : Binary64) (n : ℤ) (hvalue : x.value = n) : Integral (.float x)

/-- What the key of a collection element may be. -/
inductive Json.KeyLike : Json → Prop where
  | null : KeyLike .null
  | string (text : String) : KeyLike (.string text)

mutual

/-- The values that a node describes. -/
inductive Node.Conforms : Node → Json → Prop where
  | mk {id : Identity} {kind : Kind} {value : Json} :
      Kind.Conforms kind value → Node.Conforms (.mk id kind) value

inductive Kind.Conforms : Kind → Json → Prop where
  | leaf {shape : Shape} {value : Json} :
      Shape.Conforms shape value → Kind.Conforms (.leaf shape) value
  | fragment {text : String} {schema : Node} {value : Json} :
      Node.Conforms schema value → Kind.Conforms (.fragment text schema) value
  | null {inner : Node} : Kind.Conforms (.nullable inner) .null
  | nullable {inner : Node} {value : Json} :
      Node.Conforms inner value → Kind.Conforms (.nullable inner) value
  | projection {properties : List (String × Node)} {options : ProjectionOptions}
      {fields : List (String × Json)} :
      (∀ property ∈ properties, ∀ value, fields.lookup property.1 = some value →
        Node.Conforms property.2 value) →
      (∀ property ∈ properties, fields.lookup property.1 = none →
        Node.Conforms property.2 .null) →
      Kind.Conforms (.projection properties options) (.object fields)
  | collection {element : Node} {narrowing : Narrowing} {items : List Json} :
      (∀ item ∈ items, Node.Conforms element item) →
      (element.isStructured = true → ∀ item ∈ items, ∀ key,
        item.field? "_key" = some key → key.KeyLike) →
      Kind.Conforms (.collection element narrowing) (.array items)
  | select {branches : List (Guard × Node)} {expansion : Option Expansion}
      {branch : Guard × Node} {value : Json} :
      branch ∈ branches → Node.Conforms branch.2 value →
      Kind.Conforms (.select branches expansion) value

inductive Shape.Conforms : Shape → Json → Prop where
  | unknown {value : Json} : Shape.Conforms .unknown value
  | null : Shape.Conforms .null .null
  | boolean {truth : Bool} : Shape.Conforms .boolean (.bool truth)
  | number {number : Number} : Shape.Conforms .number (.number number)
  | integer {number : Number} : number.Integral → Shape.Conforms .integer (.number number)
  | string {text : String} : Shape.Conforms .string (.string text)
  | literal {literal value : Json} :
      value.Equal literal → Shape.Conforms (.literal literal) value
  | object {properties : List (String × Node)} {fields : List (String × Json)} :
      (∀ property ∈ properties, ∀ value, fields.lookup property.1 = some value →
        Node.Conforms property.2 value) →
      (∀ property ∈ properties, fields.lookup property.1 = none →
        Node.Conforms property.2 .null) →
      Shape.Conforms (.object properties) (.object fields)
  | record {item : Node} {fields : List (String × Json)} :
      (∀ field ∈ fields, Node.Conforms item field.2) →
      Shape.Conforms (.record item) (.object fields)
  | array {item : Node} {items : List Json} :
      (∀ value ∈ items, Node.Conforms item value) →
      Shape.Conforms (.array item) (.array items)
  | union {members : List Node} {member : Node} {value : Json} :
      member ∈ members → Node.Conforms member value → Shape.Conforms (.union members) value

end

/-- An integral number is found to be whole in every form. -/
theorem Number.isWhole_iff (number : Number) : number.isWhole = true ↔ number.Integral := by
  cases number with
  | integer n => exact ⟨fun _ => .integer n, fun _ => rfl⟩
  | float x =>
      refine x.isWhole_iff.trans ⟨?_, ?_⟩
      · rintro ⟨n, hn⟩
        exact .float x n hn
      · rintro ⟨⟩
        exact ⟨_, by assumption⟩

theorem Json.isStringOrNull_iff (key : Json) : key.isStringOrNull = true ↔ key.KeyLike := by
  constructor
  · intro hkey
    cases key with
    | null => exact .null
    | string text => exact .string text
    | _ => simp [isStringOrNull] at hkey
  · rintro ⟨⟩ <;> rfl

namespace Check

theorem found_elementKey_eq_nil_iff (item : Json) :
    found (elementKey item) = [] ↔
      ∀ key, item.field? "_key" = some key → key.KeyLike := by
  simp only [found_elementKey_eq_nil, Json.isStringOrNull_iff]

end Check

/-- What the properties of an object accept, with held and missing attributes apart. -/
theorem objectAccepts_iff {properties : List (String × Node)}
    (hproperties : ∀ property ∈ properties, ∀ value,
      property.2.Accepts value ↔ property.2.Conforms value) (value : Json) :
    (∃ fields, value = .object fields ∧ ∀ property ∈ properties,
      property.2.Accepts ((fields.lookup property.1).getD .null)) ↔
    ∃ fields, value = .object fields ∧
      (∀ property ∈ properties, ∀ held, fields.lookup property.1 = some held →
        property.2.Conforms held) ∧
      (∀ property ∈ properties, fields.lookup property.1 = none →
        property.2.Conforms .null) := by
  refine exists_congr fun fields => and_congr_right fun _ => ⟨fun h => ?_, ?_⟩
  · refine ⟨fun property hproperty held hheld => ?_, fun property hproperty hnone => ?_⟩
    · have haccepts := h property hproperty
      rw [hheld] at haccepts
      exact (hproperties property hproperty held).mp haccepts
    · have haccepts := h property hproperty
      rw [hnone] at haccepts
      exact (hproperties property hproperty .null).mp haccepts
  · rintro ⟨hheld, hmissing⟩ property hproperty
    rw [hproperties property hproperty]
    cases hlookup : fields.lookup property.1 with
    | none => exact hmissing property hproperty hlookup
    | some held => exact hheld property hproperty held hlookup

/-- The rules for shapes, read as conditions on what the children accept. -/
theorem Shape.accepts_leaf_iff_conforms {id : Identity} {shape : Shape}
    (hchildren : ∀ child ∈ shape.children, ∀ value,
      child.Accepts value ↔ child.Conforms value) (value : Json) :
    (Node.mk id (.leaf shape)).Accepts value ↔ shape.Conforms value := by
  cases shape with
  | unknown => exact ⟨fun _ => .unknown, fun _ => rfl⟩
  | null =>
      refine (Node.accepts_of_require rfl).trans ⟨fun h => ?_, ?_⟩
      · cases value with
        | null => exact .null
        | _ => cases h
      · rintro ⟨⟩
        rfl
  | boolean =>
      refine (Node.accepts_of_require rfl).trans ⟨fun h => ?_, ?_⟩
      · cases value with
        | bool truth => exact .boolean
        | _ => cases h
      · rintro ⟨⟩
        rfl
  | number =>
      refine (Node.accepts_of_require rfl).trans ⟨fun h => ?_, ?_⟩
      · cases value with
        | number number => exact .number
        | _ => cases h
      · rintro ⟨⟩
        rfl
  | integer =>
      refine (Node.accepts_of_require rfl).trans ⟨fun h => ?_, fun h => ?_⟩
      · cases value with
        | number number => exact .integer (number.isWhole_iff.mp h)
        | _ => cases h
      · cases h with
        | integer hintegral => exact (Number.isWhole_iff _).mpr hintegral
  | string =>
      refine (Node.accepts_of_require rfl).trans ⟨fun h => ?_, ?_⟩
      · cases value with
        | string text => exact .string
        | _ => cases h
      · rintro ⟨⟩
        rfl
  | literal literal =>
      refine (Node.accepts_of_require rfl).trans
        ((value.same_iff literal).trans ⟨.literal, fun h => ?_⟩)
      cases h with
      | literal hequal => exact hequal
  | object properties =>
      have hproperties : ∀ property ∈ properties, ∀ value,
          property.2.Accepts value ↔ property.2.Conforms value :=
        fun property hproperty => hchildren property.2 (List.mem_map_of_mem hproperty)
      rw [Node.accepts_object, objectAccepts_iff hproperties]
      constructor
      · rintro ⟨fields, rfl, hheld, hmissing⟩
        exact .object hheld hmissing
      · intro h
        cases h with
        | object hheld hmissing => exact ⟨_, rfl, hheld, hmissing⟩
  | record item =>
      have hitem := hchildren item (List.mem_singleton_self item)
      simp only [Node.accepts_record, hitem]
      constructor
      · rintro ⟨fields, rfl, h⟩
        exact .record h
      · intro h
        cases h with
        | record h => exact ⟨_, rfl, h⟩
  | array item =>
      have hitem := hchildren item (List.mem_singleton_self item)
      simp only [Node.accepts_array, hitem]
      constructor
      · rintro ⟨items, rfl, h⟩
        exact .array h
      · intro h
        cases h with
        | array h => exact ⟨_, rfl, h⟩
  | union members =>
      rw [Node.accepts_union]
      constructor
      · rintro ⟨member, hmember, h⟩
        exact .union hmember ((hchildren member hmember value).mp h)
      · intro h
        cases h with
        | union hmember h => exact ⟨_, hmember, (hchildren _ hmember value).mpr h⟩

/-- Nothing is found wrong with the values that conform, and with no others. -/
theorem Node.accepts_iff_conforms (schema : Node) (value : Json) :
    schema.Accepts value ↔ schema.Conforms value := by
  induction schema using Node.induction generalizing value with
  | leaf id shape hchildren =>
      refine (shape.accepts_leaf_iff_conforms hchildren value).trans
        ⟨fun h => .mk (.leaf h), fun h => ?_⟩
      cases h with
      | mk h => cases h with
        | leaf h => exact h
  | fragment id text schema ih =>
      refine (ih value).trans ⟨fun h => .mk (.fragment h), fun h => ?_⟩
      cases h with
      | mk h => cases h with
        | fragment h => exact h
  | nullable id inner ih =>
      rw [accepts_nullable, ih value]
      constructor
      · rintro (rfl | h)
        · exact .mk .null
        · exact .mk (.nullable h)
      · intro h
        cases h with
        | mk h => cases h with
          | null => exact .inl rfl
          | nullable h => exact .inr h
  | projection id properties options ih =>
      rw [accepts_projection, objectAccepts_iff ih]
      constructor
      · rintro ⟨fields, rfl, hheld, hmissing⟩
        exact .mk (.projection hheld hmissing)
      · intro h
        cases h with
        | mk h => cases h with
          | projection hheld hmissing => exact ⟨_, rfl, hheld, hmissing⟩
  | collection id element narrowing ih =>
      simp only [accepts_collection, ih, Check.found_elementKey_eq_nil_iff]
      constructor
      · rintro ⟨items, rfl, h⟩
        refine .mk (.collection (fun item hitem => (h item hitem).1) ?_)
        exact fun hstructured item hitem => (h item hitem).2 hstructured
      · intro h
        cases h with
        | mk h => cases h with
          | collection hitems hkeys =>
              exact ⟨_, rfl, fun item hitem =>
                ⟨hitems item hitem, fun hstructured => hkeys hstructured item hitem⟩⟩
  | select id branches expansion ih =>
      rw [accepts_select]
      constructor
      · rintro ⟨branch, hbranch, h⟩
        exact .mk (.select hbranch ((ih branch hbranch value).mp h))
      · intro h
        cases h with
        | mk h => cases h with
          | select hbranch h => exact ⟨_, hbranch, (ih _ hbranch value).mpr h⟩

/-- Decoding succeeds on the values that conform to the schema, and on no others. -/
theorem decode_succeeds_iff_conforms (schema : Node) (value : Json) :
    (∃ result, schema.decode value = .ok result) ↔ schema.Conforms value := by
  simp only [Node.decode_eq_ok_iff, Node.accepts_iff_conforms, exists_and_left,
    exists_eq, and_true]

end ShapeQuery
