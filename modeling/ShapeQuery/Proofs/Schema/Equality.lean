import ShapeQuery.Proofs.Json.Equivalence
import ShapeQuery.Proofs.Schema.Induction

/-!
# Equality of schema nodes

Two nodes are equal when they are built alike, whoever made them: with equal nodes under the same
keys of properties, and with equal branches and members one after another.  The test for equality
decides this relation.
-/

namespace ShapeQuery

mutual

/-- Nodes of equal content, whatever their identities. -/
inductive Node.Equal : Node → Node → Prop where
  | mk {id id' : Identity} {kind kind' : Kind} :
      Kind.Equal kind kind' → Node.Equal (.mk id kind) (.mk id' kind')

inductive Kind.Equal : Kind → Kind → Prop where
  | leaf {shape shape' : Shape} : Shape.Equal shape shape' → Kind.Equal (.leaf shape) (.leaf shape')
  | fragment (text : String) {schema schema' : Node} :
      Node.Equal schema schema' → Kind.Equal (.fragment text schema) (.fragment text schema')
  | nullable {inner inner' : Node} :
      Node.Equal inner inner' → Kind.Equal (.nullable inner) (.nullable inner')
  | projection (options : ProjectionOptions) {properties others : List (String × Node)} :
      PropertiesEqual properties others →
      Kind.Equal (.projection properties options) (.projection others options)
  | collection (narrowing : Narrowing) {element element' : Node} :
      Node.Equal element element' →
      Kind.Equal (.collection element narrowing) (.collection element' narrowing)
  | select (expansion : Option Expansion) {branches others : List (Guard × Node)} :
      branches.map Prod.fst = others.map Prod.fst →
      List.Forall₂ Node.Equal (branches.map Prod.snd) (others.map Prod.snd) →
      Kind.Equal (.select branches expansion) (.select others expansion)

inductive Shape.Equal : Shape → Shape → Prop where
  | unknown : Shape.Equal .unknown .unknown
  | null : Shape.Equal .null .null
  | boolean : Shape.Equal .boolean .boolean
  | number : Shape.Equal .number .number
  | integer : Shape.Equal .integer .integer
  | string : Shape.Equal .string .string
  | literal {value value' : Json} :
      value.Equal value' → Shape.Equal (.literal value) (.literal value')
  | object {properties others : List (String × Node)} :
      PropertiesEqual properties others → Shape.Equal (.object properties) (.object others)
  | record {value value' : Node} :
      Node.Equal value value' → Shape.Equal (.record value) (.record value')
  | array {item item' : Node} : Node.Equal item item' → Shape.Equal (.array item) (.array item')
  | union {members others : List Node} :
      List.Forall₂ Node.Equal members others → Shape.Equal (.union members) (.union others)

/-- As many properties, with equal nodes under the same keys. -/
inductive PropertiesEqual : List (String × Node) → List (String × Node) → Prop where
  | mk {properties others : List (String × Node)} :
      properties.length = others.length →
      (∀ property ∈ properties, property.1 ∈ others.map Prod.fst) →
      (∀ property ∈ properties, ∀ other, others.lookup property.1 = some other →
        Node.Equal property.2 other) →
      PropertiesEqual properties others

end

def Node.Decides (node : Node) : Prop :=
  ∀ other, node.same other = true ↔ node.Equal other

theorem sameProperties_eq_all (properties others : List (String × Node)) :
    sameProperties properties others =
      properties.all fun property => (others.lookup property.1).any property.2.same := by
  induction properties with
  | nil => rw [sameProperties, List.all_nil]
  | cons property properties ih =>
      rw [sameProperties, List.all_cons, ih]
      cases others.lookup property.1 <;> rfl

/-- As many properties, all found with an equal node, are equal properties. -/
theorem sameProperties_iff {properties : List (String × Node)}
    (hproperties : ∀ property ∈ properties, property.2.Decides) (others : List (String × Node)) :
    (properties.length == others.length && sameProperties properties others) = true ↔
      PropertiesEqual properties others := by
  rw [Bool.and_eq_true, beq_iff_eq, sameProperties_eq_all, Assoc.all_lookup_any_iff hproperties]
  constructor
  · rintro ⟨hlength, hkeys, hequals⟩
    exact .mk hlength hkeys hequals
  · rintro ⟨hlength, hkeys, hequals⟩
    exact ⟨hlength, hkeys, hequals⟩

theorem sameMembers_iff {members : List Node} (hmembers : ∀ member ∈ members, member.Decides)
    (others : List Node) :
    sameMembers members others = true ↔ List.Forall₂ Node.Equal members others := by
  induction members generalizing others with
  | nil => cases others <;> simp [sameMembers]
  | cons member members ih =>
      obtain ⟨hmember, hrest⟩ := List.forall_mem_cons.mp hmembers
      cases others with
      | nil => simp [sameMembers]
      | cons other rest =>
          rw [sameMembers, Bool.and_eq_true, hmember other, ih hrest, List.forall₂_cons]

theorem sameBranches_iff {branches : List (Guard × Node)}
    (hbranches : ∀ branch ∈ branches, branch.2.Decides) (others : List (Guard × Node)) :
    sameBranches branches others = true ↔ branches.map Prod.fst = others.map Prod.fst ∧
      List.Forall₂ Node.Equal (branches.map Prod.snd) (others.map Prod.snd) := by
  induction branches generalizing others with
  | nil => cases others <;> simp [sameBranches]
  | cons branch branches ih =>
      obtain ⟨hbranch, hrest⟩ := List.forall_mem_cons.mp hbranches
      cases others with
      | nil => simp [sameBranches]
      | cons other rest =>
          obtain ⟨guard, node⟩ := branch
          obtain ⟨guard', node'⟩ := other
          rw [sameBranches, Bool.and_eq_true, Bool.and_eq_true, beq_iff_eq, hbranch node', ih hrest]
          simp only [List.map_cons, List.cons.injEq, List.forall₂_cons]
          exact and_and_and_comm

theorem Shape.same_iff {shape : Shape} (hchildren : ∀ child ∈ shape.children, child.Decides)
    (other : Shape) : shape.same other = true ↔ shape.Equal other := by
  constructor
  · fun_cases Shape.same shape other with
    | case1 => exact fun _ => .unknown
    | case2 => exact fun _ => .null
    | case3 => exact fun _ => .boolean
    | case4 => exact fun _ => .number
    | case5 => exact fun _ => .integer
    | case6 => exact fun _ => .string
    | case7 value value' => exact fun hsame => .literal ((value.same_iff value').mp hsame)
    | case8 properties others =>
        intro hsame
        refine .object ((sameProperties_iff (fun property hproperty => ?_) others).mp hsame)
        exact hchildren property.2 (List.mem_map_of_mem hproperty)
    | case9 value value' =>
        exact fun hsame => .record ((hchildren value List.mem_cons_self value').mp hsame)
    | case10 item item' =>
        exact fun hsame => .array ((hchildren item List.mem_cons_self item').mp hsame)
    | case11 members others =>
        exact fun hsame => .union ((sameMembers_iff hchildren others).mp hsame)
    | case12 => exact fun hsame => Bool.noConfusion hsame
  · intro hequal
    cases hequal with
    | literal hvalues =>
        rw [Shape.same]
        exact (Json.same_iff _ _).mpr hvalues
    | object hproperties =>
        rw [Shape.same]
        refine (sameProperties_iff (fun property hproperty => ?_) _).mpr hproperties
        exact hchildren property.2 (List.mem_map_of_mem hproperty)
    | record hvalue =>
        rw [Shape.same]
        exact (hchildren _ List.mem_cons_self _).mpr hvalue
    | array hitem =>
        rw [Shape.same]
        exact (hchildren _ List.mem_cons_self _).mpr hitem
    | union hmembers =>
        rw [Shape.same]
        exact (sameMembers_iff hchildren _).mpr hmembers
    | _ => rw [Shape.same]

/-- If the test decides equality of the children, it does so of the contents. -/
theorem Kind.same_iff {kind : Kind} (hchildren : ∀ child ∈ kind.children, child.Decides)
    (other : Kind) : kind.same other = true ↔ kind.Equal other := by
  constructor
  · fun_cases Kind.same kind other with
    | case1 shape shape' => exact fun hsame => .leaf ((Shape.same_iff hchildren shape').mp hsame)
    | case2 text schema text' schema' =>
        intro hsame
        rw [Bool.and_eq_true, beq_iff_eq] at hsame
        obtain ⟨rfl, hsame⟩ := hsame
        exact .fragment text ((hchildren schema List.mem_cons_self schema').mp hsame)
    | case3 inner inner' =>
        exact fun hsame => .nullable ((hchildren inner List.mem_cons_self inner').mp hsame)
    | case4 properties options properties' options' =>
        intro hsame
        rw [Bool.and_assoc, Bool.and_eq_true, beq_iff_eq] at hsame
        obtain ⟨rfl, hsame⟩ := hsame
        refine .projection options ((sameProperties_iff (fun property hproperty => ?_) _).mp hsame)
        exact hchildren property.2 (List.mem_map_of_mem hproperty)
    | case5 element narrowing element' narrowing' =>
        intro hsame
        rw [Bool.and_eq_true, beq_iff_eq] at hsame
        obtain ⟨rfl, hsame⟩ := hsame
        exact .collection narrowing ((hchildren element List.mem_cons_self element').mp hsame)
    | case6 branches expansion branches' expansion' =>
        have hbranches : ∀ branch ∈ branches, branch.2.Decides := fun branch hbranch =>
          hchildren branch.2 (List.mem_map_of_mem hbranch)
        intro hsame
        rw [Bool.and_eq_true, beq_iff_eq, sameBranches_iff hbranches] at hsame
        obtain ⟨rfl, hguards, hnodes⟩ := hsame
        exact .select expansion hguards hnodes
    | case7 => exact fun hsame => Bool.noConfusion hsame
  · intro hequal
    cases hequal with
    | leaf hshape =>
        rw [Kind.same]
        exact (Shape.same_iff hchildren _).mpr hshape
    | fragment text hschema =>
        rw [Kind.same, Bool.and_eq_true, beq_iff_eq]
        exact ⟨rfl, (hchildren _ List.mem_cons_self _).mpr hschema⟩
    | nullable hinner =>
        rw [Kind.same]
        exact (hchildren _ List.mem_cons_self _).mpr hinner
    | projection options hproperties =>
        rw [Kind.same, Bool.and_assoc, Bool.and_eq_true, beq_iff_eq]
        refine ⟨rfl, (sameProperties_iff (fun property hproperty => ?_) _).mpr hproperties⟩
        exact hchildren property.2 (List.mem_map_of_mem hproperty)
    | collection narrowing helement =>
        rw [Kind.same, Bool.and_eq_true, beq_iff_eq]
        exact ⟨rfl, (hchildren _ List.mem_cons_self _).mpr helement⟩
    | select expansion hguards hnodes =>
        rw [Kind.same, Bool.and_eq_true, beq_iff_eq]
        refine ⟨rfl, (sameBranches_iff (fun branch hbranch => ?_) _).mpr ⟨hguards, hnodes⟩⟩
        exact hchildren branch.2 (List.mem_map_of_mem hbranch)

/-- The test for equality decides equality. -/
theorem Node.same_iff (node other : Node) : node.same other = true ↔ node.Equal other := by
  have hdecides : node.Decides := by
    induction node using Node.induction_of_children with
    | step node ih =>
      intro other
      obtain ⟨id, kind⟩ := node
      obtain ⟨id', kind'⟩ := other
      have hkinds : kind.same kind' = true ↔ kind.Equal kind' := Kind.same_iff ih kind'
      rw [Node.same, hkinds]
      constructor
      · exact .mk
      · rintro ⟨hkinds⟩
        exact hkinds
  exact hdecides other

/-! ## What equal nodes have in common -/

/-- Equal properties correspond one to one if no key is repeated. -/
theorem PropertiesEqual.matches {related : Node → Node → Prop}
    {properties others : List (String × Node)} (hdistinct : (properties.map Prod.fst).Nodup)
    (hequal : PropertiesEqual properties others)
    (hnodes : ∀ property ∈ properties, ∀ other, property.2.Equal other →
      related property.2 other) : Assoc.Matches related properties others := by
  cases hequal with
  | mk hlength hkeys hequals =>
      exact .of_lookup hdistinct hlength hkeys fun property hproperty other hother =>
        hnodes property hproperty other (hequals property hproperty other hother)

namespace Node

variable {schema other inner : Node}

theorem Equal.isStructured_eq (hequal : schema.Equal other) :
    schema.isStructured = other.isStructured := by
  induction schema using Node.induction_of_children generalizing other with
  | step schema ih =>
      cases hequal with
      | mk hkinds =>
          rw [Node.isStructured, Node.isStructured]
          cases hkinds with
          | fragment text hschema => exact ih _ List.mem_cons_self hschema
          | nullable hinner => exact ih _ List.mem_cons_self hinner
          | leaf hshape => cases hshape <;> rfl
          | _ => rfl

/-- A schema whose objects hold each key once: those with properties as well as those in literals,
at whatever depth. -/
structure Distinct (schema : Node) : Prop where
  properties : ∀ node, Within node schema → ∀ properties, node.properties? = some properties →
    (properties.map Prod.fst).Nodup
  literal : ∀ node, Within node schema → ∀ literal, node.kind = .leaf (.literal literal) →
    literal.Distinct

theorem Distinct.child (hschema : schema.Distinct) (hinner : inner ∈ schema.kind.children) :
    inner.Distinct := by
  constructor
  · exact fun node hnode => hschema.properties node (.child hinner hnode)
  · exact fun node hnode => hschema.literal node (.child hinner hnode)

end Node

end ShapeQuery
