import ShapeQuery.Groq.Text
import ShapeQuery.Proofs.Groq.Framing
import ShapeQuery.Proofs.Schema.Owners
import ShapeQuery.Proofs.Validation.Acceptance

/-!
# Typed unions

A variant accepts only objects of its type, so a typed union accepts an object just if the
variant that owns its type does, or if the fallback does.  The text of the union has one branch
for each owner and no other.  So what is projected and what is accepted are up to the same
variant.
-/

namespace ShapeQuery

/-- An attribute that is missing counts as null, so it is no string. -/
theorem getD_null_eq_string_iff {held : Option Json} {text : String} :
    held.getD .null = .string text ↔ held = some (.string text) := by
  cases held <;> simp

namespace Node

theorem accepts_string (id : Identity) (value : Json) :
    (mk id (.leaf .string)).Accepts value ↔ ∃ text, value = .string text := by
  have hissues : (mk id (.leaf .string)).check value =
      Check.found (Check.require (Check.isString value) "Expected string") := rfl
  rw [accepts_of_require hissues]
  cases value with
  | string text => exact ⟨fun _ => ⟨text, rfl⟩, fun _ => rfl⟩
  | _ => simp [Check.isString]

theorem accepts_literal_string (id : Identity) (text : String) (value : Json) :
    (mk id (.leaf (.literal (.string text)))).Accepts value ↔ value = .string text := by
  have hissues : (mk id (.leaf (.literal (.string text)))).check value =
      Check.found (Check.require (value.same (.string text))
        ("Expected " ++ (Json.string text).text)) := rfl
  rw [accepts_of_require hissues]
  cases value with
  | string other => simp [Json.same]
  | _ => simp [Json.same]

end Node

namespace Variant

/-- The variants that are built from properties and options, and expanded at will. -/
inductive Typed : Variant → Prop where
  | ofProperties (discriminant : String) (properties : List (String × Node))
      (options : ProjectionOptions) (drawn : ℕ) :
      Typed ((ofProperties discriminant properties options).run drawn).1
  | expanded {variant : Variant} (expansion : Expansion) (drawn : ℕ) :
      Typed variant → Typed ((variant.expanded expansion).run drawn).1

/-- A variant is a projection that binds the type to the discriminant. -/
theorem Typed.exists_projection {variant : Variant} (hvariant : variant.Typed) :
    ∃ id type properties options,
      variant.node = .mk id (.projection (("_type", type) :: properties) options) ∧
      type.kind = .leaf (.literal (.string variant.discriminant)) := by
  induction hvariant with
  | ofProperties discriminant properties options drawn =>
      let type := Node.mk ⟨drawn⟩ (.leaf (.literal (.string discriminant)))
      let others := properties.filter fun property => property.1 != "_type"
      have hothers : "_type" ∉ others.map Prod.fst := by
        intro hmem
        obtain ⟨property, hproperty, hkey⟩ := List.mem_map.mp hmem
        exact absurd hkey (by simpa using (List.mem_filter.mp hproperty).2)
      have hnode : ((Variant.ofProperties discriminant properties options).run drawn).1.node =
          .mk ⟨drawn + 1⟩ (.projection (Assoc.ofList (("_type", type) :: others)) options) := rfl
      rw [Assoc.ofList_cons hothers] at hnode
      exact ⟨_, type, _, options, hnode, rfl⟩
  | @expanded variant expansion drawn _ ih =>
      obtain ⟨id, type, properties, options, hnode, htype⟩ := ih
      let patch := (Derivation.expand expansion).toPatch
      have hderived : ((variant.expanded expansion).run drawn).1.node =
          .mk ⟨drawn⟩ (variant.node.kind.patched patch) := rfl
      rw [hnode] at hderived
      exact ⟨⟨drawn⟩, type, properties, options.patched patch, hderived, htype⟩

/-- A variant accepts nothing but objects of its type. -/
theorem Typed.exists_object {variant : Variant} {value : Json} (hvariant : variant.Typed)
    (haccepts : variant.node.Accepts value) :
    ∃ fields, value = .object fields ∧
      fields.lookup "_type" = some (.string variant.discriminant) := by
  obtain ⟨id, ⟨typeId, kind⟩, properties, options, hnode, hkind⟩ := hvariant.exists_projection
  obtain rfl : kind = .leaf (.literal (.string variant.discriminant)) := hkind
  rw [hnode, Node.accepts_projection] at haccepts
  obtain ⟨fields, rfl, hfields⟩ := haccepts
  have htype := (Node.accepts_literal_string _ _ _).mp (hfields _ List.mem_cons_self)
  exact ⟨fields, rfl, getD_null_eq_string_iff.mp htype⟩

theorem Typed.groq_ne_empty {variant : Variant} (hvariant : variant.Typed) :
    variant.node.groq ≠ "" := by
  obtain ⟨id, type, properties, options, hnode, -⟩ := hvariant.exists_projection
  rw [hnode]
  exact Groq.projection_ne_empty options _

def branchText (variant : Variant) : String :=
  "_type == " ++ Quoted.encode variant.discriminant ++ " => " ++ variant.node.groq

end Variant

namespace Node

/-- The fallback accepts objects that say they are unknown and name their real type. -/
theorem accepts_unknownVariant (drawn : ℕ) (value : Json) :
    (unknownVariant.run drawn).1.Accepts value ↔ ∃ fields, value = .object fields ∧
      fields.lookup "_type" = some (.string "unknown") ∧
      ∃ rawType, fields.lookup "_rawType" = some (.string rawType) := by
  let rawType := mk ⟨drawn + 1⟩ (.fragment "_type" (mk ⟨drawn⟩ (.leaf .string)))
  let type := mk ⟨drawn + 3⟩ (.fragment (Quoted.encode "unknown")
    (mk ⟨drawn + 2⟩ (.leaf (.literal (.string "unknown")))))
  have hnode : (unknownVariant.run drawn).1 =
      mk ⟨drawn + 4⟩ (.projection [("_rawType", rawType), ("_type", type)] .none) := rfl
  have hraw (value : Json) : rawType.Accepts value ↔ ∃ text, value = .string text :=
    accepts_string ⟨drawn⟩ value
  have htype (value : Json) : type.Accepts value ↔ value = .string "unknown" :=
    accepts_literal_string ⟨drawn + 2⟩ "unknown" value
  simp only [hnode, accepts_projection, List.forall_mem_cons, hraw, htype,
    getD_null_eq_string_iff, List.not_mem_nil, false_implies, implies_true, and_true]
  constructor
  · rintro ⟨fields, rfl, hrawType, hunknown⟩
    exact ⟨fields, rfl, hunknown, hrawType⟩
  · rintro ⟨fields, rfl, hunknown, hrawType⟩
    exact ⟨fields, rfl, hrawType, hunknown⟩

variable {variants : List Variant}

theorem fallbackText_eq (drawn : ℕ) : (unknownVariant.run drawn).1.groq =
    "\x7b\"_rawType\":_type,\"_type\":\"unknown\"\x7d" := by
  have hany : (unknownVariant.run drawn).1.groq = (unknownVariant.run 0).1.groq := rfl
  rw [hany]
  decide

theorem guardedTexts_typedBranches (hvariants : ∀ variant ∈ variants, variant.node.groq ≠ "") :
    Groq.guardedTexts (branchTexts (variants.map typedBranch)) =
      variants.map Variant.branchText := by
  induction variants with
  | nil => rfl
  | cons variant rest ih =>
      obtain ⟨hvariant, hrest⟩ := List.forall_mem_cons.mp hvariants
      have hbody : Groq.branchBody variant.node.groq = variant.node.groq := if_neg hvariant
      have hcons : Groq.guardedTexts (branchTexts ((variant :: rest).map typedBranch)) =
          ("_type == " ++ Quoted.encode variant.discriminant ++ " => " ++
            Groq.branchBody variant.node.groq) ::
              Groq.guardedTexts (branchTexts (rest.map typedBranch)) := rfl
      rw [hcons, hbody, ih hrest]
      rfl

theorem fallbackTexts_typedBranches (variants : List Variant) :
    Groq.fallbackTexts (branchTexts (variants.map typedBranch)) = [] := by
  induction variants with
  | nil => rfl
  | cons variant rest ih => exact ih

/-- The text of a typed union has one branch for each owner, and ends with the fallback. -/
theorem groq_typedUnion (hvariants : ∀ variant ∈ variants, variant.Typed)
    (expansion : Option Expansion) (drawn : ℕ) :
    ((typedUnion variants expansion).run drawn).1.groq =
      Groq.expanded (Groq.braced ("...select(" ++ ",".intercalate
        ((Variant.owners variants).map Variant.branchText ++
          ["\x7b\"_rawType\":_type,\"_type\":\"unknown\"\x7d"]) ++ ")")) expansion := by
  have hnonempty : ∀ variant ∈ Variant.owners variants, variant.node.groq ≠ "" :=
    fun variant hvariant => (hvariants variant (Variant.mem_of_mem_owners hvariant)).groq_ne_empty
  let fallback := (unknownVariant.run drawn).1.groq
  let branches := branchTexts ((Variant.owners variants).map typedBranch)
  have hguarded : Groq.guardedTexts ((.otherwise, fallback) :: branches) =
      (Variant.owners variants).map Variant.branchText := guardedTexts_typedBranches hnonempty
  have hfallback : Groq.fallbackTexts ((.otherwise, fallback) :: branches) =
      ["\x7b\"_rawType\":_type,\"_type\":\"unknown\"\x7d"] := by
    have hcons : Groq.fallbackTexts ((.otherwise, fallback) :: branches) =
        Groq.branchBody fallback :: Groq.fallbackTexts branches := rfl
    have hbody : Groq.branchBody fallback = fallback := if_neg (by simp [fallback, fallbackText_eq])
    rw [hcons, fallbackTexts_typedBranches, hbody]
    exact congrArg ([·]) (fallbackText_eq drawn)
  obtain ⟨id, hunion⟩ := exists_typedUnion_eq variants expansion drawn
  rw [hunion, ← hguarded, ← hfallback]
  rfl

/-- A typed union accepts an object if the variant that owns its type does, or if the fallback
does. -/
theorem accepts_typedUnion (hvariants : ∀ variant ∈ variants, variant.Typed)
    (expansion : Option Expansion) (drawn : ℕ) (value : Json) :
    ((typedUnion variants expansion).run drawn).1.Accepts value ↔
      ∃ fields type, value = .object fields ∧ fields.lookup "_type" = some (.string type) ∧
        ((∃ variant, Variant.owner? variants type = some variant ∧ variant.node.Accepts value) ∨
          (type = "unknown" ∧ ∃ rawType, fields.lookup "_rawType" = some (.string rawType))) := by
  obtain ⟨id, hunion⟩ := exists_typedUnion_eq variants expansion drawn
  rw [hunion, accepts_select, List.exists_mem_cons_iff]
  constructor
  · rintro (hfallback | ⟨branch, hbranch, haccepts⟩)
    · obtain ⟨fields, rfl, htype, hrawType⟩ := (accepts_unknownVariant drawn value).mp hfallback
      exact ⟨fields, "unknown", rfl, htype, .inr ⟨rfl, hrawType⟩⟩
    · obtain ⟨variant, howner, rfl⟩ := List.mem_map.mp hbranch
      have htyped := hvariants variant (Variant.mem_of_mem_owners howner)
      obtain ⟨fields, rfl, htype⟩ := htyped.exists_object haccepts
      exact ⟨fields, _, rfl, htype, .inl ⟨variant, Variant.mem_owners_iff.mp howner, haccepts⟩⟩
  · rintro ⟨fields, type, rfl, htype, ⟨variant, howner, haccepts⟩ | ⟨rfl, hrawType⟩⟩
    · obtain rfl := Variant.discriminant_of_owner? howner
      exact .inr ⟨typedBranch variant,
        List.mem_map_of_mem (Variant.mem_owners_iff.mpr howner), haccepts⟩
    · exact .inl ((accepts_unknownVariant drawn _).mpr ⟨fields, rfl, htype, hrawType⟩)

/-- What a typed union accepts and what it projects are both up to the last variant of each
discriminant.  The owners stand in the order in which their discriminants first appear, one
branch each, and the fallback comes last. -/
theorem owners_decide_typedUnion (hvariants : ∀ variant ∈ variants, variant.Typed)
    (expansion : Option Expansion) (drawn : ℕ) :
    let union := ((typedUnion variants expansion).run drawn).1
    (∀ value, union.Accepts value ↔
      ∃ fields type, value = .object fields ∧ fields.lookup "_type" = some (.string type) ∧
        ((∃ variant, Variant.owner? variants type = some variant ∧ variant.node.Accepts value) ∨
          (type = "unknown" ∧
            ∃ rawType, fields.lookup "_rawType" = some (.string rawType)))) ∧
    ∃ owners : List Variant,
      owners.map (·.discriminant) = (variants.map (·.discriminant)).eraseDups ∧
      (∀ owner ∈ owners, Variant.owner? variants owner.discriminant = some owner) ∧
      union.groq = Groq.expanded (Groq.braced ("...select(" ++ ",".intercalate
        (owners.map Variant.branchText ++
          ["\x7b\"_rawType\":_type,\"_type\":\"unknown\"\x7d"]) ++ ")")) expansion := by
  intro union
  refine ⟨accepts_typedUnion hvariants expansion drawn, Variant.owners variants,
    Variant.map_discriminant_owners variants, ?_, groq_typedUnion hvariants expansion drawn⟩
  exact fun owner howner => Variant.mem_owners_iff.mp howner

/-- A variant for the type of the fallback, given twice, the second time expanded. -/
theorem owners_decide_repeated_unknown :
    let title := Node.mk ⟨0⟩ (.leaf .string)
    let first := ((Variant.ofProperties "unknown" [("title", title)]).run 1).1
    let movie := ((Variant.ofProperties "movie" [("_type", title), ("title", title)]).run 3).1
    let last := ((((Variant.ofProperties "unknown" []).run 5).1.expanded .always).run 7).1
    let union := ((typedUnion [first, movie, last]).run 8).1
    let untitled := Json.object [("_type", .string "unknown")]
    union.Accepts untitled ∧ ¬first.node.Accepts untitled ∧
      ∃ owners : List Variant, owners.map (·.discriminant) = ["unknown", "movie"] ∧
        (∀ owner ∈ owners,
          Variant.owner? [first, movie, last] owner.discriminant = some owner) ∧
        union.groq = Groq.braced ("...select(" ++ ",".intercalate
          (owners.map Variant.branchText ++
            ["\x7b\"_rawType\":_type,\"_type\":\"unknown\"\x7d"]) ++ ")") := by
  intro title first movie last union untitled
  have hvariants : ∀ variant ∈ [first, movie, last], variant.Typed := by
    simp only [List.forall_mem_cons]
    exact ⟨.ofProperties _ _ _ 1, .ofProperties _ _ _ 3,
      .expanded .always 7 (.ofProperties _ _ _ 5), nofun⟩
  obtain ⟨haccepts, howners⟩ := owners_decide_typedUnion hvariants none 8
  have howner : Variant.owner? [first, movie, last] "unknown" = some last := rfl
  have hlast : last.node.Accepts untitled := rfl
  have hunion : union.Accepts untitled :=
    (haccepts untitled).mpr ⟨_, "unknown", rfl, rfl, .inl ⟨last, howner, hlast⟩⟩
  refine ⟨hunion, ?_, howners⟩
  intro hfirst
  cases hfirst

end Node

end ShapeQuery
