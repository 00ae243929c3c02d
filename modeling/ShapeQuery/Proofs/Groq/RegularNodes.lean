import ShapeQuery.Proofs.Groq.Skeleton
import ShapeQuery.Proofs.Schema.Owners

/-!
# Building regular nodes

Variants of regular properties are regular projections, and typed unions of regular
projections are regular, also where a discriminant is given again.
-/

namespace ShapeQuery

/-- A variant of regular properties is regular. -/
theorem Variant.regular_ofProperties (discriminant : String) {properties : List (String × Node)}
    {options : ProjectionOptions} (drawn : Nat) (hfilter : options.filter = none)
    (hkeys : ∀ property ∈ properties, isIdentifier property.1.toList = true)
    (hvalues : ∀ property ∈ properties, ¬property.2.IsAlias → property.2.Regular) :
    ((ofProperties discriminant properties options).run drawn).1.node.Regular := by
  have hmem {property : String × Node}
      (hproperty : property ∈ Assoc.ofList (("_type", Node.mk ⟨drawn⟩
        (.leaf (.literal (.string discriminant)))) ::
          properties.filter fun property => property.1 != "_type")) :
      property = ("_type", Node.mk ⟨drawn⟩ (.leaf (.literal (.string discriminant)))) ∨
        property ∈ properties := by
    have hgiven := Assoc.mem_of_mem_ofList hproperty
    exact (List.mem_cons.mp hgiven).imp_right fun hfiltered => (List.mem_filter.mp hfiltered).1
  apply Node.Regular.projection ⟨drawn + 1⟩ hfilter
  · intro property hproperty
    cases hmem hproperty with
    | inl htype =>
        rw [htype]
        exact (rfl : isIdentifier "_type".toList = true)
    | inr hother => exact hkeys property hother
  · intro property hproperty halias
    cases hmem hproperty with
    | inl htype =>
        rw [htype]
        exact .leaf _ _
    | inr hother => exact hvalues property hother halias

/-- A typed union of regular projections is regular. -/
theorem Node.regular_typedUnion {variants : List Variant} (expansion : Option Expansion)
    (drawn : Nat)
    (hprojections : ∀ variant ∈ variants,
      ∃ properties options, variant.node.kind = .projection properties options)
    (hregular : ∀ variant ∈ variants, variant.node.Regular) :
    ((typedUnion variants expansion).run drawn).1.Regular := by
  have howner {branch : Guard × Node}
      (hbranch : branch ∈ (Variant.owners variants).map typedBranch) :
      ∃ variant ∈ variants, branch = typedBranch variant := by
    obtain ⟨variant, hvariant, rfl⟩ := List.mem_map.mp hbranch
    exact ⟨variant, Variant.mem_of_mem_owners hvariant, rfl⟩
  obtain ⟨id, hunion⟩ := exists_typedUnion_eq variants expansion drawn
  rw [hunion]
  apply Node.Regular.union
  · intro branch hbranch
    obtain ⟨variant, -, rfl⟩ := howner hbranch
    exact ⟨variant.discriminant, rfl⟩
  · intro branch hbranch
    obtain ⟨variant, hvariant, rfl⟩ := howner hbranch
    exact hprojections variant hvariant
  · intro branch hbranch
    obtain ⟨variant, hvariant, rfl⟩ := howner hbranch
    exact hregular variant hvariant

end ShapeQuery
