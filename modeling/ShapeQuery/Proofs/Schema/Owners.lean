import Mathlib.Logic.Function.Basic
import ShapeQuery.Proofs.Assoc
import ShapeQuery.Proofs.Text.Framing
import ShapeQuery.Schema.Variant

/-!
# Which variant owns a discriminant

Several variants of a typed union may have the same discriminant.  The last one owns it, and
its branch stands where the discriminant appears first.  Guards on different discriminants are
different texts, so no variant of another discriminant gets in its way.
-/

namespace ShapeQuery

theorem Guard.ofType_injective : Function.Injective Guard.ofType := by
  intro discriminant other heq
  have htexts := congrArg String.toList (Guard.when.inj heq)
  rw [String.toList_append, String.toList_append] at htexts
  have hquoted :
      (Quoted.encode discriminant).toList ++ [] = (Quoted.encode other).toList ++ [] := by
    rw [List.append_cancel_left htexts]
  exact (Quoted.encode_append_inj hquoted).1

namespace Variant

variable {variants : List Variant} {variant : Variant} {type : String}

def owner? (variants : List Variant) (type : String) : Option Variant :=
  variants.reverse.find? fun variant => variant.discriminant == type

def entries (variants : List Variant) : List (String × Variant) :=
  variants.map fun variant => (variant.discriminant, variant)

/-- The variants that own their discriminants, in the order in which these first appear. -/
def owners (variants : List Variant) : List Variant :=
  (Assoc.ofList (entries variants)).map Prod.snd

theorem discriminant_of_owner? (howner : owner? variants type = some variant) :
    variant.discriminant = type := by
  simpa using List.find?_some howner

theorem lookup_reverse_entries (variants : List Variant) (type : String) :
    (entries variants).reverse.lookup type = owner? variants type := by
  rw [entries, ← List.map_reverse, owner?]
  induction variants.reverse with
  | nil => rfl
  | cons variant rest ih =>
      rw [List.map_cons, List.lookup_cons, List.find?_cons, ih, Bool.beq_comm]

theorem discriminant_of_mem_ofList {entry : String × Variant}
    (hentry : entry ∈ Assoc.ofList (entries variants)) : entry.2.discriminant = entry.1 := by
  obtain ⟨variant, -, rfl⟩ := List.mem_map.mp (Assoc.mem_of_mem_ofList hentry)
  rfl

/-- A variant owns its discriminant if none after it has the same one. -/
theorem mem_owners_iff : variant ∈ owners variants ↔
    owner? variants variant.discriminant = some variant := by
  rw [← lookup_reverse_entries, ← Assoc.mem_ofList_iff, owners, List.mem_map]
  constructor
  · rintro ⟨⟨type, other⟩, hentry, rfl⟩
    obtain rfl : other.discriminant = type := discriminant_of_mem_ofList hentry
    exact hentry
  · exact fun hentry => ⟨_, hentry, rfl⟩

theorem mem_of_mem_owners (hvariant : variant ∈ owners variants) : variant ∈ variants :=
  List.mem_reverse.mp (List.mem_of_find?_eq_some (mem_owners_iff.mp hvariant))

/-- Every discriminant has an owner, which stands where the discriminant appears first. -/
theorem map_discriminant_owners (variants : List Variant) :
    (owners variants).map (·.discriminant) = (variants.map (·.discriminant)).eraseDups := by
  calc
    (owners variants).map (·.discriminant) =
        (Assoc.ofList (entries variants)).map fun entry => entry.2.discriminant := List.map_map
    _ = (Assoc.ofList (entries variants)).map Prod.fst :=
      List.map_congr_left fun entry hentry => discriminant_of_mem_ofList hentry
    _ = ((entries variants).map Prod.fst).eraseDups := Assoc.map_fst_ofList _
    _ = (variants.map (·.discriminant)).eraseDups := by rw [entries, List.map_map]; rfl

end Variant

namespace Node

def typedBranch (variant : Variant) : Guard × Node :=
  (.ofType variant.discriminant, variant.node)

/-- Branches with one guard are merged where their variants are. -/
theorem ofList_typedBranches (variants : List Variant) :
    Assoc.ofList (variants.map typedBranch) = (Variant.owners variants).map typedBranch := by
  calc
    Assoc.ofList (variants.map typedBranch) =
        Assoc.ofList ((Variant.entries variants).map fun entry =>
          (Guard.ofType entry.1, entry.2.node)) := by rw [Variant.entries, List.map_map]; rfl
    _ = (Assoc.ofList (Variant.entries variants)).map fun entry =>
          (Guard.ofType entry.1, entry.2.node) := Assoc.ofList_map Guard.ofType_injective _ _
    _ = (Assoc.ofList (Variant.entries variants)).map fun entry => typedBranch entry.2 := by
      refine List.map_congr_left fun entry hentry => ?_
      rw [typedBranch, Variant.discriminant_of_mem_ofList hentry]
    _ = (Variant.owners variants).map typedBranch := by rw [Variant.owners, List.map_map]; rfl

/-- A typed union has the fallback and a branch for each owner. -/
theorem exists_typedUnion_eq (variants : List Variant) (expansion : Option Expansion)
    (drawn : Nat) :
    ∃ id, ((typedUnion variants expansion).run drawn).1 =
      .mk id (.select ((.otherwise, (unknownVariant.run drawn).1) ::
        (Variant.owners variants).map typedBranch) expansion) := by
  have hguard : Guard.otherwise ∉ (variants.map typedBranch).map Prod.fst := by
    intro hguard
    rw [List.map_map] at hguard
    obtain ⟨variant, -, heq⟩ := List.mem_map.mp hguard
    cases heq
  refine ⟨_, congrArg (fun branches => Node.mk _ (.select branches expansion)) ?_⟩
  rw [← ofList_typedBranches]
  exact Assoc.ofList_cons hguard

end Node

end ShapeQuery
