import ShapeQuery.Groq.Text
import ShapeQuery.Proofs.Groq.Name
import ShapeQuery.Proofs.Schema.Induction
import ShapeQuery.Schema.Variant

/-!
# Query skeletons

The skeleton of a node is what its query text can be about: wrappers for absent values are
gone and all leaves are the same.  It has a text of its own, put together like that of a
node.
-/

namespace ShapeQuery

/-- The tree of a node without what leaves no trace in a query. -/
inductive Skeleton where
  | leaf
  | fragment (text : String)
  | projection (fields : List (String × Skeleton)) (options : ProjectionOptions)
  | collection (element : Skeleton) (narrowing : Narrowing)
  | select (branches : List (Guard × Skeleton)) (expansion : Option Expansion)

mutual

def Node.skeleton : Node → Skeleton
  | .mk _ kind => kind.skeleton

def Kind.skeleton : Kind → Skeleton
  | .leaf _ => .leaf
  | .fragment text _ => .fragment text
  | .nullable inner => inner.skeleton
  | .projection properties options => .projection (propertySkeletons properties) options
  | .collection element narrowing => .collection element.skeleton narrowing
  | .select branches expansion => .select (branchSkeletons branches) expansion

def propertySkeletons : List (String × Node) → List (String × Skeleton)
  | [] => []
  | (key, node) :: properties => (key, node.skeleton) :: propertySkeletons properties

def branchSkeletons : List (Guard × Node) → List (Guard × Skeleton)
  | [] => []
  | (guard, node) :: branches => (guard, node.skeleton) :: branchSkeletons branches

end

namespace Skeleton

def isStructured : Skeleton → Bool
  | .projection _ _ => true
  | .select _ _ => true
  | _ => false

mutual

def groq : Skeleton → String
  | .leaf => ""
  | .fragment text => text
  | .projection fields options => Groq.projection options (fieldTexts fields)
  | .collection element narrowing => Groq.collection narrowing element.isStructured element.groq
  | .select branches expansion => Groq.select expansion (branchTexts branches)

def fieldTexts : List (String × Skeleton) → List String
  | [] => []
  | (key, skeleton) :: fields => Groq.field key skeleton.groq :: fieldTexts fields

def branchTexts : List (Guard × Skeleton) → List (Guard × String)
  | [] => []
  | (guard, skeleton) :: branches => (guard, skeleton.groq) :: branchTexts branches

end

/-- The skeleton of the projection of documents of no known type. -/
def unknownVariant : Skeleton :=
  .projection [("_rawType", .fragment "_type"), ("_type", .fragment (Quoted.encode "unknown"))]
    .none

/-- Induction on the fields, elements and branches of a skeleton. -/
@[elab_as_elim]
theorem induction {motive : Skeleton → Prop} (leaf : motive .leaf)
    (fragment : ∀ text, motive (.fragment text))
    (projection : ∀ fields options, (∀ field ∈ fields, motive field.2) →
      motive (.projection fields options))
    (collection : ∀ element narrowing, motive element → motive (.collection element narrowing))
    (select : ∀ branches expansion, (∀ branch ∈ branches, motive branch.2) →
      motive (.select branches expansion)) (skeleton : Skeleton) : motive skeleton := by
  -- Every child is smaller than the skeleton it belongs to.
  induction hsize : sizeOf skeleton using Nat.strongRecOn generalizing skeleton with
  | ind size ih =>
      subst hsize
      cases skeleton with
      | leaf => exact leaf
      | fragment text => exact fragment text
      | projection fields options =>
          apply projection
          intro field hfield
          apply ih (sizeOf field.2) ?_ field.2 rfl
          have := sizeOf_snd_lt_of_mem hfield
          simp only [Skeleton.projection.sizeOf_spec]
          omega
      | collection element narrowing =>
          apply collection
          apply ih (sizeOf element) ?_ element rfl
          simp only [Skeleton.collection.sizeOf_spec]
          omega
      | select branches expansion =>
          apply select
          intro branch hbranch
          apply ih (sizeOf branch.2) ?_ branch.2 rfl
          have := sizeOf_snd_lt_of_mem hbranch
          simp only [Skeleton.select.sizeOf_spec]
          omega

/-- A field that stands for an attribute of another name. -/
def IsAlias (skeleton : Skeleton) : Prop :=
  ∃ target : String, skeleton = .fragment target ∧ isIdentifier target.toList = true

def IsProjection (skeleton : Skeleton) : Prop :=
  ∃ fields options, skeleton = .projection fields options

/-- Skeletons of leaves, projections, collections and typed unions, without filters; fields
may be aliases. -/
inductive Regular : Skeleton → Prop where
  | leaf : Regular .leaf
  | projection {fields : List (String × Skeleton)} {options : ProjectionOptions} :
      options.filter = none → (∀ field ∈ fields, isIdentifier field.1.toList = true) →
      (∀ field ∈ fields, ¬field.2.IsAlias → Regular field.2) → Regular (.projection fields options)
  | collection {element : Skeleton} {narrowing : Narrowing} :
      narrowing.filter = none → Regular element → Regular (.collection element narrowing)
  | union {branches : List (Guard × Skeleton)} (expansion : Option Expansion) :
      (∀ branch ∈ branches, ∃ discriminant, branch.1 = Guard.ofType discriminant) →
      (∀ branch ∈ branches, branch.2.IsProjection) → (∀ branch ∈ branches, Regular branch.2) →
      Regular (.select ((.otherwise, unknownVariant) :: branches) expansion)

end Skeleton

namespace Node

/-- An alias of an attribute with an identifier for a name; its value may be absent. -/
inductive IsAlias : Node → Prop where
  | fragment (id : Identity) {target : String} (schema : Node) :
      isIdentifier target.toList = true → IsAlias (.mk id (.fragment target schema))
  | nullable (id : Identity) {inner : Node} : IsAlias inner → IsAlias (.mk id (.nullable inner))

/-- Nodes built from leaves, projections, collections and typed unions of projections, all
without filters, with wrappers for absent values anywhere; properties may be aliases. -/
inductive Regular : Node → Prop where
  | leaf (id : Identity) (shape : Shape) : Regular (.mk id (.leaf shape))
  | nullable (id : Identity) {inner : Node} : Regular inner → Regular (.mk id (.nullable inner))
  | projection (id : Identity) {properties : List (String × Node)} {options : ProjectionOptions} :
      options.filter = none → (∀ property ∈ properties, isIdentifier property.1.toList = true) →
      (∀ property ∈ properties, ¬property.2.IsAlias → Regular property.2) →
      Regular (.mk id (.projection properties options))
  | collection (id : Identity) {element : Node} {narrowing : Narrowing} :
      narrowing.filter = none → Regular element →
      Regular (.mk id (.collection element narrowing))
  | union (id : Identity) {branches : List (Guard × Node)} (expansion : Option Expansion)
      (drawn : Nat) :
      (∀ branch ∈ branches, ∃ discriminant, branch.1 = Guard.ofType discriminant) →
      (∀ branch ∈ branches, ∃ properties options, branch.2.kind = .projection properties options) →
      (∀ branch ∈ branches, Regular branch.2) →
      Regular (.mk id (.select ((.otherwise, (unknownVariant.run drawn).1) :: branches) expansion))

end Node

theorem mem_propertySkeletons {properties : List (String × Node)} {field : String × Skeleton}
    (hfield : field ∈ propertySkeletons properties) :
    ∃ property ∈ properties, field = (property.1, property.2.skeleton) := by
  induction properties with
  | nil => exact absurd hfield List.not_mem_nil
  | cons property rest ih =>
      rcases List.mem_cons.mp hfield with rfl | hfield
      · exact ⟨property, List.mem_cons_self, rfl⟩
      · obtain ⟨other, hother, heq⟩ := ih hfield
        exact ⟨other, List.mem_cons_of_mem _ hother, heq⟩

theorem mem_branchSkeletons {branches : List (Guard × Node)} {branch : Guard × Skeleton}
    (hbranch : branch ∈ branchSkeletons branches) :
    ∃ other ∈ branches, branch = (other.1, other.2.skeleton) := by
  induction branches with
  | nil => exact absurd hbranch List.not_mem_nil
  | cons first rest ih =>
      rcases List.mem_cons.mp hbranch with rfl | hbranch
      · exact ⟨first, List.mem_cons_self, rfl⟩
      · obtain ⟨other, hother, heq⟩ := ih hbranch
        exact ⟨other, List.mem_cons_of_mem _ hother, heq⟩

theorem fieldTexts_skeletons {properties : List (String × Node)}
    (hproperties : ∀ property ∈ properties, property.2.skeleton.groq = property.2.groq) :
    Skeleton.fieldTexts (propertySkeletons properties) = fieldTexts properties := by
  induction properties with
  | nil => rfl
  | cons property rest ih =>
      obtain ⟨hproperty, hrest⟩ := List.forall_mem_cons.mp hproperties
      rw [propertySkeletons, Skeleton.fieldTexts, fieldTexts, hproperty, ih hrest]

theorem branchTexts_skeletons {branches : List (Guard × Node)}
    (hbranches : ∀ branch ∈ branches, branch.2.skeleton.groq = branch.2.groq) :
    Skeleton.branchTexts (branchSkeletons branches) = branchTexts branches := by
  induction branches with
  | nil => rfl
  | cons branch rest ih =>
      obtain ⟨hbranch, hrest⟩ := List.forall_mem_cons.mp hbranches
      rw [branchSkeletons, Skeleton.branchTexts, branchTexts, hbranch, ih hrest]

namespace Node

variable {node : Node}

theorem IsAlias.skeleton (hnode : node.IsAlias) :
    node.skeleton.IsAlias ∧ node.skeleton.groq = node.groq := by
  induction hnode with
  | fragment id schema htarget => exact ⟨⟨_, rfl, htarget⟩, rfl⟩
  | nullable id _ ih => exact ih

theorem groq_unknownVariant (drawn : Nat) :
    (unknownVariant.run drawn).1.groq = Skeleton.unknownVariant.groq := rfl

/-- Leaves that hold objects count as structured, but leave no text to put in braces. -/
theorem Regular.isStructured_skeleton (hnode : node.Regular) :
    node.skeleton.isStructured = node.isStructured ∨ node.groq = "" := by
  induction node using Node.induction with
  | leaf id shape ih => exact .inr rfl
  | nullable id inner ih =>
      cases hnode with
      | nullable _ hinner => exact ih hinner
  | fragment id text schema ih => nomatch hnode
  | projection id properties options ih => exact .inl rfl
  | collection id element narrowing ih => exact .inl rfl
  | select id branches expansion ih => exact .inl rfl

/-- The text of a node is the text of its skeleton. -/
theorem Regular.groq_skeleton (hnode : node.Regular) : node.skeleton.groq = node.groq := by
  induction node using Node.induction with
  | leaf id shape ih => rfl
  | nullable id inner ih =>
      cases hnode with
      | nullable _ hinner => exact ih hinner
  | fragment id text schema ih => nomatch hnode
  | projection id properties options ih =>
      cases hnode with
      | projection _ hfilter hkeys hvalues =>
          apply congrArg (Groq.projection options)
          apply fieldTexts_skeletons
          intro property hproperty
          by_cases halias : property.2.IsAlias
          · exact halias.skeleton.2
          · exact ih property hproperty (hvalues property hproperty halias)
  | collection id element narrowing ih =>
      cases hnode with
      | collection _ hfilter helement =>
          change Groq.collection narrowing element.skeleton.isStructured element.skeleton.groq =
            Groq.collection narrowing element.isStructured element.groq
          rw [ih helement]
          cases helement.isStructured_skeleton with
          | inl hstructured => rw [hstructured]
          | inr hempty => simp [Groq.collection, hempty]
  | select id branches expansion ih =>
      cases hnode with
      | union _ _ drawn hguards hprojections hbranches =>
          apply congrArg (Groq.select expansion)
          apply branchTexts_skeletons
          intro branch hbranch
          cases List.mem_cons.mp hbranch with
          | inl hfallback =>
              rw [hfallback]
              exact (groq_unknownVariant drawn).symm
          | inr hmem => exact ih branch hbranch (hbranches branch hmem)

/-- The skeleton of a regular node is regular. -/
theorem Regular.skeleton (hnode : node.Regular) : node.skeleton.Regular := by
  induction node using Node.induction with
  | leaf id shape ih => exact .leaf
  | nullable id inner ih =>
      cases hnode with
      | nullable _ hinner => exact ih hinner
  | fragment id text schema ih => nomatch hnode
  | projection id properties options ih =>
      cases hnode with
      | projection _ hfilter hkeys hvalues =>
          apply Skeleton.Regular.projection hfilter
          · intro field hfield
            obtain ⟨property, hproperty, rfl⟩ := mem_propertySkeletons hfield
            exact hkeys property hproperty
          · intro field hfield
            obtain ⟨property, hproperty, rfl⟩ := mem_propertySkeletons hfield
            intro hfield
            have halias : ¬property.2.IsAlias := fun halias => hfield halias.skeleton.1
            exact ih property hproperty (hvalues property hproperty halias)
  | collection id element narrowing ih =>
      cases hnode with
      | collection _ hfilter helement => exact .collection hfilter (ih helement)
  | select id branches expansion ih =>
      cases hnode with
      | @union _ branches _ drawn hguards hprojections hbranches =>
          have hskeleton : (mk id (.select ((.otherwise, (unknownVariant.run drawn).1) :: branches)
              expansion)).skeleton =
                .select ((.otherwise, Skeleton.unknownVariant) :: branchSkeletons branches)
                  expansion := rfl
          rw [hskeleton]
          apply Skeleton.Regular.union
          · intro branch hbranch
            obtain ⟨other, hother, rfl⟩ := mem_branchSkeletons hbranch
            exact hguards other hother
          · intro branch hbranch
            obtain ⟨⟨guard, node⟩, hother, rfl⟩ := mem_branchSkeletons hbranch
            obtain ⟨properties, options, hkind⟩ := hprojections _ hother
            obtain ⟨id, kind⟩ := node
            obtain rfl : kind = .projection properties options := hkind
            exact ⟨_, _, rfl⟩
          · intro branch hbranch
            obtain ⟨other, hother, rfl⟩ := mem_branchSkeletons hbranch
            exact ih other (List.mem_cons_of_mem _ hother) (hbranches other hother)

end Node

end ShapeQuery
