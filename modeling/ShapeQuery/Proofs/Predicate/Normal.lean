import ShapeQuery.Proofs.Json.Tokens
import ShapeQuery.Proofs.Predicate.Reader

/-!
# The formula of a predicate

A predicate may join one part or none, which its text does not show.  Its formula replaces
such a conjunction or disjunction by the part or by a constant, and has the same truth.
-/

namespace ShapeQuery

namespace Predicate

/-- Induction on the parts of a predicate. -/
@[elab_as_elim]
theorem induction {motive : Predicate → Prop}
    (all : ∀ parts, (∀ part ∈ parts, motive part) → motive (.all parts))
    (any : ∀ parts, (∀ part ∈ parts, motive part) → motive (.any parts))
    (not : ∀ part, motive part → motive (.not part))
    (defined : ∀ field present, motive (.defined field present))
    (compare : ∀ field comparison operand, motive (.compare field comparison operand))
    (verbatim : ∀ text, motive (.verbatim text)) (predicate : Predicate) : motive predicate := by
  -- Every part is smaller than the predicate it belongs to.
  induction hsize : sizeOf predicate using Nat.strongRecOn generalizing predicate with
  | ind size ih =>
      subst hsize
      cases predicate with
      | all parts =>
          refine all parts fun part hpart => ih _ ?_ part rfl
          have := List.sizeOf_lt_of_mem hpart
          simp only [Predicate.all.sizeOf_spec]
          omega
      | any parts =>
          refine any parts fun part hpart => ih _ ?_ part rfl
          have := List.sizeOf_lt_of_mem hpart
          simp only [Predicate.any.sizeOf_spec]
          omega
      | not part => exact not part (ih _ (by simp) part rfl)
      | defined field present => exact defined field present
      | compare field comparison operand => exact compare field comparison operand
      | verbatim text => exact verbatim text

mutual

/-- The formula of a predicate.  A condition that is already text means what it reads as. -/
def normal : Predicate → Formula
  | .all parts => .allOf (partNormals parts)
  | .any parts => .anyOf (partNormals parts)
  | .not part => .not part.normal
  | .defined field present => .defined field present
  | .compare field comparison operand => .compare field comparison operand
  | .verbatim text => (Formula.ofText? text).getD (.constant false)

def partNormals : List Predicate → List Formula
  | [] => []
  | part :: parts => part.normal :: partNormals parts

end

mutual

def holds (valuation : Valuation) : Predicate → Bool
  | .all parts => allHold valuation parts
  | .any parts => anyHolds valuation parts
  | .not part => !part.holds valuation
  | .defined field present => valuation.defined field == present
  | .compare field comparison operand => valuation.compare field comparison operand
  | .verbatim text => ((Formula.ofText? text).getD (.constant false)).holds valuation

def allHold (valuation : Valuation) : List Predicate → Bool
  | [] => true
  | part :: parts => part.holds valuation && allHold valuation parts

def anyHolds (valuation : Valuation) : List Predicate → Bool
  | [] => false
  | part :: parts => part.holds valuation || anyHolds valuation parts

end

/-- A predicate and its formula are true under the same valuations. -/
theorem holds_normal (valuation : Valuation) (predicate : Predicate) :
    predicate.normal.holds valuation = predicate.holds valuation := by
  induction predicate using Predicate.induction with
  | all parts ih =>
      rw [normal, Formula.holds_allOf, holds]
      induction parts with
      | nil => rfl
      | cons part rest ihrest =>
          obtain ⟨hpart, hrest⟩ := List.forall_mem_cons.mp ih
          rw [partNormals, Formula.allHold, allHold, hpart, ihrest hrest]
  | any parts ih =>
      rw [normal, Formula.holds_anyOf, holds]
      induction parts with
      | nil => rfl
      | cons part rest ihrest =>
          obtain ⟨hpart, hrest⟩ := List.forall_mem_cons.mp ih
          rw [partNormals, Formula.anyHolds, anyHolds, hpart, ihrest hrest]
  | not part ih => rw [normal, Formula.holds, holds, ih]
  | defined field present => rfl
  | compare field comparison operand => rfl
  | verbatim text => rfl

end Predicate

/-- A parameter that is a name, or a value with distinct keys. -/
inductive Operand.Readable : Operand → Prop where
  | value {literal : Json} : literal.Distinct → Readable (.value literal)
  | parameter {name : String} : isName name.toList = true → Readable (.parameter name)

/-- A predicate over names, in which no condition is already text. -/
inductive Predicate.Readable : Predicate → Prop where
  | all {parts : List Predicate} : (∀ part ∈ parts, Readable part) → Readable (.all parts)
  | any {parts : List Predicate} : (∀ part ∈ parts, Readable part) → Readable (.any parts)
  | not {part : Predicate} : Readable part → Readable (.not part)
  | defined {field : String} (present : Bool) :
      isName field.toList = true → Readable (.defined field present)
  | compare {field : String} (comparison : Comparison) {operand : Operand} :
      isName field.toList = true → operand.Readable → Readable (.compare field comparison operand)

end ShapeQuery
