import ShapeQuery.Proofs.Predicate.Context

/-!
# Combined conditions

A condition is combined with others by one method after another.  Conjunctions take another
condition as one more part and disjunctions do the same, so the tree that comes out is flatter than
the order of the calls suggests.  Its text still reads as if every call had put parentheses around
all that was there before it.
-/

namespace ShapeQuery

namespace Predicate

variable {predicate other : Predicate} {parts : List Predicate}

theorem allHold_append (valuation : Valuation) (parts others : List Predicate) :
    allHold valuation (parts ++ others) = (allHold valuation parts && allHold valuation others) := by
  induction parts with
  | nil => rfl
  | cons part rest ih => rw [List.cons_append, allHold, allHold, ih, Bool.and_assoc]

theorem anyHolds_append (valuation : Valuation) (parts others : List Predicate) :
    anyHolds valuation (parts ++ others) =
      (anyHolds valuation parts || anyHolds valuation others) := by
  induction parts with
  | nil => rfl
  | cons part rest ih => rw [List.cons_append, anyHolds, anyHolds, ih, Bool.or_assoc]

/-- One more part of a conjunction means the same as a conjunction around all of it. -/
theorem holds_and (valuation : Valuation) (predicate other : Predicate) :
    (predicate.and other).holds valuation =
      (predicate.holds valuation && other.holds valuation) := by
  unfold Predicate.and
  split
  · next parts =>
      rw [holds, holds, allHold_append, allHold, allHold, Bool.and_true]
  · rw [holds, allHold, allHold, allHold, Bool.and_true]

/-- One more part of a disjunction means the same as a disjunction around all of it. -/
theorem holds_or (valuation : Valuation) (predicate other : Predicate) :
    (predicate.or other).holds valuation =
      (predicate.holds valuation || other.holds valuation) := by
  unfold Predicate.or
  split
  · next parts =>
      rw [holds, holds, anyHolds_append, anyHolds, anyHolds, Bool.or_false]
  · rw [holds, anyHolds, anyHolds, anyHolds, Bool.or_false]

theorem readable_of_mem_append {others : List Predicate} (hparts : ∀ part ∈ parts, part.Readable)
    (hothers : ∀ part ∈ others, part.Readable) : ∀ part ∈ parts ++ others, part.Readable :=
  fun part hpart => (List.mem_append.mp hpart).elim (hparts part) (hothers part)

theorem Readable.and (hpredicate : predicate.Readable) (hother : other.Readable) :
    (predicate.and other).Readable := by
  have hlast : ∀ part ∈ [other], part.Readable := List.forall_mem_singleton.mpr hother
  unfold Predicate.and
  split
  · next parts =>
      cases hpredicate with
      | all hparts => exact .all (readable_of_mem_append hparts hlast)
  · exact .all (List.forall_mem_cons.mpr ⟨hpredicate, hlast⟩)

theorem Readable.or (hpredicate : predicate.Readable) (hother : other.Readable) :
    (predicate.or other).Readable := by
  have hlast : ∀ part ∈ [other], part.Readable := List.forall_mem_singleton.mpr hother
  unfold Predicate.or
  split
  · next parts =>
      cases hpredicate with
      | any hparts => exact .any (readable_of_mem_append hparts hlast)
  · exact .any (List.forall_mem_cons.mpr ⟨hpredicate, hlast⟩)

theorem Readable.ofText?_eq_normal (hpredicate : predicate.Readable) :
    Formula.ofText? predicate.groq = some predicate.normal :=
  Formula.ofText?_of_readsLevel (Formula.tokens?_eq_some hpredicate.scans) hpredicate.reads.2

end Predicate

inductive Combination where
  | and (other : Predicate)
  | or (other : Predicate)
  | not

namespace Combination

variable {combination : Combination} {base : Predicate}

def apply (base : Predicate) : Combination → Predicate
  | .and other => base.and other
  | .or other => base.or other
  | .not => .not base

/-- The truth of a call on a condition, given the truth of the condition. -/
def truth (valuation : Valuation) (base : Bool) : Combination → Bool
  | .and other => base && other.holds valuation
  | .or other => base || other.holds valuation
  | .not => !base

/-- A call with a condition over names, in which no condition is already text. -/
inductive Readable : Combination → Prop where
  | and {other : Predicate} : other.Readable → Readable (.and other)
  | or {other : Predicate} : other.Readable → Readable (.or other)
  | not : Readable .not

/-- Adding to a list that is already there is as true as nesting would be. -/
theorem holds_apply (valuation : Valuation) (base : Predicate) (combination : Combination) :
    (combination.apply base).holds valuation =
      combination.truth valuation (base.holds valuation) := by
  cases combination with
  | and other => exact Predicate.holds_and valuation base other
  | or other => exact Predicate.holds_or valuation base other
  | not => rfl

theorem Readable.apply (hcombination : combination.Readable) (hbase : base.Readable) :
    (combination.apply base).Readable := by
  cases hcombination with
  | and hother => exact hbase.and hother
  | or hother => exact hbase.or hother
  | not => exact .not hbase

/-! ## Calls one after another -/

/-- A chain of calls is evaluated from left to right. -/
theorem holds_foldl_apply (valuation : Valuation) (base : Predicate)
    (combinations : List Combination) :
    (combinations.foldl apply base).holds valuation =
      combinations.foldl (truth valuation) (base.holds valuation) := by
  induction combinations generalizing base with
  | nil => rfl
  | cons combination rest ih => rw [List.foldl_cons, List.foldl_cons, ih, holds_apply]

theorem readable_foldl_apply {combinations : List Combination} (hbase : base.Readable)
    (hcombinations : ∀ combination ∈ combinations, combination.Readable) :
    (combinations.foldl apply base).Readable := by
  induction combinations generalizing base with
  | nil => exact hbase
  | cons combination rest ih =>
      obtain ⟨hcombination, hrest⟩ := List.forall_mem_cons.mp hcombinations
      exact ih (hcombination.apply hbase) hrest

/-- The text of a condition that was combined with others reads as a formula that is true whenever
the calls say so from left to right, whatever was appended to what. -/
theorem groq_reads_left_to_right {combinations : List Combination} (hbase : base.Readable)
    (hcombinations : ∀ combination ∈ combinations, combination.Readable) :
    ∃ formula, Formula.ofText? (combinations.foldl apply base).groq = some formula ∧
      ∀ valuation, formula.holds valuation =
        combinations.foldl (truth valuation) (base.holds valuation) := by
  have hreadable := readable_foldl_apply hbase hcombinations
  refine ⟨_, hreadable.ofText?_eq_normal, fun valuation => ?_⟩
  rw [Predicate.holds_normal, holds_foldl_apply]

/-- A conjunction of one part and one of no parts, calls of one kind and of different kinds one
after another, and a value that spells an operator. -/
theorem groq_reads_left_to_right_mixed :
    let old := Predicate.compare "year" .less (.value (.ofNat 1990))
    let named := Predicate.compare "title" .equal (.value (.string "Heat && \"Dust\""))
    let listed := Predicate.compare "genre" .elementOf (.parameter "genres")
    let base := Predicate.all [old]
    let combinations := [and (.any [named, listed]), and listed, or (.all []), or named, .not,
      and (.defined "slug.current" false)]
    (combinations.foldl apply base).groq =
        "!((year < 1990 && (title == \"Heat && \\\"Dust\\\"\" || genre in $genres) && " ++
          "genre in $genres) || true || title == \"Heat && \\\"Dust\\\"\") && " ++
          "!defined(slug.current)" ∧
      ∃ formula, Formula.ofText? (combinations.foldl apply base).groq = some formula ∧
        ∀ valuation, formula.holds valuation =
          combinations.foldl (truth valuation) (base.holds valuation) := by
  intro old named listed base combinations
  have hold : old.Readable := .compare .less rfl (.value (.number _))
  have hnamed : named.Readable := .compare .equal rfl (.value (.string _))
  have hlisted : listed.Readable := .compare .elementOf rfl (.parameter rfl)
  have hempty : ∀ part ∈ ([] : List Predicate), part.Readable := List.forall_mem_nil _
  refine ⟨by decide, groq_reads_left_to_right ?_ ?_⟩
  · exact .all (List.forall_mem_singleton.mpr hold)
  · simp only [combinations, List.forall_mem_cons]
    refine ⟨.and (.any ?_), .and hlisted, .or (.all hempty), .or hnamed, .not,
      .and (.defined false rfl), List.forall_mem_nil _⟩
    exact List.forall_mem_cons.mpr ⟨hnamed, List.forall_mem_singleton.mpr hlisted⟩

end Combination

end ShapeQuery
