import ShapeQuery.Proofs.Predicate.Scanner

/-!
# Formulas

What a reader makes of the text of a condition.  A conjunction or disjunction that was
written without an operator has left no trace, so formulas that are read join at least two
parts each, and the neutral words stand for themselves.  A test of any other kind is an atom,
which is no more than its tokens.
-/

namespace ShapeQuery

open Formula (Token)

/-- The meaning of the text of a condition. -/
inductive Formula where
  | constant (truth : Bool)
  | all (parts : List Formula)
  | any (parts : List Formula)
  | not (part : Formula)
  | defined (field : String) (present : Bool)
  | compare (field : String) (comparison : Comparison) (operand : Operand)
  | atom (tokens : List Token)

/-- Which attributes are present, and which comparisons and other tests hold. -/
structure Valuation where
  defined : String → Bool
  compare : String → Comparison → Operand → Bool
  atom : List Token → Bool

namespace Formula

mutual

def holds (valuation : Valuation) : Formula → Bool
  | .constant truth => truth
  | .all parts => allHold valuation parts
  | .any parts => anyHolds valuation parts
  | .not part => !part.holds valuation
  | .defined field present => valuation.defined field == present
  | .compare field comparison operand => valuation.compare field comparison operand
  | .atom tokens => valuation.atom tokens

def allHold (valuation : Valuation) : List Formula → Bool
  | [] => true
  | formula :: formulas => formula.holds valuation && allHold valuation formulas

def anyHolds (valuation : Valuation) : List Formula → Bool
  | [] => false
  | formula :: formulas => formula.holds valuation || anyHolds valuation formulas

end

/-- The conjunction of formulas, of which one stands for itself. -/
def allOf : List Formula → Formula
  | [] => .constant true
  | [formula] => formula
  | formulas => .all formulas

/-- The disjunction of formulas, of which one stands for itself. -/
def anyOf : List Formula → Formula
  | [] => .constant false
  | [formula] => formula
  | formulas => .any formulas

/-- A conjunction is true if its parts are, also where one part stands for itself. -/
theorem holds_allOf (valuation : Valuation) (formulas : List Formula) :
    (allOf formulas).holds valuation = allHold valuation formulas := by
  match formulas with
  | [] => rfl
  | [formula] => simp [allOf, allHold]
  | first :: second :: rest => rfl

theorem holds_anyOf (valuation : Valuation) (formulas : List Formula) :
    (anyOf formulas).holds valuation = anyHolds valuation formulas := by
  match formulas with
  | [] => rfl
  | [formula] => simp [anyOf, anyHolds]
  | first :: second :: rest => rfl

end Formula

end ShapeQuery
