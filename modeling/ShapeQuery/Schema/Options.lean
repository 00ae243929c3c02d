import ShapeQuery.Text.Quoted

/-!
# Query options of schema nodes

What a node says about a query besides its data shape: which documents it keeps,
how it follows references, and under which condition a branch applies.
-/

namespace ShapeQuery

/-- A position among the results: one element, or the elements from `start` up to
but without `stop`. -/
inductive Slice where
  | index (position : Nat)
  | range (start stop : Nat)
deriving DecidableEq, Repr

def Slice.text : Slice → String
  | .index position => "[" ++ toString position ++ "]"
  | .range start stop => "[" ++ toString start ++ "..." ++ toString stop ++ "]"

/-- How a projection follows references before it projects. -/
inductive Expansion where
  /-- The current value is always dereferenced. -/
  | always
  /-- It is dereferenced when its type is the given one, and projected as it is
  otherwise. -/
  | ofType (discriminant : String)
deriving DecidableEq, Repr

/-- Expansion of the values whose type says that they are references. -/
def Expansion.reference : Expansion := .ofType "reference"

/-- Which of the values at hand are kept: those that pass the filter, and of them the slice. -/
structure Narrowing where
  filter : Option String
  slice : Option Slice
deriving DecidableEq, Repr

def Narrowing.none : Narrowing := ⟨Option.none, Option.none⟩

/-- The query options of a projection.  One that spreads also keeps all the
attributes it does not name. -/
structure ProjectionOptions extends Narrowing where
  expansion : Option Expansion
  spread : Bool
deriving DecidableEq, Repr

def ProjectionOptions.none : ProjectionOptions := ⟨Narrowing.none, Option.none, false⟩

inductive Guard where
  | when (condition : String)
  /-- The branch for values that no other branch takes. -/
  | otherwise
deriving DecidableEq, Repr

/-- The guard named by a text: one word stands for the fallback branch. -/
def Guard.ofText (text : String) : Guard :=
  if text = "default" then .otherwise else .when text

/-- The condition that the type attribute holds the given discriminant. -/
def Guard.ofType (discriminant : String) : Guard :=
  .when ("_type == " ++ Quoted.encode discriminant)

/-- New values for some of the options of a node. -/
structure Patch where
  filter : Option String
  slice : Option Slice
  expansion : Option Expansion
  spread : Option Bool
deriving DecidableEq, Repr

def Patch.none : Patch := ⟨Option.none, Option.none, Option.none, Option.none⟩

def Narrowing.patched (narrowing : Narrowing) (patch : Patch) : Narrowing :=
  ⟨patch.filter.or narrowing.filter, patch.slice.or narrowing.slice⟩

def ProjectionOptions.patched (options : ProjectionOptions) (patch : Patch) :
    ProjectionOptions :=
  ⟨options.toNarrowing.patched patch, patch.expansion.or options.expansion,
    patch.spread.getD options.spread⟩

end ShapeQuery
