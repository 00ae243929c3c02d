import ShapeQuery.Json.Basic

/-!
# Predicates

Conditions on documents, as trees.  A comparison relates an attribute to a JSON
value or to a parameter that is bound when the query is sent.
-/

namespace ShapeQuery

/-- How an attribute is compared with an operand. -/
inductive Comparison where
  | equal
  | notEqual
  | greater
  | greaterOrEqual
  | less
  | lessOrEqual
  /-- The attribute matches the pattern that the operand holds. -/
  | like
  /-- The attribute is an element of the operand. -/
  | elementOf
  /-- The operand is an element of the attribute. -/
  | contains
deriving DecidableEq, Repr

/-- What an attribute is compared with. -/
inductive Operand where
  | value (literal : Json)
  | parameter (name : String)
deriving Repr

inductive Predicate where
  /-- Every one of the parts holds. -/
  | all (parts : List Predicate)
  /-- At least one of the parts holds. -/
  | any (parts : List Predicate)
  | not (part : Predicate)
  /-- The attribute is present, or absent where `present` is false. -/
  | defined (field : String) (present : Bool)
  | compare (field : String) (comparison : Comparison) (operand : Operand)
  /-- A condition that is already text. -/
  | verbatim (text : String)
deriving Repr

def Operand.same : Operand → Operand → Bool
  | .value literal, .value literal' => literal.same literal'
  | .parameter name, .parameter name' => name == name'
  | _, _ => false

namespace Predicate

def typeIs (discriminant : String) : Predicate :=
  .compare "_type" .equal (.value (.string discriminant))

/-- Both conditions hold.  A conjunction takes the other condition as one more part. -/
def and (predicate other : Predicate) : Predicate :=
  match predicate with
  | .all parts => .all (parts ++ [other])
  | _ => .all [predicate, other]

/-- One of the conditions holds.  A disjunction takes the other condition as one more part. -/
def or (predicate other : Predicate) : Predicate :=
  match predicate with
  | .any parts => .any (parts ++ [other])
  | _ => .any [predicate, other]

mutual

/-- Equality of predicates, with operands compared as values. -/
def same : Predicate → Predicate → Bool
  | .all parts, .all parts' => sameParts parts parts'
  | .any parts, .any parts' => sameParts parts parts'
  | .not part, .not part' => part.same part'
  | .defined field present, .defined field' present' => field == field' && present == present'
  | .compare field comparison operand, .compare field' comparison' operand' =>
      field == field' && comparison == comparison' && operand.same operand'
  | .verbatim text, .verbatim text' => text == text'
  | _, _ => false

def sameParts : List Predicate → List Predicate → Bool
  | [], [] => true
  | part :: parts, part' :: parts' => part.same part' && sameParts parts parts'
  | _, _ => false

end

end Predicate

end ShapeQuery
