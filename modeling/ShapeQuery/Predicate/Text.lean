import ShapeQuery.Json.Text
import ShapeQuery.Predicate.Basic

/-!
# The text of a predicate

Negation puts its part in parentheses.  Conjunctions and disjunctions only put
those parts in parentheses that join two or more conditions themselves, since
shorter ones leave no operator in the text.
-/

namespace ShapeQuery

def Comparison.symbol : Comparison → String
  | .equal => "=="
  | .notEqual => "!="
  | .greater => ">"
  | .greaterOrEqual => ">="
  | .less => "<"
  | .lessOrEqual => "<="
  | .like => "match"
  | .elementOf => "in"
  | .contains => "in"

def Operand.text : Operand → String
  | .value literal => literal.text
  | .parameter name => "$" ++ name

/-- The text of a comparison.  Only containment has the attribute on the right. -/
def Comparison.text (comparison : Comparison) (field : String) (operand : Operand) : String :=
  match comparison with
  | .contains => operand.text ++ " " ++ comparison.symbol ++ " " ++ field
  | _ => field ++ " " ++ comparison.symbol ++ " " ++ operand.text

namespace Predicate

/-- Whether the text has an operator between parts. -/
def joinsParts : Predicate → Bool
  | .all parts => 1 < parts.length
  | .any parts => 1 < parts.length
  | _ => false

/-- Joins the texts of parts; without parts there is the neutral text. -/
def joined (operator neutral : String) (parts : List String) : String :=
  if parts.isEmpty then neutral else (" " ++ operator ++ " ").intercalate parts

mutual

def groq : Predicate → String
  | .all parts => joined "&&" "true" (partTexts parts)
  | .any parts => joined "||" "false" (partTexts parts)
  | .not part => "!(" ++ part.groq ++ ")"
  | .defined field true => "defined(" ++ field ++ ")"
  | .defined field false => "!defined(" ++ field ++ ")"
  | .compare field comparison operand => comparison.text field operand
  | .verbatim text => text

def partTexts : List Predicate → List String
  | [] => []
  | part :: parts =>
      (if part.joinsParts then "(" ++ part.groq ++ ")" else part.groq) :: partTexts parts

end

theorem partTexts_eq_map (parts : List Predicate) :
    partTexts parts =
      parts.map fun part => if part.joinsParts then "(" ++ part.groq ++ ")" else part.groq := by
  induction parts with
  | nil => rfl
  | cons part rest ih => rw [partTexts, ih, List.map_cons]

end Predicate

end ShapeQuery
