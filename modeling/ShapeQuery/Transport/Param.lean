import ShapeQuery.Json.Text
import ShapeQuery.Reading.Basic

/-!
# Query parameters

Parameters are bound to the names that predicates refer to when a query is sent.
Their values are strings, numbers or null.
-/

namespace ShapeQuery

inductive Param where
  | text (value : String)
  | number (value : Number)
  | null
deriving DecidableEq, Repr

abbrev Params := List (String × Param)

namespace Param

/-- The parameter of a double, or of something that is no finite one and becomes null. -/
def ofFloat? : Option Binary64 → Param
  | some x => .number (.float x)
  | none => .null

def toJson : Param → Json
  | .text value => .string value
  | .number value => .number value
  | .null => .null

def reading : Reading Param
  | .string value => .ok (.text value)
  | .number value => .ok (.number value)
  | .null => .ok .null
  | _ => .error (.here (.noAlternative "Param"))

def logText : Param → String
  | .text value => "String(" ++ LogQuoted.encode value ++ ")"
  | .number value => "Number(Number(" ++ value.text ++ "))"
  | .null => "Null"

/-- Parameters are read back from their JSON values. -/
theorem reading_toJson (param : Param) : reading param.toJson = .ok param := by
  cases param <;> rfl

end Param

namespace Params

/-- Parameters written one after another: a name keeps its first position and its last value. -/
def ofList (entries : List (String × Param)) : Params := Assoc.ofList entries

def toJson (params : Params) : Json :=
  .object (params.map fun param => (param.1, param.2.toJson))

def reading : Reading Params := Reading.mapping Param.reading

def logText (params : Params) : String :=
  let entries := params.map fun param => LogQuoted.encode param.1 ++ ": " ++ param.2.logText
  "\x7b" ++ ", ".intercalate entries ++ "\x7d"

end Params

end ShapeQuery
