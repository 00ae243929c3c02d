import ShapeQuery.Transport.Basic

/-!
# Log events

A client reports what it sends and receives, and every response that it finds to
be wrong.
-/

namespace ShapeQuery

inductive Level where
  | debug
  | warn
  | error
deriving DecidableEq, Repr

def Level.name : Level → String
  | .debug => "DEBUG"
  | .warn => "WARN"
  | .error => "ERROR"

inductive Event where
  | sending (query : String) (params : Option Params)
  | received (response : Json)
  /-- The response does not conform, and the fetch fails. -/
  | invalid (issues : List Issue)
  /-- The response does not conform, and is returned all the same. -/
  | tolerated (issues : List Issue)
  /-- The response cannot be read at the wanted type. -/
  | unreadable (issues : List Issue)

def Issue.logText (issue : Issue) : String :=
  "ValidationIssue \x7b path: " ++ LogQuoted.encode issue.path ++ ", message: " ++
    LogQuoted.encode issue.message ++ " \x7d"

namespace Event

def level : Event → Level
  | .sending _ _ => .debug
  | .received _ => .debug
  | .invalid _ => .error
  | .tolerated _ => .warn
  | .unreadable _ => .error

def message : Event → String
  | .sending _ _ => "Sending GROQ query"
  | .received _ => "Received GROQ response"
  | .invalid _ => "GROQ response failed validation."
  | .tolerated _ => "GROQ response failed validation (\"WARN\" mode)."
  | .unreadable _ => "GROQ response could not be deserialized."

def paramsText : Option Params → String
  | none => "None"
  | some params => "Some(" ++ params.logText ++ ")"

def issuesText (issues : List Issue) : String :=
  "[" ++ ", ".intercalate (issues.map Issue.logText) ++ "]"

/-- The details of an event, with their names. -/
def fields : Event → List (String × String)
  | .sending query params => [("query", query), ("params", paramsText params)]
  | .received response => [("response", response.text)]
  | .invalid issues => [("errors", issuesText issues)]
  | .tolerated issues => [("errors", issuesText issues)]
  | .unreadable issues => [("errors", issuesText issues)]

end Event

end ShapeQuery
