import ShapeQuery.Reading.Fault
import ShapeQuery.Validation.Issue

/-!
# Failures

What can go wrong between a source and its result.
-/

namespace ShapeQuery

/-- Why there is no result. -/
inductive Failure where
  /-- A value cannot be read at its type. -/
  | unreadable (message : String)
  /-- The transport has no response. -/
  | transport (message : String)
  /-- The source compiles to nothing, so there is nothing to send. -/
  | missingQuery
  | unknownMode (name : String)
  /-- The response does not conform. -/
  | invalid (issues : List Issue)
deriving DecidableEq, Repr

namespace Failure

def message : Failure → String
  | .unreadable message => "Serialization error: " ++ message
  | .transport message => "Fetch error: " ++ message
  | .missingQuery =>
      "The provided schema does not have a GROQ string. " ++
        "Check that you have used an appropriate schema."
  | .unknownMode name => "Unknown validation mode: " ++ name
  | .invalid _ => "GROQ response did not match expected schema."

def issues : Failure → List Issue
  | .invalid issues => issues
  | _ => []

def ofFault (fault : Fault) : Failure := .unreadable fault.mismatch.message

end Failure

end ShapeQuery
