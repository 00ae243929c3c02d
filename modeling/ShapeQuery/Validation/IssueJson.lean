import ShapeQuery.Reading.Record
import ShapeQuery.Validation.Issue

/-!
# Issues as JSON

Issues are written as objects of two strings, and read back from them.  A fault
in reading a value at a type is an issue too.
-/

namespace ShapeQuery

namespace Issue

def toJson (issue : Issue) : Json :=
  .object [("path", .string issue.path), ("message", .string issue.message)]

def reading : Reading Issue := fun value => do
  let fields := [.required "path" Reading.text, .required "message" Reading.text]
  let parts ← Reading.record "struct ValidationIssue" fields value
  return ⟨(parts.lookup "path").getD "", (parts.lookup "message").getD ""⟩

/-- The issue of a value that cannot be read at a type. -/
def ofFault (fault : Fault) : Issue := ⟨Step.pathText fault.path, fault.mismatch.message⟩

/-- Issues are read back from their JSON objects. -/
theorem reading_toJson (issue : Issue) : reading issue.toJson = .ok issue := rfl

end Issue

end ShapeQuery
