/-!
# Issues

An issue says where a response differs from its schema, and how.  The place is a
JSON pointer: the empty text for the whole response, and a slash before every
further segment.
-/

namespace ShapeQuery

/-- The text of a key inside a pointer. -/
def Pointer.escape (key : String) : String :=
  String.ofList (key.toList.flatMap fun c =>
    if c = '~' then ['~', '0'] else if c = '/' then ['~', '1'] else [c])

def Pointer.child (parent key : String) : String :=
  parent ++ "/" ++ Pointer.escape key

/-- One mismatch between a value and its schema. -/
structure Issue where
  path : String
  message : String
deriving DecidableEq, Repr

def Issue.display (issue : Issue) : String :=
  (if issue.path = "" then "/" else issue.path) ++ ": " ++ issue.message

end ShapeQuery
