import ShapeQuery.Groq.Filter
import ShapeQuery.Schema.Options

/-!
# Assembling query text

How the text of a node is put together from the texts of its parts.  Nothing
here looks at nodes, so these rules serve whoever walks over them.
-/

namespace ShapeQuery.Groq

def braced (body : String) : String := "\x7b" ++ body ++ "\x7d"

/-- The field of a projection.  A value without text of its own is projected by
its bare key, one that starts with a brace or bracket follows the key directly,
and any other value stands behind the quoted key. -/
def field (key value : String) : String :=
  match value.toList with
  | [] => key
  | '\x7b' :: _ => key ++ value
  | '[' :: _ => key ++ value
  | _ => "\"" ++ key ++ "\":" ++ value

def expanded (body : String) : Option Expansion → String
  | none => body
  | some .always => braced ("...@->" ++ body)
  | some (.ofType discriminant) =>
      let type := Quoted.encode discriminant
      braced ("_type == " ++ type ++ " => @->" ++ body ++ ",_type != " ++ type ++ " => @" ++ body)

/-- The effective filter of a narrowing. -/
def filterOf (narrowing : Narrowing) : Option String :=
  narrowing.filter.bind Filter.strip?

def filterText (filter : Option String) : String :=
  (filter.map Filter.bracketed).getD ""

def sliceText (slice : Option Slice) : String :=
  (slice.map Slice.text).getD ""

/-- What stands before the elements of a collection.  Without filter and slice an
empty pair of brackets traverses the array. -/
def collectionHead (narrowing : Narrowing) : String :=
  let filter := filterOf narrowing
  filterText filter ++
    (if filter.isNone && narrowing.slice.isNone then "[]" else sliceText narrowing.slice)

/-- The text of a collection.  Structured elements that project anything also
project a key. -/
def collection (narrowing : Narrowing) (structured : Bool) (element : String) : String :=
  collectionHead narrowing ++
    (if structured = true ∧ element ≠ "" then braced ("_key,...@" ++ element) else element)

/-- What stands before the body of a projection.  A filter selects one document:
the one at the given position, or the first.  A filter that already ends in an
index needs no other. -/
def projectionHead (narrowing : Narrowing) : String :=
  match filterOf narrowing with
  | none => sliceText narrowing.slice
  | some filter =>
      Filter.bracketed filter ++
        (if Filter.endsInIndex filter then "" else (narrowing.slice.getD (.index 0)).text)

def projection (options : ProjectionOptions) (fields : List String) : String :=
  let parts := if options.spread then "..." :: fields else fields
  projectionHead options.toNarrowing ++ expanded (braced (",".intercalate parts)) options.expansion

/-- The body of a branch.  A value without text of its own is spread. -/
def branchBody (text : String) : String :=
  if text = "" then "..." else text

def guardedTexts (branches : List (Guard × String)) : List String :=
  branches.filterMap fun branch =>
    match branch.1 with
    | .when condition => some (condition ++ " => " ++ branchBody branch.2)
    | .otherwise => none

def fallbackTexts (branches : List (Guard × String)) : List String :=
  branches.filterMap fun branch =>
    match branch.1 with
    | .when _ => none
    | .otherwise => some (branchBody branch.2)

/-- The text of a union, given those of its branches.  The fallback comes last. -/
def select (expansion : Option Expansion) (branches : List (Guard × String)) : String :=
  let parts := guardedTexts branches ++ fallbackTexts branches
  expanded (braced ("...select(" ++ ",".intercalate parts ++ ")")) expansion

end ShapeQuery.Groq
