import ShapeQuery.Text.DecimalDigit

/-!
# Filter texts

A filter may be given as a bare condition, in brackets, or as a whole selection
that starts with a star.  These rules bring the spellings together.
-/

namespace ShapeQuery.Filter

/-- A filter without one leading star.  What is then empty is no filter. -/
def strip? (filter : String) : Option String :=
  let rest :=
    match filter.toList with
    | '*' :: rest => String.ofList rest
    | _ => filter
  if rest = "" then none else some rest

/-- A filter in brackets.  One that has a bracket already is taken as it is. -/
def bracketed (filter : String) : String :=
  if '[' ∈ filter.toList then filter else "[" ++ filter ++ "]"

/-- Whether a filter ends in an index: a bracketed run of decimal digits. -/
def endsInIndex (filter : String) : Bool :=
  match filter.toList.reverse with
  | ']' :: rest =>
      !(rest.takeWhile DecimalDigit.isDigit).isEmpty &&
        (rest.dropWhile DecimalDigit.isDigit).head? == some '['
  | _ => false

end ShapeQuery.Filter
