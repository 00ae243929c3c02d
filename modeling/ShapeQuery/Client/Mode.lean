import ShapeQuery.Failure
import ShapeQuery.Reading.Record

/-!
# Modes

The mode says what a client does with a response that does not conform.  Modes
are named by words, which JSON spells exactly and other texts in letters of
either case.
-/

namespace ShapeQuery

/-- What becomes of a response that does not conform. -/
inductive Mode where
  /-- It is reported, and the fetch fails. -/
  | error
  /-- It is reported, and returned. -/
  | warn
  /-- It is returned. -/
  | silent
deriving DecidableEq, Repr

namespace Mode

def name : Mode → String
  | .error => "ERROR"
  | .warn => "WARN"
  | .silent => "SILENT"

/-- The modes by name. -/
def named : List (String × Mode) :=
  [("ERROR", .error), ("WARN", .warn), ("SILENT", .silent)]

/-- The mode of a name in ASCII letters of either case. -/
def ofText? (text : String) : Option Mode :=
  named.lookup (String.ofList (text.toList.map Char.toUpper))

def parse (text : String) : Except Failure Mode :=
  match ofText? text with
  | some mode => .ok mode
  | none => .error (.unknownMode text)

def reading : Reading Mode := Reading.choice named

/-- Every mode is read back from its name. -/
theorem ofText?_name (mode : Mode) : ofText? mode.name = some mode := by
  cases mode <;> decide

end Mode

end ShapeQuery
