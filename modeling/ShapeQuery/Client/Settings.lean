import ShapeQuery.Client.Mode

/-!
# Settings

What can be set about a client, and how it is written as JSON.
-/

namespace ShapeQuery

structure Settings where
  mode : Mode
deriving DecidableEq, Repr

namespace Settings

/-- The settings of a client that is given none. -/
def standard : Settings := ⟨.error⟩

def toJson (settings : Settings) : Json :=
  .object [("validationMode", .string settings.mode.name)]

/-- Reads settings; a mode that is not given is the standard one. -/
def reading : Reading Settings := fun value => do
  let parts ←
    Reading.record "struct ClientOptions" [⟨"validationMode", Mode.reading, .defaulted⟩] value
  return ⟨(parts.lookup "validationMode").getD standard.mode⟩

/-- Settings read back from the object that they are written as. -/
theorem reading_toJson (settings : Settings) : reading settings.toJson = .ok settings := by
  obtain ⟨mode⟩ := settings
  cases mode <;> rfl

end Settings

end ShapeQuery
