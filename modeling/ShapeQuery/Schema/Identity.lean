/-!
# Identities

Schema nodes carry an identity besides their content, so that text compiled for
a node can be remembered under it.  Identities are drawn from a supply that
never hands out the same one twice; a computation that builds nodes threads the
supply.
-/

namespace ShapeQuery

structure Identity where
  serial : Nat
deriving DecidableEq, Repr

/-- A computation that draws identities.  Its state is the number of identities
drawn so far, which is the serial of the next one. -/
abbrev Build := StateM Nat

def Identity.fresh : Build Identity :=
  modifyGet fun drawn => (⟨drawn⟩, drawn + 1)

end ShapeQuery
