import ShapeQuery.Failure
import ShapeQuery.Transport.Param

/-!
# Transports

A transport answers a query and its parameters, and may keep a state in which it
does so.
-/

namespace ShapeQuery

/-- How queries are answered, in a state of type `σ`. -/
abbrev Transport (σ : Type) := String → Option Params → StateM σ (Except Failure Json)

structure Request where
  query : String
  params : Option Params
deriving DecidableEq, Repr

end ShapeQuery
