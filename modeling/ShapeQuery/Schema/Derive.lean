import ShapeQuery.Schema.Build

/-!
# Deriving nodes

A derivation gives some of a node's options new values.  The node itself stays as
it was; the result is a new node.  Options that a kind of node does not have are
ignored.
-/

namespace ShapeQuery

def Kind.patched (kind : Kind) (patch : Patch) : Kind :=
  match kind with
  | .projection properties options => .projection properties (options.patched patch)
  | .collection element narrowing => .collection element (narrowing.patched patch)
  | .select branches expansion => .select branches (patch.expansion.or expansion)
  | .leaf shape => .leaf shape
  | .fragment text schema => .fragment text schema
  | .nullable inner => .nullable inner

inductive Derivation where
  | filter (condition : String)
  | slice (position : Slice)
  | expand (expansion : Expansion)
  | dereference
  | spread
  | patch (values : Patch)
deriving DecidableEq, Repr

def Derivation.toPatch : Derivation → Patch
  | .filter condition => { Patch.none with filter := some condition }
  | .slice position => { Patch.none with slice := some position }
  | .expand expansion => { Patch.none with expansion := some expansion }
  | .dereference => { Patch.none with expansion := some .always }
  | .spread => { Patch.none with spread := some true }
  | .patch values => values

def Node.derive (node : Node) (derivation : Derivation) : Build Node :=
  Node.fresh (node.kind.patched derivation.toPatch)

def Node.deriveAll (node : Node) (derivations : List Derivation) : Build Node :=
  derivations.foldlM Node.derive node

end ShapeQuery
