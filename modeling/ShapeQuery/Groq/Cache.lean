import ShapeQuery.Assoc
import ShapeQuery.Groq.Assembly
import ShapeQuery.Schema.Node

/-!
# Remembered query text

A cache holds query text under the identities of nodes.  Compiling a node through
it takes what it holds as given, for the node and for every node below, and fills
in what is missing.
-/

namespace ShapeQuery

/-- Query text by identity. -/
structure Cache where
  entries : List (Identity × String)

namespace Cache

def empty : Cache := ⟨[]⟩

def get? (cache : Cache) (id : Identity) : Option String := cache.entries.lookup id

def insert (cache : Cache) (id : Identity) (text : String) : Cache :=
  ⟨Assoc.insert id text cache.entries⟩

def erase (cache : Cache) (id : Identity) : Cache := ⟨Assoc.erase id cache.entries⟩

def size (cache : Cache) : Nat := cache.entries.length

theorem get?_empty (id : Identity) : empty.get? id = none := rfl

/-- The text that was held last for an identity counts, and those of others stay. -/
theorem get?_insert (cache : Cache) (id : Identity) (text : String) (other : Identity) :
    (cache.insert id text).get? other = if other == id then some text else cache.get? other :=
  Assoc.lookup_insert id text cache.entries other

theorem get?_erase (cache : Cache) (id other : Identity) :
    (cache.erase id).get? other = if other == id then none else cache.get? other :=
  Assoc.lookup_erase id cache.entries other

end Cache

/-- A computation that reads and fills a cache. -/
abbrev Cached := StateM Cache

/-- The text held for an identity, or else the computed one, which is then held. -/
def Cached.remember (id : Identity) (compute : Cached String) : Cached String := do
  match (← get).get? id with
  | some text => return text
  | none =>
      let text ← compute
      modify (·.insert id text)
      return text

mutual

/-- The query text of a node, by way of a cache. -/
def Node.groqCached : Node → Cached String
  | .mk id kind => Cached.remember id kind.groqCached

def Kind.groqCached : Kind → Cached String
  | .leaf _ => return ""
  | .fragment text _ => return text
  | .nullable inner => inner.groqCached
  | .projection properties options =>
      return Groq.projection options (← fieldTextsCached properties)
  | .collection element narrowing =>
      return Groq.collection narrowing element.isStructured (← element.groqCached)
  | .select branches expansion =>
      return Groq.select expansion (← branchTextsCached branches)

def fieldTextsCached : List (String × Node) → Cached (List String)
  | [] => return []
  | (key, node) :: properties => do
      let text ← node.groqCached
      return Groq.field key text :: (← fieldTextsCached properties)

def branchTextsCached : List (Guard × Node) → Cached (List (Guard × String))
  | [] => return []
  | (guard, node) :: branches => do
      let text ← node.groqCached
      return (guard, text) :: (← branchTextsCached branches)

end

/-- The query text of a node and the cache filled on the way. -/
def Cache.compile (cache : Cache) (node : Node) : String × Cache :=
  node.groqCached.run cache

end ShapeQuery
