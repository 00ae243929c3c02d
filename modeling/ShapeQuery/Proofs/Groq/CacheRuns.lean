import Mathlib.Data.Set.Insert
import ShapeQuery.Proofs.Groq.CompiledTexts
import ShapeQuery.Proofs.Schema.Content
import ShapeQuery.Schema.Derive

/-!
# Runs of a cache

A cache is read and filled in the middle of compiling a node, and entries are taken out
of it at any time between two compilations.  What is preserved throughout is that every
entry is the text of a known node of its identity.
-/

namespace ShapeQuery

/-- A node put together from known parts adds itself only. -/
theorem reached_insert_subset {nodes : Set Node} {node : Node}
    (hparts : ∀ part ∈ node.parts, part ∈ reached nodes) :
    reached (insert node nodes) ⊆ insert node (reached nodes) := by
  rintro other ⟨root, hroot, hreaches⟩
  rcases hroot with rfl | hroot
  · rcases hreaches.cases_head with rfl | ⟨part, hpart, hrest⟩
    · exact Set.mem_insert _ _
    · exact Set.mem_insert_of_mem _ (mem_reached_of_reaches (hparts part hpart) hrest)
  · exact Set.mem_insert_of_mem _ ⟨root, hroot, hreaches⟩

/-- Equal identities stand for equal content. -/
def Consistent (nodes : Set Node) : Prop :=
  ∀ node ∈ nodes, ∀ other ∈ nodes, node.id = other.id → node.content = other.content

/-- Every entry is the text of one of the nodes with its identity. -/
def Cache.Holds (cache : Cache) (nodes : Set Node) : Prop :=
  ∀ id text, cache.get? id = some text → ∃ node ∈ nodes, node.id = id ∧ text = node.groq

section Yields

variable {nodes : Set Node}

theorem Cache.Holds.insert {cache : Cache} (hcache : cache.Holds nodes) {node : Node}
    (hnode : node ∈ nodes) : (cache.insert node.id node.groq).Holds nodes := by
  intro id text hget
  rw [Cache.get?_insert] at hget
  split at hget
  · next hid =>
      obtain rfl := Option.some.inj hget
      exact ⟨node, hnode, (beq_iff_eq.mp hid).symm, rfl⟩
  · exact hcache id text hget

theorem Cache.Holds.erase {cache : Cache} (hcache : cache.Holds nodes) (id : Identity) :
    (cache.erase id).Holds nodes := by
  intro other text hget
  rw [Cache.get?_erase] at hget
  split at hget
  · exact absurd hget (by simp)
  · exact hcache other text hget

theorem Cache.holds_empty (nodes : Set Node) : Cache.empty.Holds nodes := by
  intro id text hget
  rw [Cache.get?_empty] at hget
  exact absurd hget (by simp)

/-- From every cache of texts of the nodes, the computation gives the value and leaves
such a cache behind. -/
def Cached.Yields {α : Type} (nodes : Set Node) (action : Cached α) (value : α) : Prop :=
  ∀ cache : Cache, cache.Holds nodes →
    (action.run cache).1 = value ∧ (action.run cache).2.Holds nodes

/-- Compiling a node by way of a cache of texts gives the text of the node. -/
theorem Node.yields_groq (hnodes : Consistent nodes) (node : Node)
    (hclosed : ∀ whole ∈ nodes, ∀ part ∈ whole.parts, part ∈ nodes) (hnode : node ∈ nodes) :
    Cached.Yields nodes node.groqCached node.groq := by
  refine node.gives_text ⟨hclosed, ?_, ?_, ?_⟩ hnode
  · intro cache hcache node hnode text hget
    obtain ⟨other, hother, hid, htext⟩ := hcache node.id text hget
    have hcontent := hnodes other hother node hnode hid
    exact htext.trans (Node.groq_eq_of_content_eq hcontent)
  · intro cache hcache node hnode hget
    exact node.groq_eq_assembled
  · intro cache hcache node hnode
    exact hcache.insert hnode

end Yields

/-- A cache at work, with the nodes at hand and the number of identities drawn so far. -/
structure CacheSession where
  nodes : Set Node
  drawn : ℕ
  cache : Cache

inductive CacheOperation where
  /-- A new node is derived from one at hand. -/
  | derive (node : Node) (derivation : Derivation)
  | compile (node : Node)
  | get (id : Identity)
  /-- The entry of an identity is taken out. -/
  | erase (id : Identity)
  | clear

inductive CacheAnswer where
  | derived (node : Node)
  | compiled (text : String)
  | held (text : Option String)
  | cleared

namespace CacheSession

variable {session : CacheSession}

def start (nodes : Set Node) (drawn : ℕ) : CacheSession := ⟨nodes, drawn, .empty⟩

def step (session : CacheSession) : CacheOperation → CacheAnswer × CacheSession
  | .derive node derivation =>
      let built := (node.derive derivation).run session.drawn
      (.derived built.1, { session with nodes := insert built.1 session.nodes, drawn := built.2 })
  | .compile node =>
      let result := session.cache.compile node
      (.compiled result.1, { session with cache := result.2 })
  | .get id => (.held (session.cache.get? id), session)
  | .erase id =>
      (.held (session.cache.get? id), { session with cache := session.cache.erase id })
  | .clear => (.cleared, { session with cache := .empty })

/-- Nodes are derived and compiled only if they are at hand, or part of one that is. -/
def Permits (session : CacheSession) : CacheOperation → Prop
  | .derive node _ => node ∈ reached session.nodes
  | .compile node => node ∈ reached session.nodes
  | _ => True

def PermitsAll (session : CacheSession) : List CacheOperation → Prop
  | [] => True
  | operation :: rest => session.Permits operation ∧ (session.step operation).2.PermitsAll rest

/-- A text that was held is the text of every node at hand with that identity, and there is one. -/
def IsTextOf (session : CacheSession) (id : Identity) (text : String) : Prop :=
  (∃ node ∈ reached session.nodes, node.id = id) ∧
    ∀ node ∈ reached session.nodes, node.id = id → text = node.groq

/-- The answer is the one that compiling without a cache calls for. -/
def Faithful (session : CacheSession) : CacheOperation → CacheAnswer → Prop
  | .compile node, answer => answer = .compiled node.groq
  | .get id, answer => ∃ held, answer = .held held ∧ ∀ text ∈ held, session.IsTextOf id text
  | .erase id, answer => ∃ held, answer = .held held ∧ ∀ text ∈ held, session.IsTextOf id text
  | .derive _ _, _ => True
  | .clear, _ => True

def AnswersAll (session : CacheSession) : List CacheOperation → Prop
  | [] => True
  | operation :: rest =>
      session.Faithful operation (session.step operation).1 ∧
        (session.step operation).2.AnswersAll rest

/-- The invariant of runs. -/
structure Coherent (session : CacheSession) : Prop where
  consistent : Consistent (reached session.nodes)
  /-- An identity drawn next is none of those in use. -/
  below : ∀ node ∈ reached session.nodes, node.id.serial < session.drawn
  holds : session.cache.Holds (reached session.nodes)

theorem Coherent.isTextOf (hsession : session.Coherent) {id : Identity} {text : String}
    (hget : session.cache.get? id = some text) : session.IsTextOf id text := by
  obtain ⟨node, hnode, hid, rfl⟩ := hsession.holds id text hget
  refine ⟨⟨node, hnode, hid⟩, fun other hother hother' => ?_⟩
  have hcontent := hsession.consistent node hnode other hother (hid.trans hother'.symm)
  exact Node.groq_eq_of_content_eq hcontent

/-- Compiling with a coherent cache gives the text of the node, and leaves such a cache. -/
theorem Coherent.compile (hsession : session.Coherent) {node : Node}
    (hnode : node ∈ reached session.nodes) :
    (session.cache.compile node).1 = node.groq ∧
      (session.cache.compile node).2.Holds (reached session.nodes) :=
  Node.yields_groq hsession.consistent node (fun _ hwhole _ hpart => parts_mem_reached hwhole hpart)
    hnode session.cache hsession.holds

/-- A new node over known parts, with the identity drawn next, keeps the invariant. -/
theorem Coherent.build (hsession : session.Coherent) {kind : Kind}
    (hparts : ∀ part ∈ (Node.mk ⟨session.drawn⟩ kind).parts, part ∈ reached session.nodes) :
    Coherent { session with
      nodes := insert (.mk ⟨session.drawn⟩ kind) session.nodes
      drawn := session.drawn + 1 } := by
  have hreached := reached_insert_subset hparts
  have hfresh : ∀ node ∈ reached session.nodes, node.id ≠ ⟨session.drawn⟩ := by
    rintro node hnode hid
    have hbelow := hsession.below node hnode
    rw [hid] at hbelow
    exact Nat.lt_irrefl _ hbelow
  constructor
  · intro node hnode other hother hid
    rcases hreached hnode with rfl | hnode <;> rcases hreached hother with rfl | hother
    · rfl
    · exact absurd hid.symm (hfresh other hother)
    · exact absurd hid (hfresh node hnode)
    · exact hsession.consistent node hnode other hother hid
  · intro node hnode
    rcases hreached hnode with rfl | hnode
    · exact Nat.lt_succ_self _
    · exact Nat.lt_succ_of_lt (hsession.below node hnode)
  · intro id text hget
    obtain ⟨node, hnode, hid, htext⟩ := hsession.holds id text hget
    exact ⟨node, reached_mono (Set.subset_insert _ _) hnode, hid, htext⟩

/-- A derived node has the parts of the old one. -/
theorem parts_patched (id id' : Identity) (kind : Kind) (patch : Patch) :
    (Node.mk id (kind.patched patch)).parts = (Node.mk id' kind).parts := by
  cases kind <;> rfl

/-- Deriving keeps the invariant, as a derived node has an identity that no other node has. -/
theorem Coherent.derive (hsession : session.Coherent) {node : Node} (derivation : Derivation)
    (hnode : node ∈ reached session.nodes) :
    (session.step (.derive node derivation)).2.Coherent := by
  refine hsession.build fun part hpart => ?_
  rw [parts_patched _ node.id] at hpart
  exact parts_mem_reached hnode hpart

/-- Every permitted operation answers faithfully and keeps the invariant. -/
theorem Coherent.step (hsession : session.Coherent) {operation : CacheOperation}
    (hoperation : session.Permits operation) :
    session.Faithful operation (session.step operation).1 ∧
      (session.step operation).2.Coherent := by
  cases operation with
  | derive node derivation => exact ⟨trivial, hsession.derive derivation hoperation⟩
  | compile node =>
      obtain ⟨htext, hholds⟩ := hsession.compile hoperation
      exact ⟨congrArg CacheAnswer.compiled htext, hsession.consistent, hsession.below, hholds⟩
  | get id => exact ⟨⟨_, rfl, fun text htext => hsession.isTextOf htext⟩, hsession⟩
  | erase id =>
      refine ⟨⟨_, rfl, fun text htext => hsession.isTextOf htext⟩, ?_⟩
      exact ⟨hsession.consistent, hsession.below, hsession.holds.erase id⟩
  | clear => exact ⟨trivial, hsession.consistent, hsession.below, Cache.holds_empty _⟩

/-- The invariant carries over from step to step, so every answer is faithful. -/
theorem Coherent.answersAll (hsession : session.Coherent) {operations : List CacheOperation}
    (hoperations : session.PermitsAll operations) : session.AnswersAll operations := by
  induction operations generalizing session with
  | nil => trivial
  | cons operation rest ih =>
      obtain ⟨hoperation, hrest⟩ := hoperations
      obtain ⟨hanswer, hnext⟩ := hsession.step hoperation
      exact ⟨hanswer, ih hnext hrest⟩

/-- Whatever is done with a cache that starts empty, compiling through it gives the text
that compiling without it gives, and what it holds is never anything else. -/
theorem answersAll_of_permitsAll {nodes : Set Node} {drawn : ℕ}
    (hconsistent : Consistent (reached nodes))
    (hdrawn : ∀ node ∈ reached nodes, node.id.serial < drawn)
    {operations : List CacheOperation} (hoperations : (start nodes drawn).PermitsAll operations) :
    (start nodes drawn).AnswersAll operations := by
  have hstart : (start nodes drawn).Coherent := ⟨hconsistent, hdrawn, Cache.holds_empty _⟩
  exact hstart.answersAll hoperations

/-- One attribute shared by two projections, one inside the other; the outer one is
derived while its text is held, and entries come and go. -/
theorem answersAll_shared_attribute :
    let name := Node.mk ⟨0⟩ (.leaf .string)
    let director := Node.mk ⟨1⟩ (.projection [("name", name)] .none)
    let movie := Node.mk ⟨2⟩ (.projection [("name", name), ("director", director)] .none)
    let spread := Node.mk ⟨3⟩ (movie.kind.patched Derivation.spread.toPatch)
    (start {movie} 3).AnswersAll
      [.compile movie, .derive movie .spread, .erase ⟨1⟩, .compile spread, .get ⟨2⟩, .get ⟨3⟩,
        .clear, .compile director, .get ⟨2⟩, .compile spread] := by
  intro name director movie spread
  have hreached : reached {movie} ⊆ {movie, director, name} := by
    refine reached_subset (by simp) ?_
    rintro whole (rfl | rfl | rfl) part hpart
    · rcases hpart with - | ⟨-, - | ⟨-, hpart⟩⟩
      · exact .inr (.inr rfl)
      · exact .inr (.inl rfl)
      · exact absurd hpart List.not_mem_nil
    · rcases hpart with - | ⟨-, hpart⟩
      · exact .inr (.inr rfl)
      · exact absurd hpart List.not_mem_nil
    · exact absurd hpart List.not_mem_nil
  apply answersAll_of_permitsAll
  · intro node hnode other hother hid
    rcases hreached hnode with rfl | rfl | rfl <;>
      rcases hreached hother with rfl | rfl | rfl <;>
        first
          | rfl
          | exact absurd hid (by decide)
  · intro node hnode
    rcases hreached hnode with rfl | rfl | rfl <;> decide
  · have hmovie : movie ∈ reached {movie} := subset_reached _ rfl
    have hboth : reached {movie} ⊆ reached (insert spread {movie}) :=
      reached_mono (Set.subset_insert _ _)
    have hspread : spread ∈ reached (insert spread {movie}) := subset_reached _ (.inl rfl)
    have hdirector : director ∈ reached (insert spread {movie}) :=
      parts_mem_reached (hboth hmovie) (.tail _ (.head _))
    exact ⟨hmovie, hmovie, trivial, hspread, trivial, trivial, trivial, hdirector, trivial,
      hspread, trivial⟩

end CacheSession

end ShapeQuery
