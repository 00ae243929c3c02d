import ShapeQuery.Proofs.Groq.SeededCache

/-!
# What a cache grows by

Compiling stops at every node for which a text is held, and writes the texts of all other nodes on
the way.  Some of these texts are held only since an earlier visit, and nothing below such a node is
visited again; but then everything below it was visited the first time.  So the cache grows by the
nodes that can be reached without passing one for which the cache held a text at the start.
-/

namespace ShapeQuery

/-- A node that is reached from a root through parts, where nothing is held for the root, for the
node and for what lies between them. -/
inductive Cache.Visits (seed : Cache) (root : Node) : Node → Prop where
  | root : seed.get? root.id = none → seed.Visits root root
  | part {whole part : Node} :
      seed.Visits root whole → part ∈ whole.parts → seed.get? part.id = none →
      seed.Visits root part

variable {seed cache : Cache} {nodes : Set Node} {roots added more : List Node}
  {root node part : Node} {id : Identity}

namespace Cache.Visits

theorem root_missing (hvisits : seed.Visits root node) : seed.get? root.id = none := by
  induction hvisits with
  | root hmissing => exact hmissing
  | part _ _ _ ih => exact ih

/-- Nothing is held for a node that is visited. -/
theorem missing (hvisits : seed.Visits root node) : seed.get? node.id = none := by
  cases hvisits with
  | root hmissing => exact hmissing
  | part _ _ hmissing => exact hmissing

theorem trans {other : Node} (hvisits : seed.Visits root node) (hrest : seed.Visits node other) :
    seed.Visits root other := by
  induction hrest with
  | root _ => exact hvisits
  | part _ hpart hmissing ih => exact .part ih hpart hmissing

/-- Visits stay among nodes that have all their parts among them. -/
theorem mem_of_closed (hclosed : ∀ whole ∈ nodes, ∀ part ∈ whole.parts, part ∈ nodes)
    (hroot : root ∈ nodes) (hvisits : seed.Visits root node) : node ∈ nodes := by
  induction hvisits with
  | root _ => exact hroot
  | part _ hpart _ ih => exact hclosed _ ih _ hpart

/-- From a node for which nothing is held, the node itself is visited and what is visited from its
parts. -/
theorem iff_of_missing (hmissing : seed.get? root.id = none) :
    seed.Visits root node ↔ node = root ∨ ∃ part ∈ root.parts, seed.Visits part node := by
  constructor
  · intro hvisits
    induction hvisits with
    | root _ => exact .inl rfl
    | part _ hpart hpartMissing ih =>
        rcases ih with rfl | ⟨first, hfirst, hvisits⟩
        · exact .inr ⟨_, hpart, .root hpartMissing⟩
        · exact .inr ⟨first, hfirst, .part hvisits hpart hpartMissing⟩
  · rintro (rfl | ⟨first, hfirst, hvisits⟩)
    · exact .root hmissing
    · have hstep : seed.Visits root first := .part (.root hmissing) hfirst hvisits.root_missing
      exact hstep.trans hvisits

end Cache.Visits

/-- Some node with the identity is visited from one of the roots. -/
def Cache.VisitsId (seed : Cache) (roots : List Node) (id : Identity) : Prop :=
  ∃ root ∈ roots, ∃ node, seed.Visits root node ∧ node.id = id

/-- Besides what the seed holds, there are texts for the nodes that are visited from the roots, and
for no other identity. -/
def Cache.GrownBy (seed : Cache) (roots : List Node) (cache : Cache) : Prop :=
  ∀ id, cache.get? id ≠ none ↔ seed.get? id ≠ none ∨ seed.VisitsId roots id

theorem Cache.grownBy_nil (seed : Cache) : seed.GrownBy [] seed := by
  intro id
  simp [VisitsId]

/-- Whatever a cache has grown by, the computation lets it grow by the nodes that are visited from
some more roots. -/
def Cached.Grows {α : Type} (seed : Cache) (nodes : Set Node) (action : Cached α)
    (added : List Node) : Prop :=
  ∀ cache roots, (∀ root ∈ roots, root ∈ nodes) → seed.GrownBy roots cache →
    seed.GrownBy (roots ++ added) (action.run cache).2

namespace Cached

variable {α β : Type}

theorem grows_pure (value : α) : Grows seed nodes (pure value) [] := by
  intro cache roots hroots hcache
  rw [List.append_nil]
  exact hcache

/-- One computation behind another lets the cache grow by the visits of both. -/
theorem Grows.bind {action : Cached α} {next : α → Cached β} (hadded : ∀ root ∈ added, root ∈ nodes)
    (haction : Grows seed nodes action added) (hnext : ∀ value, Grows seed nodes (next value) more) :
    Grows seed nodes (action >>= next) (added ++ more) := by
  intro cache roots hroots hcache
  have hboth : ∀ root ∈ roots ++ added, root ∈ nodes := fun root hroot =>
    (List.mem_append.mp hroot).elim (hroots root) (hadded root)
  rw [← List.append_assoc]
  exact hnext _ _ _ hboth (haction cache roots hroots hcache)

/-- What is done with a result does not let the cache grow. -/
theorem Grows.map {action : Cached α} (haction : Grows seed nodes action added) (f : α → β) :
    Grows seed nodes (action >>= fun value => pure (f value)) added := by
  intro cache roots hroots hcache
  exact haction cache roots hroots hcache

end Cached

theorem grows_fieldTexts {properties : List (String × Node)}
    (hnodes : ∀ property ∈ properties, property.2 ∈ nodes)
    (hproperties : ∀ property ∈ properties,
      Cached.Grows seed nodes property.2.groqCached [property.2]) :
    Cached.Grows seed nodes (fieldTextsCached properties) (properties.map Prod.snd) := by
  induction properties with
  | nil => exact Cached.grows_pure []
  | cons property rest ih =>
      obtain ⟨hnode, hnodes⟩ := List.forall_mem_cons.mp hnodes
      obtain ⟨hproperty, hrest⟩ := List.forall_mem_cons.mp hproperties
      exact hproperty.bind (List.forall_mem_singleton.mpr hnode)
        fun text => (ih hnodes hrest).map _

theorem grows_branchTexts {branches : List (Guard × Node)}
    (hnodes : ∀ branch ∈ branches, branch.2 ∈ nodes)
    (hbranches : ∀ branch ∈ branches, Cached.Grows seed nodes branch.2.groqCached [branch.2]) :
    Cached.Grows seed nodes (branchTextsCached branches) (branches.map Prod.snd) := by
  induction branches with
  | nil => exact Cached.grows_pure []
  | cons branch rest ih =>
      obtain ⟨hnode, hnodes⟩ := List.forall_mem_cons.mp hnodes
      obtain ⟨hbranch, hrest⟩ := List.forall_mem_cons.mp hbranches
      exact hbranch.bind (List.forall_mem_singleton.mpr hnode)
        fun text => (ih hnodes hrest).map _

/-- What is computed for a node lets the cache grow by what is visited from its parts. -/
theorem Node.grows_parts (hnodes : ∀ part ∈ node.parts, part ∈ nodes)
    (hparts : ∀ part ∈ node.parts, Cached.Grows seed nodes part.groqCached [part]) :
    Cached.Grows seed nodes node.kind.groqCached node.parts := by
  obtain ⟨id, kind⟩ := node
  cases kind with
  | leaf shape => exact Cached.grows_pure _
  | fragment text schema => exact Cached.grows_pure _
  | nullable inner => exact hparts inner List.mem_cons_self
  | projection properties options =>
      have hfields := grows_fieldTexts (List.forall_mem_map.mp hnodes) (List.forall_mem_map.mp hparts)
      exact hfields.map _
  | collection element narrowing => exact (hparts element List.mem_cons_self).map _
  | select branches expansion =>
      have htexts := grows_branchTexts (List.forall_mem_map.mp hnodes) (List.forall_mem_map.mp hparts)
      exact htexts.map _

/-! ## One node -/

theorem Cache.visitsId_append : seed.VisitsId (roots ++ added) id ↔
    seed.VisitsId roots id ∨ seed.VisitsId added id := by
  simp only [VisitsId, List.mem_append, or_and_right, exists_or]

/-- Where nothing is held for a root, it is visited, and then its parts are. -/
theorem Cache.visitsId_singleton_of_missing (hmissing : seed.get? node.id = none) :
    seed.VisitsId [node] id ↔ id = node.id ∨ seed.VisitsId node.parts id := by
  simp only [VisitsId, List.mem_singleton, exists_eq_left, Visits.iff_of_missing hmissing]
  constructor
  · rintro ⟨other, rfl | ⟨part, hpart, hvisits⟩, rfl⟩
    · exact .inl rfl
    · exact .inr ⟨part, hpart, other, hvisits, rfl⟩
  · rintro (rfl | ⟨part, hpart, other, hvisits, rfl⟩)
    · exact ⟨node, .inl rfl, rfl⟩
    · exact ⟨other, .inr ⟨part, hpart, hvisits⟩, rfl⟩

/-- A node that is found needs no visit: either the seed holds a text for it, or it was visited
before together with all that is visited from it. -/
theorem Cache.GrownBy.hit (hnodes : Determined nodes)
    (hclosed : ∀ whole ∈ nodes, ∀ part ∈ whole.parts, part ∈ nodes)
    (hroots : ∀ root ∈ roots, root ∈ nodes) (hnode : node ∈ nodes)
    (hcache : seed.GrownBy roots cache) (hheld : cache.get? node.id ≠ none) :
    seed.GrownBy (roots ++ [node]) cache := by
  have hvisited : ∀ other, seed.Visits node other → seed.VisitsId roots other.id := by
    intro other hvisits
    have hmissing := hvisits.root_missing
    rcases (hcache node.id).mp hheld with hseed | ⟨root, hroot, same, hsame, hid⟩
    · exact absurd hmissing hseed
    · obtain rfl := hnodes same (hsame.mem_of_closed hclosed (hroots root hroot)) node hnode hid
      exact ⟨root, hroot, other, hsame.trans hvisits, rfl⟩
  intro id
  rw [hcache id, visitsId_append]
  constructor
  · exact Or.imp_right .inl
  · rintro (hseed | hroots | ⟨root, hroot, other, hvisits, rfl⟩)
    · exact .inl hseed
    · exact .inr hroots
    · obtain rfl := List.mem_singleton.mp hroot
      exact .inr (hvisited other hvisits)

/-- A node that is not found is written once its parts have been visited. -/
theorem Cache.GrownBy.write (hmissing : seed.get? node.id = none) (text : String)
    (hcache : seed.GrownBy (roots ++ node.parts) cache) :
    seed.GrownBy (roots ++ [node]) (cache.insert node.id text) := by
  intro id
  have hwritten : (cache.insert node.id text).get? id ≠ none ↔
      id = node.id ∨ cache.get? id ≠ none := by
    rw [get?_insert]
    by_cases hid : id = node.id
    · simp [hid]
    · simp [hid]
  rw [hwritten, hcache id, visitsId_append, visitsId_append, visitsId_singleton_of_missing hmissing]
  tauto

/-- Compiling a node lets the cache grow by what is visited from it. -/
theorem Node.grows_groqCached (hnodes : Determined nodes)
    (hclosed : ∀ whole ∈ nodes, ∀ part ∈ whole.parts, part ∈ nodes) (node : Node)
    (hnode : node ∈ nodes) : Cached.Grows seed nodes node.groqCached [node] := by
  induction node using Node.induction_parts with
  | step node ih =>
      have hparts := hclosed node hnode
      have hgrows : Cached.Grows seed nodes node.kind.groqCached node.parts :=
        Node.grows_parts hparts fun part hpart => ih part hpart (hparts part hpart)
      intro cache roots hroots hcache
      rw [node.groqCached_eq_remember]
      cases hget : cache.get? node.id with
      | some text =>
          rw [Cached.run_remember_of_held hget]
          exact hcache.hit hnodes hclosed hroots hnode (by simp [hget])
      | none =>
          have hmissing : seed.get? node.id = none := by
            by_contra hheld
            exact (hcache node.id).mpr (.inl hheld) hget
          rw [Cached.run_remember_of_missing hget]
          exact (hgrows cache roots hroots hcache).write hmissing _

namespace Cache

/-- What is compiled is held from then on. -/
theorem get?_compile (cache : Cache) (node : Node) :
    (cache.compile node).2.get? node.id = some (cache.compile node).1 := by
  rw [compile, node.groqCached_eq_remember]
  cases hget : cache.get? node.id with
  | some text =>
      rw [Cached.run_remember_of_held hget]
      exact hget
  | none =>
      rw [Cached.run_remember_of_missing hget, get?_insert, beq_self_eq_true]
      rfl

/-- A text that is held for the root is all that is looked at. -/
theorem compile_of_held {text : String} (hheld : cache.get? node.id = some text) :
    cache.compile node = (text, cache) := by
  rw [compile, node.groqCached_eq_remember, Cached.run_remember_of_held hheld]

/-- Compiling leaves all that a cache holds as it is, and adds the nodes that are visited, each with
the text that compiling it from the same cache gives.  Nothing else is added, and compiling once
more gives the same text and adds nothing. -/
theorem compile_grows_by_visits (seed : Cache) {node : Node}
    (hnode : Determined (reached {node})) :
    let filled := (seed.compile node).2
    (∀ id text, seed.get? id = some text → filled.get? id = some text) ∧
      (∀ other, seed.Visits node other →
        seed.get? other.id = none ∧ filled.get? other.id = some (seed.compile other).1) ∧
      (∀ id, seed.get? id = none → filled.get? id ≠ none →
        ∃ other, seed.Visits node other ∧ other.id = id) ∧
      filled.compile node = ((seed.compile node).1, filled) := by
  intro filled
  have hclosed : ∀ whole ∈ reached {node}, ∀ part ∈ whole.parts, part ∈ reached {node} :=
    fun _ hwhole _ hpart => parts_mem_reached hwhole hpart
  have hself : node ∈ reached {node} := subset_reached _ rfl
  have hserves := serves_filledFrom seed hnode hclosed
  have hgives (other : Node) (hother : other ∈ reached {node}) :=
    other.gives_text hserves hother seed (.start seed _)
  have hfilled : FilledFrom seed (reached {node}) filled := (hgives node hself).2
  have hgrown : seed.GrownBy [node] filled :=
    Node.grows_groqCached hnode hclosed node hself seed [] (List.forall_mem_nil _) seed.grownBy_nil
  refine ⟨hfilled.kept, ?_, ?_, ?_⟩
  · intro other hvisits
    have hother := hvisits.mem_of_closed hclosed hself
    have hheld : filled.get? other.id ≠ none :=
      (hgrown other.id).mpr (.inr ⟨node, List.mem_singleton_self node, other, hvisits, rfl⟩)
    obtain ⟨text, htext⟩ := Option.ne_none_iff_exists'.mp hheld
    refine ⟨hvisits.missing, ?_⟩
    rw [htext, hfilled.right other hother text htext]
    exact congrArg some (hgives other hother).1.symm
  · intro id hmissing hheld
    rcases (hgrown id).mp hheld with hseed | ⟨root, hroot, other, hvisits, hid⟩
    · exact absurd hmissing hseed
    · obtain rfl := List.mem_singleton.mp hroot
      exact ⟨other, hvisits, hid⟩
  · exact compile_of_held (seed.get?_compile node)

/-- A text is held for a person, so that the name inside is not visited, nor is what the data shape
of the tags is made of.  The votes are visited twice, and by way of the movie only. -/
theorem compile_grows_by_visits_shared_votes :
    let up := Node.mk ⟨0⟩ (.leaf .number)
    let votes := Node.mk ⟨1⟩ (.projection [("up", up)] .none)
    let name := Node.mk ⟨2⟩ (.nullable (.mk ⟨3⟩ (.leaf .string)))
    let person := Node.mk ⟨4⟩ (.projection [("name", name), ("votes", votes)] .none)
    let cast := Node.mk ⟨5⟩ (.collection person .none)
    let tags := Node.mk ⟨6⟩ (.leaf (.array (.mk ⟨7⟩ (.leaf .string))))
    let rating := Node.mk ⟨8⟩ (.nullable votes)
    let movie := Node.mk ⟨9⟩
      (.projection [("cast", cast), ("rating", rating), ("votes", votes), ("tags", tags)] .none)
    let seed := empty.insert ⟨4⟩ "name"
    let filled := (seed.compile movie).2
    (Determined (reached {movie}) ∧ seed.Visits movie votes) ∧
      filled.get? ⟨1⟩ = some (seed.compile votes).1 ∧ filled.get? ⟨4⟩ = some "name" ∧
      filled.get? ⟨2⟩ = none ∧ filled.get? ⟨7⟩ = none ∧
      filled.compile movie = ((seed.compile movie).1, filled) := by
  intro up votes name person cast tags rating movie seed filled
  have hreached : reached {movie} ⊆ { node | node ∈
      [movie, tags, rating, cast, person, name, .mk ⟨3⟩ (.leaf .string), votes, up] } := by
    apply reached_subset
    · exact Set.singleton_subset_iff.mpr List.mem_cons_self
    · simp [Node.parts, Node.kind, movie, tags, rating, cast, person, name, votes, up]
  have hmovie : Determined (reached {movie}) := fun node hnode other hother hid =>
    List.inj_on_of_nodup_map (by decide) (hreached hnode) (hreached hother) hid
  have hvotes : seed.Visits movie votes :=
    .part (.root rfl) (.tail _ (.tail _ (.head _))) rfl
  obtain ⟨hkept, hadded, -, hagain⟩ := seed.compile_grows_by_visits hmovie
  exact ⟨⟨hmovie, hvotes⟩, (hadded votes hvotes).2, hkept _ _ rfl, by decide, by decide, hagain⟩

end Cache

end ShapeQuery
