import ShapeQuery.Proofs.Groq.Framing
import ShapeQuery.Proofs.Predicate.Structured
import ShapeQuery.Proofs.Schema.Induction
import ShapeQuery.Proofs.Schema.Owners
import ShapeQuery.Query.Basic

/-!
# Well-bracketed queries

The text of a node or a query is put together from pieces that are written by hand and from
quoted strings, numbers and brackets.  It is well-bracketed if the pieces are, whatever the
quoted strings hold: no discriminant, expansion type or operand can break out of its place.
-/

namespace ShapeQuery

open Brackets (IsOrdinary wellBracketed_iff_passes)

/-- A guard whose condition is well-bracketed, or a test of the type for any discriminant. -/
inductive Guard.SoundlyWritten : Guard → Prop where
  | when {condition : String} : WellBracketed condition → SoundlyWritten (.when condition)
  | ofType (discriminant : String) : SoundlyWritten (.ofType discriminant)
  | otherwise : SoundlyWritten .otherwise

def Narrowing.SoundlyWritten (narrowing : Narrowing) : Prop :=
  ∀ filter ∈ narrowing.filter, WellBracketed filter

/-- A node of which all hand-written filters, conditions and fragments are well-bracketed, and
whose keys hold no quotes, backslashes and brackets. -/
inductive Node.SoundlyWritten : Node → Prop where
  | leaf (id : Identity) (shape : Shape) : SoundlyWritten (.mk id (.leaf shape))
  | fragment (id : Identity) {text : String} (schema : Node) :
      WellBracketed text → SoundlyWritten (.mk id (.fragment text schema))
  | nullable (id : Identity) {inner : Node} :
      SoundlyWritten inner → SoundlyWritten (.mk id (.nullable inner))
  | projection (id : Identity) {properties : List (String × Node)} {options : ProjectionOptions} :
      options.toNarrowing.SoundlyWritten →
      (∀ property ∈ properties, ∀ c ∈ property.1.toList, IsOrdinary c) →
      (∀ property ∈ properties, SoundlyWritten property.2) →
      SoundlyWritten (.mk id (.projection properties options))
  | collection (id : Identity) {element : Node} {narrowing : Narrowing} :
      narrowing.SoundlyWritten → SoundlyWritten element →
      SoundlyWritten (.mk id (.collection element narrowing))
  | select (id : Identity) {branches : List (Guard × Node)} (expansion : Option Expansion) :
      (∀ branch ∈ branches, branch.1.SoundlyWritten) →
      (∀ branch ∈ branches, SoundlyWritten branch.2) →
      SoundlyWritten (.mk id (.select branches expansion))

inductive Source.SoundlyWritten : Source → Prop where
  | node {schema : Node} : schema.SoundlyWritten → SoundlyWritten (.node schema)
  | query {arity : Arity} {composed : Query arity} :
      (∀ condition ∈ composed.conditions, condition.SoundlyWritten) →
      composed.schema.SoundlyWritten → SoundlyWritten (.query composed)

/-- The text of a source, which for a node may be empty. -/
def Source.text : Source → String
  | .node schema => schema.groq
  | .query composed => composed.groq

/-! ## Narrowings -/

namespace Groq

theorem passes_sliceDigits (slice : Option Slice) : Brackets.Passes (sliceDigits slice) := by
  refine Brackets.passes_ordinary fun c hc => ?_
  rcases mem_sliceDigits hc with hdigit | rfl
  · exact isOrdinary_of_isDigit hdigit
  · decide

theorem wellBracketed_slice (slice : Slice) : WellBracketed slice.text := by
  have hletters : slice.text.toList = bracketed (some slice) := toList_sliceText slice
  rw [wellBracketed_iff_passes, hletters]
  exact (passes_sliceDigits (some slice)).enclosed rfl

theorem wellBracketed_sliceText (slice : Option Slice) : WellBracketed (sliceText slice) := by
  cases slice with
  | none => decide
  | some slice => exact wellBracketed_slice slice

/-- The star that is dropped is no bracket. -/
theorem wellBracketed_strip? {filter stripped : String} (hfilter : WellBracketed filter)
    (hstripped : Filter.strip? filter = some stripped) : WellBracketed stripped := by
  simp only [Filter.strip?] at hstripped
  split at hstripped
  · next rest hletters =>
      -- The star is an ordinary character, so it may also be missing.
      have hrest : WellBracketed (String.ofList rest) := by
        rw [wellBracketed_iff_passes] at hfilter ⊢
        rw [hletters] at hfilter
        rw [String.toList_ofList]
        exact hfilter
      split_ifs at hstripped
      obtain rfl := Option.some.inj hstripped
      exact hrest
  · split_ifs at hstripped
    obtain rfl := Option.some.inj hstripped
    exact hfilter

theorem wellBracketed_filterOf {narrowing : Narrowing} {filter : String}
    (hnarrowing : narrowing.SoundlyWritten) (hfilter : filterOf narrowing = some filter) :
    WellBracketed filter := by
  obtain ⟨written, hwritten, hstripped⟩ := Option.bind_eq_some_iff.mp hfilter
  exact wellBracketed_strip? (hnarrowing written hwritten) hstripped

/-- A filter is put in brackets or left as it is. -/
theorem wellBracketed_bracketed {filter : String} (hfilter : WellBracketed filter) :
    WellBracketed (Filter.bracketed filter) := by
  unfold Filter.bracketed
  split
  · exact hfilter
  · exact hfilter.bracketed

theorem wellBracketed_collectionHead {narrowing : Narrowing}
    (hnarrowing : narrowing.SoundlyWritten) : WellBracketed (collectionHead narrowing) := by
  refine WellBracketed.append ?_ ?_
  · cases hfilter : filterOf narrowing with
    | none => decide
    | some filter => exact wellBracketed_bracketed (wellBracketed_filterOf hnarrowing hfilter)
  · split
    · decide
    · exact wellBracketed_sliceText narrowing.slice

theorem wellBracketed_projectionHead {narrowing : Narrowing}
    (hnarrowing : narrowing.SoundlyWritten) : WellBracketed (projectionHead narrowing) := by
  unfold projectionHead
  cases hfilter : filterOf narrowing with
  | none => exact wellBracketed_sliceText narrowing.slice
  | some filter =>
      refine (wellBracketed_bracketed (wellBracketed_filterOf hnarrowing hfilter)).append ?_
      split
      · decide
      · exact wellBracketed_slice _

/-! ## Assembled texts -/

theorem wellBracketed_expanded {body : String} (hbody : WellBracketed body)
    (expansion : Option Expansion) : WellBracketed (expanded body expansion) := by
  match expansion with
  | none => exact hbody
  | some .always => exact (WellBracketed.append (by decide) hbody).braced
  | some (.ofType discriminant) =>
      have htype := wellBracketed_quoted discriminant
      have hequal : WellBracketed "_type == " := by decide
      have hfollow : WellBracketed " => @->" := by decide
      have hunequal : WellBracketed ",_type != " := by decide
      have hkeep : WellBracketed " => @" := by decide
      have hresolved := ((hequal.append htype).append hfollow).append hbody
      have hinline := ((hresolved.append hunequal).append htype).append hkeep
      exact (hinline.append hbody).braced

/-- Keys are quoted or bare, and hold no brackets either way. -/
theorem wellBracketed_field {key value : String} (hkey : ∀ c ∈ key.toList, IsOrdinary c)
    (hvalue : WellBracketed value) : WellBracketed (field key value) := by
  have hbare := wellBracketed_ordinary hkey
  unfold field
  split
  · exact hbare
  · exact hbare.append hvalue
  · exact hbare.append hvalue
  · have hcolon : WellBracketed ":" := by decide
    have hquoted := (wellBracketed_between_quotes hkey).append hcolon
    have htext : "\"" ++ key ++ "\":" = "\"" ++ key ++ "\"" ++ ":" :=
      String.toList_inj.mp (by simp)
    rw [htext]
    exact hquoted.append hvalue

/-- A projection is well-bracketed if its filter and its fields are. -/
theorem wellBracketed_projection {options : ProjectionOptions} {fields : List String}
    (hnarrowing : options.toNarrowing.SoundlyWritten)
    (hfields : ∀ field ∈ fields, WellBracketed field) :
    WellBracketed (projection options fields) := by
  have hparts : ∀ part ∈ (if options.spread then "..." :: fields else fields),
      WellBracketed part := by
    split
    · exact List.forall_mem_cons.mpr ⟨by decide, hfields⟩
    · exact hfields
  have hcomma : WellBracketed "," := by decide
  have hbody := (wellBracketed_intercalate hcomma hparts).braced
  exact (wellBracketed_projectionHead hnarrowing).append
    (wellBracketed_expanded hbody options.expansion)

theorem wellBracketed_collection {narrowing : Narrowing} (structured : Bool) {element : String}
    (hnarrowing : narrowing.SoundlyWritten) (helement : WellBracketed element) :
    WellBracketed (collection narrowing structured element) := by
  refine (wellBracketed_collectionHead hnarrowing).append ?_
  split
  · exact (WellBracketed.append (by decide) helement).braced
  · exact helement

theorem wellBracketed_branchBody {text : String} (htext : WellBracketed text) :
    WellBracketed (branchBody text) := by
  unfold branchBody
  split
  · decide
  · exact htext

theorem wellBracketed_condition {guard : Guard} {condition : String}
    (hguard : guard.SoundlyWritten) (hcondition : guard = .when condition) :
    WellBracketed condition := by
  cases hguard with
  | when hwritten =>
      obtain rfl := Guard.when.inj hcondition
      exact hwritten
  | ofType discriminant =>
      obtain rfl := Guard.when.inj hcondition
      exact WellBracketed.append (by decide) (wellBracketed_quoted discriminant)
  | otherwise => cases hcondition

section Branches

variable {branches : List (Guard × String)}

theorem wellBracketed_guardedTexts (hguards : ∀ branch ∈ branches, branch.1.SoundlyWritten)
    (htexts : ∀ branch ∈ branches, WellBracketed branch.2) :
    ∀ part ∈ guardedTexts branches, WellBracketed part := by
  intro part hpart
  obtain ⟨⟨guard, text⟩, hbranch, heq⟩ := List.mem_filterMap.mp hpart
  cases guard with
  | when condition =>
      obtain rfl := Option.some.inj heq
      have hcondition := wellBracketed_condition (hguards _ hbranch) rfl
      have hbody := wellBracketed_branchBody (htexts _ hbranch)
      exact (hcondition.append (by decide)).append hbody
  | otherwise => cases heq

theorem wellBracketed_fallbackTexts (htexts : ∀ branch ∈ branches, WellBracketed branch.2) :
    ∀ part ∈ fallbackTexts branches, WellBracketed part := by
  intro part hpart
  obtain ⟨⟨guard, text⟩, hbranch, heq⟩ := List.mem_filterMap.mp hpart
  cases guard with
  | when condition => cases heq
  | otherwise =>
      obtain rfl := Option.some.inj heq
      exact wellBracketed_branchBody (htexts _ hbranch)

theorem wellBracketed_select (expansion : Option Expansion)
    (hguards : ∀ branch ∈ branches, branch.1.SoundlyWritten)
    (htexts : ∀ branch ∈ branches, WellBracketed branch.2) :
    WellBracketed (select expansion branches) := by
  let parts := guardedTexts branches ++ fallbackTexts branches
  have hparts : ∀ part ∈ parts, WellBracketed part :=
    List.forall_mem_append.mpr
      ⟨wellBracketed_guardedTexts hguards htexts, wellBracketed_fallbackTexts htexts⟩
  have hcomma : WellBracketed "," := by decide
  have hselect : WellBracketed ("...select" ++ ("(" ++ ",".intercalate parts ++ ")")) :=
    WellBracketed.append (by decide) (wellBracketed_intercalate hcomma hparts).parenthesized
  have hbody : "...select(" ++ ",".intercalate parts ++ ")" =
      "...select" ++ ("(" ++ ",".intercalate parts ++ ")") := String.toList_inj.mp (by simp)
  have htext := wellBracketed_expanded hselect.braced expansion
  rwa [← hbody] at htext

end Branches

end Groq

/-! ## Nodes -/

namespace Node

/-- The text of a node is well-bracketed if all that is written by hand is. -/
theorem SoundlyWritten.wellBracketed_groq {node : Node} (hnode : node.SoundlyWritten) :
    WellBracketed node.groq := by
  induction node using Node.induction with
  | leaf id shape ih => exact (by decide : WellBracketed "")
  | fragment id text schema ih =>
      cases hnode with
      | fragment _ _ htext => exact htext
  | nullable id inner ih =>
      cases hnode with
      | nullable _ hinner => exact ih hinner
  | projection id properties options ih =>
      cases hnode with
      | projection _ hnarrowing hkeys hvalues =>
          refine Groq.wellBracketed_projection hnarrowing fun text htext => ?_
          rw [fieldTexts_eq_map] at htext
          obtain ⟨property, hproperty, rfl⟩ := List.mem_map.mp htext
          exact Groq.wellBracketed_field (hkeys property hproperty)
            (ih property hproperty (hvalues property hproperty))
  | collection id element narrowing ih =>
      cases hnode with
      | collection _ hnarrowing helement =>
          exact Groq.wellBracketed_collection _ hnarrowing (ih helement)
  | select id branches expansion ih =>
      cases hnode with
      | select _ _ hguards hbranches =>
          refine Groq.wellBracketed_select expansion (fun text htext => ?_) fun text htext => ?_
          · rw [branchTexts_eq_map] at htext
            obtain ⟨branch, hbranch, rfl⟩ := List.mem_map.mp htext
            exact hguards branch hbranch
          · rw [branchTexts_eq_map] at htext
            obtain ⟨branch, hbranch, rfl⟩ := List.mem_map.mp htext
            exact ih branch hbranch (hbranches branch hbranch)

theorem soundlyWritten_unknownVariant (drawn : Nat) :
    (unknownVariant.run drawn).1.SoundlyWritten := by
  have hrawPath : isPath "_rawType".toList = true := by decide
  have htypePath : isPath "_type".toList = true := by decide
  refine .projection _ nofun ?_ ?_
  · intro property hproperty
    rcases List.mem_cons.mp hproperty with rfl | hproperty
    · exact isOrdinary_of_mem_path hrawPath
    · rw [List.mem_singleton.mp hproperty]
      exact isOrdinary_of_mem_path htypePath
  · intro property hproperty
    rcases List.mem_cons.mp hproperty with rfl | hproperty
    · exact .fragment _ _ (by decide)
    · rw [List.mem_singleton.mp hproperty]
      exact .fragment _ _ (wellBracketed_quoted "unknown")

/-- In a typed union nothing but the variants is written by hand, whatever the discriminants. -/
theorem soundlyWritten_typedUnion {variants : List Variant} (expansion : Option Expansion)
    (hvariants : ∀ variant ∈ variants, variant.node.SoundlyWritten) (drawn : Nat) :
    ((typedUnion variants expansion).run drawn).1.SoundlyWritten := by
  obtain ⟨id, hunion⟩ := exists_typedUnion_eq variants expansion drawn
  rw [hunion]
  apply SoundlyWritten.select
  · refine List.forall_mem_cons.mpr ⟨.otherwise, fun branch hbranch => ?_⟩
    obtain ⟨variant, -, rfl⟩ := List.mem_map.mp hbranch
    exact .ofType variant.discriminant
  · refine List.forall_mem_cons.mpr ⟨soundlyWritten_unknownVariant drawn, fun branch hbranch => ?_⟩
    obtain ⟨variant, hvariant, rfl⟩ := List.mem_map.mp hbranch
    exact hvariants variant (Variant.mem_of_mem_owners hvariant)

end Node

/-! ## Queries -/

namespace Query

variable {arity : Arity}

theorem wellBracketed_sliceText (slice : Option Slice) : WellBracketed (sliceText slice) := by
  cases slice with
  | none => decide
  | some slice => exact Groq.wellBracketed_slice slice

theorem wellBracketed_conditionTexts {conditions : List Predicate}
    (hconditions : ∀ condition ∈ conditions, condition.SoundlyWritten) :
    WellBracketed (String.join (conditions.map conditionText)) := by
  induction conditions with
  | nil => decide
  | cons condition rest ih =>
      obtain ⟨hcondition, hrest⟩ := List.forall_mem_cons.mp hconditions
      rw [List.map_cons, String.join_cons]
      exact hcondition.wellBracketed_groq.bracketed.append (ih hrest)

/-- Between the conditions, the slice and the schema nothing is left open. -/
theorem wellBracketed_groq {query : Query arity}
    (hconditions : ∀ condition ∈ query.conditions, condition.SoundlyWritten)
    (hschema : query.schema.SoundlyWritten) : WellBracketed query.groq := by
  have hstar : WellBracketed "*" := by decide
  have hhead := (hstar.append (wellBracketed_conditionTexts hconditions)).append
    (wellBracketed_sliceText query.slice)
  exact hhead.append hschema.wellBracketed_groq

end Query

namespace Source

/-- The text of a node or query is well-bracketed if the pieces of it that are written by hand
are, and so is what is sent. -/
theorem wellBracketed_of_soundlyWritten {source : Source} (hsource : source.SoundlyWritten) :
    WellBracketed source.text ∧ ∀ query ∈ source.groq?, WellBracketed query := by
  cases hsource with
  | @node schema hschema =>
      have htext := hschema.wellBracketed_groq
      refine ⟨htext, fun query hquery => ?_⟩
      simp only [groq?] at hquery
      split_ifs at hquery with hempty
      · cases hquery
      · obtain rfl := Option.some.inj hquery
        exact WellBracketed.append (by decide) htext
  | query hconditions hschema =>
      have htext := Query.wellBracketed_groq hconditions hschema
      refine ⟨htext, fun query hquery => ?_⟩
      obtain rfl := Option.some.inj hquery
      exact htext

/-- Closers in an operand, a discriminant, a type of references and a filter. -/
theorem wellBracketed_closers_in_texts :
    let title := Node.mk ⟨0⟩ (.leaf .string)
    let person := Node.mk ⟨1⟩ (.projection [("title", title)]
      ⟨⟨some "*[length(title) > 3][0]", none⟩, some (.ofType "\"\x7d,\\"), true⟩)
    let union := ((Node.typedUnion [⟨"\") => ]", person⟩] (some (.ofType "]\""))).run 2).1
    let composed : Query .many :=
      ⟨union, some (.range 0 3), [.compare "title" .equal (.value (.string "\"] | (\\"))]⟩
    WellBracketed composed.groq := by
  intro title person union composed
  have hperson : person.SoundlyWritten := by
    refine .projection _ ?_ ?_ ?_
    · intro filter hfilter
      obtain rfl := Option.some.inj hfilter
      exact (by decide : WellBracketed "*[length(title) > 3][0]")
    · intro property hproperty
      rw [List.mem_singleton.mp hproperty]
      exact isOrdinary_of_mem_path (by decide : isPath "title".toList = true)
    · intro property hproperty
      rw [List.mem_singleton.mp hproperty]
      exact .leaf _ _
  have hunion : union.SoundlyWritten := by
    refine Node.soundlyWritten_typedUnion _ (fun variant hvariant => ?_) 2
    rw [List.mem_singleton.mp hvariant]
    exact hperson
  have hcondition : ∀ condition ∈ composed.conditions, condition.SoundlyWritten := by
    intro condition hcondition
    rw [List.mem_singleton.mp hcondition]
    exact .compare .equal (by decide) (.value _)
  exact (wellBracketed_of_soundlyWritten (.query hcondition hunion)).1

end Source

end ShapeQuery
