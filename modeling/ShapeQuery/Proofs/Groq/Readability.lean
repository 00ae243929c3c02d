import ShapeQuery.Proofs.Groq.BodyFraming

/-!
# Unique readability

The text of a regular node determines its skeleton.  Texts stand side by side in longer
texts, so more is shown: where the texts of two skeletons begin the same text, and each is
followed by nothing or by a comma or a closing bracket, the skeletons are the same.
-/

namespace ShapeQuery

open Groq (bracketed expandedText IsBody)

namespace Skeleton

variable {rest rest' : List Char}

/-! ## Elements of collections -/

theorem elementText_structured {element : Skeleton} (helement : element.Regular)
    (hstructured : element.isStructured = true) :
    elementText element =
      '\x7b' :: ("_key,.".toList ++ ("..@".toList ++ (element.groq.toList ++ ['\x7d']))) := by
  apply if_pos
  refine ⟨hstructured, ?_⟩
  intro hempty
  rcases helement.opening with rfl | ⟨inner, hinner⟩ | ⟨inner, hinner⟩
  · exact absurd hstructured (by decide)
  · simp [hempty] at hinner
  · simp [hempty] at hinner

theorem elementText_unstructured {element : Skeleton} (hstructured : element.isStructured = false) :
    elementText element = element.groq.toList := by
  apply if_neg
  rw [hstructured]
  exact fun hboth => absurd hboth.1 (by decide)

/-- An element that is not put in braces does not open with one. -/
theorem Regular.append_ne_brace {element : Skeleton} (helement : element.Regular)
    (hstructured : element.isStructured = false) (hrest : Follows rest) (inner : List Char) :
    element.groq.toList ++ rest ≠ '\x7b' :: inner := by
  cases helement with
  | leaf => exact hrest.ne_cons (by decide) inner
  | projection hfilter hkeys hvalues => simp [isStructured] at hstructured
  | collection hfilter helement =>
      rw [toList_collection hfilter]
      simp [bracketed]
  | union expansion hguards hprojections hbranches => simp [isStructured] at hstructured

/-- What stands behind the brackets of a sliced projection is no element of a collection. -/
theorem expandedText_ne_elementText {body : List Char} (hbody : IsBody body)
    (expansion : Option Expansion) {element : Skeleton} (helement : element.Regular)
    (hrest' : Follows rest') :
    expandedText body expansion ++ rest ≠ elementText element ++ rest' := by
  intro heq
  cases hstructured : element.isStructured with
  | true =>
      rw [elementText_structured helement hstructured] at heq
      simp only [List.cons_append, List.append_assoc] at heq
      exact Groq.expandedText_ne_keyed hbody expansion _ _ heq
  | false =>
      obtain ⟨inner, hinner⟩ := Groq.expandedText_opening hbody.opening expansion
      rw [elementText_unstructured hstructured, hinner] at heq
      exact helement.append_ne_brace hstructured hrest' _ heq.symm

/-- An element is read in one way only, whether it projects a key or not. -/
theorem elementText_append_inj {element element' : Skeleton} (helement : element.Regular)
    (helement' : element'.Regular) (hunique : element.ReadsUniquely) (hrest : Follows rest)
    (hrest' : Follows rest')
    (heq : elementText element ++ rest = elementText element' ++ rest') :
    element = element' ∧ rest = rest' := by
  cases hstructured : element.isStructured with
  | true =>
      rw [elementText_structured helement hstructured] at heq
      cases hstructured' : element'.isStructured with
      | true =>
          rw [elementText_structured helement' hstructured'] at heq
          simp only [List.cons_append, List.append_assoc, List.cons.injEq, true_and] at heq
          have htexts := List.append_cancel_left (List.append_cancel_left heq)
          obtain ⟨hsame, hafter⟩ := hunique element' _ _ helement' (follows_cons (by decide) _)
            (follows_cons (by decide) _) htexts
          exact ⟨hsame, (List.cons.inj hafter).2⟩
      | false =>
          rw [elementText_unstructured hstructured'] at heq
          exact absurd heq.symm (helement'.append_ne_brace hstructured' hrest' _)
  | false =>
      rw [elementText_unstructured hstructured] at heq
      cases hstructured' : element'.isStructured with
      | true =>
          rw [elementText_structured helement' hstructured'] at heq
          exact absurd heq (helement.append_ne_brace hstructured hrest _)
      | false =>
          rw [elementText_unstructured hstructured'] at heq
          exact hunique element' rest rest' helement' hrest hrest' heq

/-- An optional slice before a body is told from the brackets of a collection. -/
theorem sliceText_append_ne_bracketed {slice slice' : Option Slice} {body : List Char}
    (hbody : IsBody body) (expansion : Option Expansion) {element : Skeleton}
    (helement : element.Regular) (hrest' : Follows rest') :
    (Groq.sliceText slice).toList ++ (expandedText body expansion ++ rest) ≠
      bracketed slice' ++ (elementText element ++ rest') := by
  intro heq
  cases slice with
  | none =>
      obtain ⟨inner, hinner⟩ := Groq.expandedText_opening hbody.opening expansion
      rw [hinner] at heq
      simp [Groq.sliceText, bracketed] at heq
  | some slice =>
      rw [Groq.toList_sliceText] at heq
      obtain ⟨-, hafter⟩ := Groq.bracketed_append_inj heq
      exact expandedText_ne_elementText hbody expansion helement hrest' hafter

/-- Brackets end before the body, so slice and body are told apart. -/
theorem sliceText_append_inj {slice slice' : Option Slice} {body body' : List Char}
    (hbody : IsBody body) (hbody' : IsBody body') {expansion expansion' : Option Expansion}
    (heq : (Groq.sliceText slice).toList ++ (expandedText body expansion ++ rest) =
      (Groq.sliceText slice').toList ++ (expandedText body' expansion' ++ rest')) :
    slice = slice' ∧
      expandedText body expansion ++ rest = expandedText body' expansion' ++ rest' := by
  obtain ⟨inner, hinner⟩ := Groq.expandedText_opening hbody.opening expansion
  obtain ⟨inner', hinner'⟩ := Groq.expandedText_opening hbody'.opening expansion'
  match slice, slice' with
  | none, none => exact ⟨rfl, heq⟩
  | none, some slice' =>
      rw [hinner, Groq.toList_sliceText] at heq
      simp [Groq.sliceText, bracketed] at heq
  | some slice, none =>
      rw [hinner', Groq.toList_sliceText] at heq
      simp [Groq.sliceText, bracketed] at heq
  | some slice, some slice' =>
      rw [Groq.toList_sliceText, Groq.toList_sliceText] at heq
      exact Groq.bracketed_append_inj heq

/-- Only a leaf has no text, so all else differs from what may follow a node. -/
theorem Regular.append_ne_follows {skeleton : Skeleton} (hskeleton : skeleton.Regular)
    (hleaf : skeleton ≠ .leaf) (hrest' : Follows rest') :
    skeleton.groq.toList ++ rest ≠ rest' := by
  rcases hskeleton.opening with heq | ⟨inner, hinner⟩ | ⟨inner, hinner⟩
  · exact absurd heq hleaf
  · rw [hinner]
    exact (hrest'.ne_cons (by decide) _).symm
  · rw [hinner]
    exact (hrest'.ne_cons (by decide) _).symm

/-! ## Pairs of skeletons -/

section Pairs

variable {fields fields' : List (String × Skeleton)} {options options' : ProjectionOptions}
  {element element' : Skeleton} {narrowing narrowing' : Narrowing}
  {branches branches' : List (Guard × Skeleton)} {expansion expansion' : Option Expansion}

theorem Regular.isField (hprojection : (Skeleton.projection fields options).Regular) :
    ∀ field ∈ fields, IsField field := by
  cases hprojection with
  | projection hfilter hkeys hvalues =>
      exact fun field hfield => ⟨hkeys field hfield, hvalues field hfield⟩

theorem Regular.filter_eq_none (hprojection : (Skeleton.projection fields options).Regular) :
    options.filter = none := by
  cases hprojection with
  | projection hfilter hkeys hvalues => exact hfilter

/-- The text of a typed union is its body with the expansion around it. -/
theorem Regular.exists_unionBody (hselect : (select branches expansion).Regular) :
    ∃ guarded, branches = (.otherwise, unknownVariant) :: guarded ∧
      (∀ branch ∈ guarded, IsBranch branch) ∧
        (select branches expansion).groq.toList = expandedText (unionBody guarded) expansion := by
  cases hselect with
  | union _ hguards hprojections hbranches =>
      refine ⟨_, rfl, fun branch hmem => ⟨hguards branch hmem, hbranches branch hmem⟩, ?_⟩
      exact toList_typedUnion expansion hguards hprojections

/-- Equal texts that begin with projections begin with the same one. -/
theorem projection_append_inj (hprojection : (projection fields options).Regular)
    (hprojection' : (projection fields' options').Regular)
    (hunique : ∀ field ∈ fields, field.2.Regular → field.2.ReadsUniquely)
    (heq : (projection fields options).groq.toList ++ rest =
      (projection fields' options').groq.toList ++ rest') :
    projection fields options = projection fields' options' ∧ rest = rest' := by
  have hfilter := hprojection.filter_eq_none
  have hfilter' := hprojection'.filter_eq_none
  have hbody := isBody_projectionBody options.spread hprojection.isField
  have hbody' := isBody_projectionBody options'.spread hprojection'.isField
  rw [toList_projection hfilter, toList_projection hfilter', List.append_assoc,
    List.append_assoc] at heq
  obtain ⟨hslice, hexpanded⟩ := sliceText_append_inj hbody hbody' heq
  obtain ⟨hexpansion, more, more', hbodies, hend⟩ :=
    Groq.expandedText_append_inj hbody hbody' hexpanded
  obtain ⟨hspread, rfl, hmore⟩ :=
    projectionBody_append_inj hprojection.isField hprojection'.isField hunique hbodies
  obtain ⟨⟨filter, slice⟩, expansion, spread⟩ := options
  obtain ⟨⟨filter', slice'⟩, expansion', spread'⟩ := options'
  simp only at hfilter hfilter' hslice hexpansion hspread hend
  subst hfilter hfilter' hslice hexpansion hspread
  exact ⟨rfl, hend rfl hmore⟩

/-- No projection is read as a collection. -/
theorem projection_append_ne_collection (hprojection : (projection fields options).Regular)
    (hcollection : (collection element narrowing).Regular) (hrest' : Follows rest') :
    (projection fields options).groq.toList ++ rest ≠
      (collection element narrowing).groq.toList ++ rest' := by
  have hbody := isBody_projectionBody options.spread hprojection.isField
  cases hcollection with
  | collection hfilter helement =>
      rw [toList_projection hprojection.filter_eq_none, toList_collection hfilter,
        List.append_assoc, List.append_assoc]
      exact sliceText_append_ne_bracketed hbody options.expansion helement hrest'

theorem projection_append_ne_select (hprojection : (projection fields options).Regular)
    (hselect : (select branches expansion).Regular) :
    (projection fields options).groq.toList ++ rest ≠
      (select branches expansion).groq.toList ++ rest' := by
  intro heq
  have hbody := isBody_projectionBody options.spread hprojection.isField
  obtain ⟨guarded, -, -, htext⟩ := hselect.exists_unionBody
  have hbody' := isBody_unionBody guarded
  have hunsliced : (select branches expansion).groq.toList ++ rest' =
      (Groq.sliceText none).toList ++ (expandedText (unionBody guarded) expansion ++ rest') := by
    rw [htext]
    rfl
  rw [toList_projection hprojection.filter_eq_none, List.append_assoc, hunsliced] at heq
  obtain ⟨-, hexpanded⟩ := sliceText_append_inj hbody hbody' heq
  obtain ⟨-, more, more', hbodies, -⟩ := Groq.expandedText_append_inj hbody hbody' hexpanded
  exact projectionBody_ne_unionBody hprojection.isField guarded more more' hbodies

/-- Equal texts that begin with collections begin with the same one. -/
theorem collection_append_inj (hcollection : (collection element narrowing).Regular)
    (hcollection' : (collection element' narrowing').Regular)
    (hunique : element.Regular → element.ReadsUniquely) (hrest : Follows rest)
    (hrest' : Follows rest')
    (heq : (collection element narrowing).groq.toList ++ rest =
      (collection element' narrowing').groq.toList ++ rest') :
    collection element narrowing = collection element' narrowing' ∧ rest = rest' := by
  cases hcollection with
  | collection hfilter helement =>
      cases hcollection' with
      | collection hfilter' helement' =>
          rw [toList_collection hfilter, toList_collection hfilter', List.append_assoc,
            List.append_assoc] at heq
          obtain ⟨hslice, htexts⟩ := Groq.bracketed_append_inj heq
          obtain ⟨rfl, hrests⟩ :=
            elementText_append_inj helement helement' (hunique helement) hrest hrest' htexts
          obtain ⟨filter, slice⟩ := narrowing
          obtain ⟨filter', slice'⟩ := narrowing'
          simp only at hfilter hfilter' hslice
          subst hfilter hfilter' hslice
          exact ⟨rfl, hrests⟩

theorem collection_append_ne_select (hcollection : (collection element narrowing).Regular)
    (hselect : (select branches expansion).Regular) :
    (collection element narrowing).groq.toList ++ rest ≠
      (select branches expansion).groq.toList ++ rest' := by
  obtain ⟨guarded, -, -, htext⟩ := hselect.exists_unionBody
  obtain ⟨inner, hinner⟩ :=
    Groq.expandedText_opening (isBody_unionBody guarded).opening expansion
  cases hcollection with
  | collection hfilter helement =>
      rw [toList_collection hfilter, htext, hinner]
      simp [bracketed]

/-- Equal texts that begin with typed unions begin with the same one. -/
theorem select_append_inj (hselect : (select branches expansion).Regular)
    (hselect' : (select branches' expansion').Regular)
    (hunique : ∀ branch ∈ branches, branch.2.Regular → branch.2.ReadsUniquely)
    (heq : (select branches expansion).groq.toList ++ rest =
      (select branches' expansion').groq.toList ++ rest') :
    select branches expansion = select branches' expansion' ∧ rest = rest' := by
  obtain ⟨guarded, rfl, hguarded, htext⟩ := hselect.exists_unionBody
  obtain ⟨guarded', rfl, hguarded', htext'⟩ := hselect'.exists_unionBody
  rw [htext, htext'] at heq
  obtain ⟨rfl, more, more', hbodies, hend⟩ :=
    Groq.expandedText_append_inj (isBody_unionBody guarded) (isBody_unionBody guarded') heq
  have hone : ∀ branch ∈ guarded, branch.2.ReadsUniquely := fun branch hmem =>
    hunique branch (List.mem_cons_of_mem _ hmem) (hguarded branch hmem).2
  obtain ⟨rfl, hmore⟩ := unionBody_append_inj hguarded hguarded' hone hbodies
  exact ⟨rfl, hend rfl hmore⟩

end Pairs

/-- Where the texts of two regular skeletons begin the same text, the skeletons are the same. -/
theorem readsUniquely_of_regular {skeleton : Skeleton} (hskeleton : skeleton.Regular) :
    skeleton.ReadsUniquely := by
  induction skeleton using Skeleton.induction with
  | leaf =>
      intro other rest rest' hother hrest hrest' heq
      by_cases hleaf : other = .leaf
      · subst hleaf
        exact ⟨rfl, heq⟩
      · exact absurd heq.symm (hother.append_ne_follows hleaf hrest)
  | fragment text => nomatch hskeleton
  | projection fields options ih =>
      intro other rest rest' hother hrest hrest' heq
      cases other with
      | leaf => exact absurd heq (hskeleton.append_ne_follows (by simp) hrest')
      | fragment text => nomatch hother
      | projection fields' options' => exact projection_append_inj hskeleton hother ih heq
      | collection element' narrowing' =>
          exact absurd heq (projection_append_ne_collection hskeleton hother hrest')
      | select branches' expansion' =>
          exact absurd heq (projection_append_ne_select hskeleton hother)
  | collection element narrowing ih =>
      intro other rest rest' hother hrest hrest' heq
      cases other with
      | leaf => exact absurd heq (hskeleton.append_ne_follows (by simp) hrest')
      | fragment text => nomatch hother
      | projection fields' options' =>
          exact absurd heq.symm (projection_append_ne_collection hother hskeleton hrest)
      | collection element' narrowing' =>
          exact collection_append_inj hskeleton hother ih hrest hrest' heq
      | select branches' expansion' =>
          exact absurd heq (collection_append_ne_select hskeleton hother)
  | select branches expansion ih =>
      intro other rest rest' hother hrest hrest' heq
      cases other with
      | leaf => exact absurd heq (hskeleton.append_ne_follows (by simp) hrest')
      | fragment text => nomatch hother
      | projection fields' options' =>
          exact absurd heq.symm (projection_append_ne_select hother hskeleton)
      | collection element' narrowing' =>
          exact absurd heq.symm (collection_append_ne_select hother hskeleton)
      | select branches' expansion' => exact select_append_inj hskeleton hother ih heq

end Skeleton

/-- Nodes with the same text have the same skeleton. -/
theorem Node.skeleton_eq_of_groq_eq {node other : Node} (hnode : node.Regular)
    (hother : other.Regular) (htext : node.groq = other.groq) : node.skeleton = other.skeleton := by
  have hnone : Follows [] := fun c hc => absurd hc (by simp)
  have heq : node.skeleton.groq.toList ++ [] = other.skeleton.groq.toList ++ [] := by
    rw [hnode.groq_skeleton, hother.groq_skeleton, htext]
  exact (Skeleton.readsUniquely_of_regular hnode.skeleton _ _ _ hother.skeleton hnone hnone heq).1

/-- A sliced projection with an alias and a sliced collection of a typed union, and the same
with wrappers, another leaf and other identities. -/
theorem Node.skeleton_eq_wrapped :
    let title := Node.mk ⟨0⟩ (.leaf .string)
    let other := Node.mk ⟨1⟩ (.nullable (.mk ⟨2⟩ (.leaf .integer)))
    let renamed := Node.mk ⟨3⟩ (.fragment "slug" title)
    let person := Node.mk ⟨4⟩ (.projection [("_type", title)] ⟨.none, some .always, true⟩)
    let union := Node.mk ⟨5⟩ (.select
      [(.otherwise, (unknownVariant.run 6).1), (Guard.ofType "a \"b", person)]
      (some .reference))
    let credits := Node.mk ⟨11⟩ (.collection union ⟨none, some (.range 0 3)⟩)
    let movie := Node.mk ⟨12⟩ (.projection
      [("title", title), ("path", renamed), ("credits", credits)]
      ⟨⟨none, some (.index 2)⟩, none, false⟩)
    let wrapped := Node.mk ⟨13⟩ (.nullable (.mk ⟨14⟩ (.projection
      [("title", other), ("path", .mk ⟨15⟩ (.nullable renamed)),
        ("credits", .mk ⟨16⟩ (.nullable credits))]
      ⟨⟨none, some (.index 2)⟩, none, false⟩)))
    movie.groq = wrapped.groq ∧ movie.skeleton = wrapped.skeleton := by
  intro title other renamed person union credits movie wrapped
  have hrenamed : renamed.IsAlias := .fragment _ title rfl
  have hperson : person.Regular := by
    apply Node.Regular.projection _ rfl
    · intro property hproperty
      rw [List.mem_singleton.mp hproperty]
      exact (rfl : isIdentifier "_type".toList = true)
    · intro property hproperty halias
      rw [List.mem_singleton.mp hproperty]
      exact .leaf _ _
  have hcredits : credits.Regular := by
    apply Node.Regular.collection _ rfl
    apply Node.Regular.union
    · intro branch hbranch
      rw [List.mem_singleton.mp hbranch]
      exact ⟨_, rfl⟩
    · intro branch hbranch
      rw [List.mem_singleton.mp hbranch]
      exact ⟨_, _, rfl⟩
    · intro branch hbranch
      rw [List.mem_singleton.mp hbranch]
      exact hperson
  have hmovie : movie.Regular := by
    apply Node.Regular.projection _ rfl
    · simp only [List.forall_mem_cons]
      exact ⟨rfl, rfl, rfl, fun _ hmem => absurd hmem List.not_mem_nil⟩
    · simp only [List.forall_mem_cons]
      exact ⟨fun _ => .leaf _ _, fun halias => absurd hrenamed halias, fun _ => hcredits,
        fun _ hmem => absurd hmem List.not_mem_nil⟩
  have hwrapped : wrapped.Regular := by
    apply Node.Regular.nullable
    apply Node.Regular.projection _ rfl
    · simp only [List.forall_mem_cons]
      exact ⟨rfl, rfl, rfl, fun _ hmem => absurd hmem List.not_mem_nil⟩
    · simp only [List.forall_mem_cons]
      exact ⟨fun _ => .nullable _ (.leaf _ _), fun halias => absurd (.nullable _ hrenamed) halias,
        fun _ => .nullable _ hcredits, fun _ hmem => absurd hmem List.not_mem_nil⟩
  exact ⟨rfl, skeleton_eq_of_groq_eq hmovie hwrapped rfl⟩

end ShapeQuery
