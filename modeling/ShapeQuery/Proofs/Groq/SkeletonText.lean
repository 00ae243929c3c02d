import ShapeQuery.Proofs.Groq.Framing
import ShapeQuery.Proofs.Groq.Skeleton

/-!
# Skeletons and their texts

The text of a skeleton, put together from the texts of its parts, and the characters that
it may open with.
-/

namespace ShapeQuery

open Groq (bracketed expandedText)

/-- The characters of identifiers. -/
def IsLetter (c : Char) : Prop := c.isAlphanum = true ∨ c = '_'

instance : DecidablePred IsLetter := fun c =>
  inferInstanceAs (Decidable (c.isAlphanum = true ∨ c = '_'))

/-- What may stand behind the text of a node in a query. -/
def Follows (rest : List Char) : Prop :=
  ∀ c ∈ rest.head?, c ∈ [',', '\x7d', ')']

theorem follows_cons {c : Char} (hc : c ∈ [',', '\x7d', ')']) (rest : List Char) :
    Follows (c :: rest) := by
  rintro head ⟨⟩
  exact hc

theorem Follows.ne_cons {rest : List Char} (hrest : Follows rest) {c : Char}
    (hc : c ∉ [',', '\x7d', ')']) (more : List Char) : rest ≠ c :: more := by
  rintro rfl
  exact hc (hrest c rfl)

theorem not_isLetter_head {c : Char} (hc : ¬IsLetter c) (more : List Char) :
    ∀ first ∈ (c :: more).head?, ¬IsLetter first := by
  intro first hfirst
  cases hfirst
  exact hc

theorem Follows.not_isLetter {rest : List Char} (hrest : Follows rest) :
    ∀ c ∈ rest.head?, ¬IsLetter c := by
  intro c hc
  have hmem := hrest c hc
  simp only [List.mem_cons, List.not_mem_nil, or_false] at hmem
  rcases hmem with rfl | rfl | rfl <;> decide

theorem isLetter_of_mem_identifier {letters : List Char} (hletters : isIdentifier letters = true) :
    ∀ c ∈ letters, IsLetter c := isAlphanum_of_mem_identifier hletters

theorem cons_ne_identifier_append {c : Char} (hc : ¬IsLetter c) {word : List Char}
    (hword : isIdentifier word = true) (more rest : List Char) : c :: more ≠ word ++ rest := by
  obtain ⟨first, others, rfl, -⟩ := exists_cons_of_isIdentifier hword
  intro heq
  apply hc
  rw [(List.cons.inj heq).1]
  exact isLetter_of_mem_identifier hword first List.mem_cons_self

namespace Skeleton

variable {rest rest' : List Char}

/-! ## Texts by parts -/

def fieldText (field : String × Skeleton) : List Char :=
  (Groq.field field.1 field.2.groq).toList

def projectionBody (spread : Bool) (fields : List (String × Skeleton)) : List Char :=
  let parts := fields.map fieldText
  '\x7b' :: ([','].intercalate (if spread then "...".toList :: parts else parts) ++ ['\x7d'])

/-- What stands behind the brackets of a collection. -/
def elementText (element : Skeleton) : List Char :=
  if element.isStructured = true ∧ element.groq ≠ "" then
    '\x7b' :: ("_key,.".toList ++ ("..@".toList ++ (element.groq.toList ++ ['\x7d'])))
  else element.groq.toList

def branchText (branch : Guard × Skeleton) : List Char :=
  match branch.1 with
  | .when condition => condition.toList ++ (" => ".toList ++ (branch.2.groq.toList ++ [',']))
  | .otherwise => []

/-- The body of a typed union with the given branches before the last one. -/
def unionBody (branches : List (Guard × Skeleton)) : List Char :=
  '\x7b' :: ("...s".toList ++ ("elect(".toList ++ (branches.flatMap branchText ++
    (unknownVariant.groq.toList ++ [')', '\x7d']))))

theorem map_toList_fieldTexts (fields : List (String × Skeleton)) :
    (fieldTexts fields).map String.toList = fields.map fieldText := by
  induction fields with
  | nil => rfl
  | cons field rest ih => rw [fieldTexts, List.map_cons, ih, List.map_cons, fieldText]

theorem toList_projection {options : ProjectionOptions} (hfilter : options.filter = none)
    (fields : List (String × Skeleton)) :
    (projection fields options).groq.toList = (Groq.sliceText options.slice).toList ++
      expandedText (projectionBody options.spread fields) options.expansion := by
  have hbody : (Groq.braced (",".intercalate
      (if options.spread then "..." :: fieldTexts fields else fieldTexts fields))).toList =
        projectionBody options.spread fields := by
    simp only [Groq.braced, projectionBody, String.toList_append, String.toList_intercalate,
      apply_ite (List.map String.toList), List.map_cons, map_toList_fieldTexts]
    rfl
  have hhead : Groq.projectionHead options.toNarrowing = Groq.sliceText options.slice := by
    simp [Groq.projectionHead, Groq.filterOf, hfilter]
  rw [groq, Groq.projection, String.toList_append, hhead, Groq.toList_expanded, hbody]

theorem toList_collection {narrowing : Narrowing} (hfilter : narrowing.filter = none)
    (element : Skeleton) :
    (collection element narrowing).groq.toList =
      bracketed narrowing.slice ++ elementText element := by
  have hhead : (Groq.collectionHead narrowing).toList = bracketed narrowing.slice := by
    cases hslice : narrowing.slice with
    | none =>
        simp [Groq.collectionHead, Groq.filterOf, hfilter, hslice, Groq.filterText, bracketed,
          Groq.sliceDigits]
    | some slice =>
        rw [← Groq.toList_sliceText]
        simp [Groq.collectionHead, Groq.filterOf, hfilter, hslice, Groq.filterText]
  rw [groq, Groq.collection, String.toList_append, hhead, elementText]
  apply congrArg
  split
  · simp [Groq.braced]
  · rfl

theorem intercalate_concat (parts : List (List Char)) (last : List Char) :
    [','].intercalate (parts ++ [last]) = parts.flatMap (· ++ [',']) ++ last := by
  induction parts with
  | nil => simp
  | cons part rest ih =>
      rw [List.cons_append, List.intercalate_cons_of_ne_nil (by simp), ih]
      simp

theorem intercalate_cons (first : List Char) (parts : List (List Char)) :
    [','].intercalate (first :: parts) = first ++ parts.flatMap (',' :: ·) := by
  induction parts generalizing first with
  | nil => simp
  | cons next rest ih =>
      rw [List.intercalate_cons_cons, ih]
      simp

theorem guardedTexts_branchTexts {branches : List (Guard × Skeleton)}
    (hguards : ∀ branch ∈ branches, ∃ condition, branch.1 = .when condition)
    (hbodies : ∀ branch ∈ branches, branch.2.groq ≠ "") :
    (Groq.guardedTexts (branchTexts branches)).map (fun text => text.toList ++ [',']) =
        branches.map branchText ∧
      Groq.fallbackTexts (branchTexts branches) = [] := by
  induction branches with
  | nil => exact ⟨rfl, rfl⟩
  | cons branch rest ih =>
      obtain ⟨guard, skeleton⟩ := branch
      obtain ⟨⟨condition, hguard⟩, hguards⟩ := List.forall_mem_cons.mp hguards
      obtain ⟨hbody, hbodies⟩ := List.forall_mem_cons.mp hbodies
      obtain ⟨htexts, hfallback⟩ := ih hguards hbodies
      obtain rfl : guard = .when condition := hguard
      constructor
      · simp only [branchTexts, Groq.guardedTexts, List.filterMap_cons, List.map_cons]
        rw [← Groq.guardedTexts, htexts]
        simp [branchText, Groq.branchBody, hbody]
      · simpa [branchTexts, Groq.fallbackTexts] using hfallback

/-- The fallback is written last, although it is given first. -/
theorem toList_union {branches : List (Guard × Skeleton)} {expansion : Option Expansion}
    (hguards : ∀ branch ∈ branches, ∃ condition, branch.1 = .when condition)
    (hbodies : ∀ branch ∈ branches, branch.2.groq ≠ "") :
    (select ((.otherwise, unknownVariant) :: branches) expansion).groq.toList =
      expandedText (unionBody branches) expansion := by
  obtain ⟨htexts, hfallback⟩ := guardedTexts_branchTexts hguards hbodies
  have hparts : Groq.guardedTexts (branchTexts ((.otherwise, unknownVariant) :: branches)) ++
      Groq.fallbackTexts (branchTexts ((.otherwise, unknownVariant) :: branches)) =
        Groq.guardedTexts (branchTexts branches) ++ [unknownVariant.groq] := by
    have hunknown : Groq.branchBody unknownVariant.groq = unknownVariant.groq := rfl
    simp only [branchTexts, Groq.guardedTexts, Groq.fallbackTexts, List.filterMap_cons, hunknown]
    rw [← Groq.fallbackTexts, hfallback]
  have hjoined : (",".intercalate (Groq.guardedTexts (branchTexts branches) ++
      [unknownVariant.groq])).toList =
        branches.flatMap branchText ++ unknownVariant.groq.toList := by
    rw [String.toList_intercalate, List.map_append, List.map_singleton]
    have hconcat := intercalate_concat
      ((Groq.guardedTexts (branchTexts branches)).map String.toList) unknownVariant.groq.toList
    refine Eq.trans hconcat ?_
    rw [List.flatMap_map, List.flatMap_def, htexts, ← List.flatMap_def]
  rw [groq, Groq.select, hparts, Groq.toList_expanded]
  apply congrArg (expandedText · expansion)
  simp [Groq.braced, unionBody, hjoined]

/-! ## First characters -/

theorem opening_projection {options : ProjectionOptions} (hfilter : options.filter = none)
    (fields : List (String × Skeleton)) :
    (∃ inner, (projection fields options).groq.toList = '\x7b' :: inner) ∨
      ∃ inner, (projection fields options).groq.toList = '[' :: inner := by
  rw [toList_projection hfilter]
  cases options.slice with
  | none =>
      have hbody : ∃ inner, projectionBody options.spread fields = '\x7b' :: inner := ⟨_, rfl⟩
      exact .inl (Groq.expandedText_opening hbody options.expansion)
  | some slice =>
      rw [Groq.toList_sliceText]
      exact .inr ⟨_, rfl⟩

theorem groq_ne_empty_of_isProjection {skeleton : Skeleton}
    (hprojection : skeleton.IsProjection) : skeleton.groq ≠ "" := by
  obtain ⟨fields, options, rfl⟩ := hprojection
  exact Groq.projection_ne_empty options _

/-- The text of a typed union of projections. -/
theorem toList_typedUnion {branches : List (Guard × Skeleton)} (expansion : Option Expansion)
    (hguards : ∀ branch ∈ branches, ∃ discriminant, branch.1 = Guard.ofType discriminant)
    (hprojections : ∀ branch ∈ branches, branch.2.IsProjection) :
    (select ((.otherwise, unknownVariant) :: branches) expansion).groq.toList =
      expandedText (unionBody branches) expansion := by
  apply toList_union
  · intro branch hbranch
    obtain ⟨discriminant, hguard⟩ := hguards branch hbranch
    exact ⟨_, hguard⟩
  · intro branch hbranch
    exact groq_ne_empty_of_isProjection (hprojections branch hbranch)

/-- The text of a regular skeleton is empty or opens with a brace or a bracket. -/
theorem Regular.opening {skeleton : Skeleton} (hskeleton : skeleton.Regular) :
    skeleton = .leaf ∨ (∃ inner, skeleton.groq.toList = '\x7b' :: inner) ∨
      ∃ inner, skeleton.groq.toList = '[' :: inner := by
  cases hskeleton with
  | leaf => exact .inl rfl
  | projection hfilter hkeys hvalues => exact .inr (opening_projection hfilter _)
  | collection hfilter helement =>
      rw [toList_collection hfilter]
      exact .inr (.inr ⟨_, rfl⟩)
  | union expansion hguards hprojections hbranches =>
      rw [toList_typedUnion expansion hguards hprojections]
      exact .inr (.inl (Groq.expandedText_opening ⟨_, rfl⟩ expansion))

/-- No identifier runs on into the text of a node. -/
theorem Regular.not_isLetter {skeleton : Skeleton} (hskeleton : skeleton.Regular)
    (hrest : Follows rest) : ∀ c ∈ (skeleton.groq.toList ++ rest).head?, ¬IsLetter c := by
  rcases hskeleton.opening with rfl | ⟨inner, hinner⟩ | ⟨inner, hinner⟩
  · exact hrest.not_isLetter
  · rw [hinner]
    exact not_isLetter_head (by decide) _
  · rw [hinner]
    exact not_isLetter_head (by decide) _

end Skeleton

end ShapeQuery
