import ShapeQuery.Proofs.Groq.SkeletonText

/-!
# Framing of bodies

Fields and the bodies of projections and unions are determined by the text that they begin,
as long as the skeletons in them are.
-/

namespace ShapeQuery

open Groq (IsBody)

namespace Skeleton

variable {rest rest' : List Char}

/-! ## Fields -/

/-- A field with an identifier for a key, and an alias or a regular skeleton under it. -/
def IsField (field : String × Skeleton) : Prop :=
  isIdentifier field.1.toList = true ∧ (¬field.2.IsAlias → field.2.Regular)

theorem fieldText_alias {key target : String} (htarget : isIdentifier target.toList = true) :
    fieldText (key, .fragment target) =
      '"' :: (key.toList ++ ('"' :: ':' :: target.toList)) := by
  obtain ⟨first, more, hcons, hfirst, -⟩ := exists_cons_of_isIdentifier htarget
  rw [fieldText, groq, Groq.field]
  split
  · next hempty => simp [hempty] at hcons
  · next hbrace =>
      obtain ⟨rfl, -⟩ := List.cons.inj (hbrace.symm.trans hcons)
      exact absurd hfirst (by decide)
  · next hbracket =>
      obtain ⟨rfl, -⟩ := List.cons.inj (hbracket.symm.trans hcons)
      exact absurd hfirst (by decide)
  · simp

theorem fieldText_regular {key : String} {skeleton : Skeleton} (hskeleton : skeleton.Regular) :
    fieldText (key, skeleton) = key.toList ++ skeleton.groq.toList := by
  rw [fieldText, Groq.field]
  rcases hskeleton.opening with rfl | ⟨inner, hinner⟩ | ⟨inner, hinner⟩
  · simp [groq]
  · rw [hinner]
    simp [hinner]
  · rw [hinner]
    simp [hinner]

theorem IsField.cases {key : String} {skeleton : Skeleton} (hfield : IsField (key, skeleton)) :
    (∃ target : String, skeleton = .fragment target ∧ isIdentifier target.toList = true) ∨
      skeleton.Regular := by
  by_cases halias : skeleton.IsAlias
  · exact .inl halias
  · exact .inr (hfield.2 halias)

theorem IsField.head {field : String × Skeleton} (hfield : IsField field) :
    ∃ first more, fieldText field = first :: more ∧ (first = '"' ∨ IsLetter first) := by
  obtain ⟨key, skeleton⟩ := field
  rcases hfield.cases with ⟨target, rfl, htarget⟩ | hregular
  · exact ⟨_, _, fieldText_alias htarget, .inl rfl⟩
  · obtain ⟨first, more, hcons, -⟩ := exists_cons_of_isIdentifier hfield.1
    have hfirst : IsLetter first := isLetter_of_mem_identifier hfield.1 first (by simp [hcons])
    refine ⟨first, more ++ skeleton.groq.toList, ?_, .inr hfirst⟩
    rw [fieldText_regular hregular, hcons]
    rfl

/-- The skeleton can be told from any regular one by the text that its text begins. -/
def ReadsUniquely (skeleton : Skeleton) : Prop :=
  ∀ (other : Skeleton) (rest rest' : List Char), other.Regular → Follows rest → Follows rest' →
    skeleton.groq.toList ++ rest = other.groq.toList ++ rest' → skeleton = other ∧ rest = rest'

/-- Of two texts that begin with a field, equal ones begin with the same field. -/
theorem fieldText_append_inj {field field' : String × Skeleton} (hfield : IsField field)
    (hfield' : IsField field') (hunique : field.2.Regular → field.2.ReadsUniquely)
    (hrest : Follows rest) (hrest' : Follows rest')
    (heq : fieldText field ++ rest = fieldText field' ++ rest') :
    field = field' ∧ rest = rest' := by
  obtain ⟨key, skeleton⟩ := field
  obtain ⟨key', skeleton'⟩ := field'
  have hkey := isLetter_of_mem_identifier hfield.1
  have hkey' := isLetter_of_mem_identifier hfield'.1
  rcases hfield.cases with ⟨target, rfl, htarget⟩ | hregular <;>
    rcases hfield'.cases with ⟨target', rfl, htarget'⟩ | hregular'
  · -- Two aliases.
    rw [fieldText_alias htarget, fieldText_alias htarget'] at heq
    simp only [List.cons_append, List.append_assoc, List.cons.injEq, true_and] at heq
    obtain ⟨hkeys, hafter⟩ := run_append_inj IsLetter hkey hkey'
      (not_isLetter_head (by decide) _) (not_isLetter_head (by decide) _) heq
    obtain ⟨htargets, hrests⟩ := run_append_inj IsLetter (isLetter_of_mem_identifier htarget)
      (isLetter_of_mem_identifier htarget') hrest.not_isLetter hrest'.not_isLetter
      (List.cons.inj (List.cons.inj hafter).2).2
    obtain rfl := String.toList_inj.mp hkeys
    obtain rfl := String.toList_inj.mp htargets
    exact ⟨rfl, hrests⟩
  · rw [fieldText_alias htarget, fieldText_regular hregular', List.append_assoc] at heq
    exact absurd heq (cons_ne_identifier_append (by decide) hfield'.1 _ _)
  · rw [fieldText_regular hregular, fieldText_alias htarget', List.append_assoc] at heq
    exact absurd heq.symm (cons_ne_identifier_append (by decide) hfield.1 _ _)
  · -- Two keys with the texts of their values glued to them.
    rw [fieldText_regular hregular, fieldText_regular hregular', List.append_assoc,
      List.append_assoc] at heq
    obtain ⟨hkeys, hafter⟩ := run_append_inj IsLetter hkey hkey' (hregular.not_isLetter hrest)
      (hregular'.not_isLetter hrest') heq
    obtain ⟨rfl, hrests⟩ := hunique hregular skeleton' rest rest' hregular' hrest hrest' hafter
    obtain rfl := String.toList_inj.mp hkeys
    exact ⟨rfl, hrests⟩

def fieldsText (fields : List (String × Skeleton)) : List Char :=
  fields.flatMap fun field => ',' :: fieldText field

theorem follows_fieldsText (fields : List (String × Skeleton)) (rest : List Char) :
    Follows (fieldsText fields ++ '\x7d' :: rest) := by
  cases fields with
  | nil => exact follows_cons (by decide) rest
  | cons field fields => exact follows_cons (by decide) _

/-- Fields are told apart up to the brace behind them. -/
theorem fieldsText_append_inj {fields fields' : List (String × Skeleton)}
    (hfields : ∀ field ∈ fields, IsField field) (hfields' : ∀ field ∈ fields', IsField field)
    (hunique : ∀ field ∈ fields, field.2.Regular → field.2.ReadsUniquely)
    (heq : fieldsText fields ++ '\x7d' :: rest = fieldsText fields' ++ '\x7d' :: rest') :
    fields = fields' ∧ rest = rest' := by
  induction fields generalizing fields' with
  | nil =>
      cases fields' with
      | nil => exact ⟨rfl, (List.cons.inj heq).2⟩
      | cons field' fields' => simp [fieldsText] at heq
  | cons field fields ih =>
      cases fields' with
      | nil => simp [fieldsText] at heq
      | cons field' fields' =>
          obtain ⟨hfield, hfields⟩ := List.forall_mem_cons.mp hfields
          obtain ⟨hfield', hmore'⟩ := List.forall_mem_cons.mp hfields'
          obtain ⟨hone, hunique⟩ := List.forall_mem_cons.mp hunique
          simp only [fieldsText, List.flatMap_cons, List.cons_append, List.append_assoc,
            List.cons.injEq, true_and] at heq
          obtain ⟨rfl, hafter⟩ := fieldText_append_inj hfield hfield' hone
            (follows_fieldsText fields rest) (follows_fieldsText fields' rest') heq
          obtain ⟨rfl, hrests⟩ := ih hfields hmore' hunique hafter
          exact ⟨rfl, hrests⟩

/-! ## Bodies -/

theorem projectionBody_spread (fields : List (String × Skeleton)) (rest : List Char) :
    projectionBody true fields ++ rest =
      '\x7b' :: ("...".toList ++ (fieldsText fields ++ '\x7d' :: rest)) := by
  simp [projectionBody, intercalate_cons, fieldsText, List.flatMap_map]

theorem projectionBody_nil (rest : List Char) :
    projectionBody false [] ++ rest = '\x7b' :: '\x7d' :: rest := rfl

theorem projectionBody_cons (field : String × Skeleton) (fields : List (String × Skeleton))
    (rest : List Char) :
    projectionBody false (field :: fields) ++ rest =
      '\x7b' :: (fieldText field ++ (fieldsText fields ++ '\x7d' :: rest)) := by
  simp [projectionBody, intercalate_cons, fieldsText, List.flatMap_map]

theorem IsField.append_ne_cons {field : String × Skeleton} (hfield : IsField field) {c : Char}
    (hquote : c ≠ '"') (hletter : ¬IsLetter c) (rest more : List Char) :
    fieldText field ++ rest ≠ c :: more := by
  obtain ⟨first, others, hcons, hfirst⟩ := hfield.head
  rw [hcons]
  intro heq
  obtain rfl := (List.cons.inj heq).1
  exact hfirst.elim hquote hletter

/-- The body of a projection is read in one way only. -/
theorem projectionBody_append_inj {spread spread' : Bool}
    {fields fields' : List (String × Skeleton)} (hfields : ∀ field ∈ fields, IsField field)
    (hfields' : ∀ field ∈ fields', IsField field)
    (hunique : ∀ field ∈ fields, field.2.Regular → field.2.ReadsUniquely)
    (heq : projectionBody spread fields ++ rest = projectionBody spread' fields' ++ rest') :
    spread = spread' ∧ fields = fields' ∧ rest = rest' := by
  match spread, spread', fields, fields' with
  | true, true, fields, fields' =>
      rw [projectionBody_spread, projectionBody_spread] at heq
      have hafter := List.append_cancel_left (List.cons.inj heq).2
      exact ⟨rfl, fieldsText_append_inj hfields hfields' hunique hafter⟩
  | true, false, fields, [] =>
      rw [projectionBody_spread, projectionBody_nil] at heq
      simp at heq
  | true, false, fields, field' :: fields' =>
      rw [projectionBody_spread, projectionBody_cons] at heq
      have hfield' := hfields' field' List.mem_cons_self
      exact absurd (List.cons.inj heq).2.symm (hfield'.append_ne_cons (by decide) (by decide) _ _)
  | false, true, [], fields' =>
      rw [projectionBody_spread, projectionBody_nil] at heq
      simp at heq
  | false, true, field :: fields, fields' =>
      rw [projectionBody_spread, projectionBody_cons] at heq
      have hfield := hfields field List.mem_cons_self
      exact absurd (List.cons.inj heq).2 (hfield.append_ne_cons (by decide) (by decide) _ _)
  | false, false, [], [] =>
      rw [projectionBody_nil, projectionBody_nil] at heq
      exact ⟨rfl, rfl, (List.cons.inj (List.cons.inj heq).2).2⟩
  | false, false, [], field' :: fields' =>
      rw [projectionBody_nil, projectionBody_cons] at heq
      have hfield' := hfields' field' List.mem_cons_self
      exact absurd (List.cons.inj heq).2.symm (hfield'.append_ne_cons (by decide) (by decide) _ _)
  | false, false, field :: fields, [] =>
      rw [projectionBody_nil, projectionBody_cons] at heq
      have hfield := hfields field List.mem_cons_self
      exact absurd (List.cons.inj heq).2 (hfield.append_ne_cons (by decide) (by decide) _ _)
  | false, false, field :: fields, field' :: fields' =>
      rw [projectionBody_cons, projectionBody_cons] at heq
      obtain ⟨hfield, hfields⟩ := List.forall_mem_cons.mp hfields
      obtain ⟨hfield', hmore'⟩ := List.forall_mem_cons.mp hfields'
      obtain ⟨hone, hunique⟩ := List.forall_mem_cons.mp hunique
      obtain ⟨rfl, hafter⟩ := fieldText_append_inj hfield hfield' hone
        (follows_fieldsText fields rest) (follows_fieldsText fields' rest') (List.cons.inj heq).2
      obtain ⟨rfl, hrests⟩ := fieldsText_append_inj hfields hmore' hunique hafter
      exact ⟨rfl, rfl, hrests⟩

/-- Behind three points a projection goes on with a comma or ends. -/
theorem projectionBody_ne_points {spread : Bool} {fields : List (String × Skeleton)}
    (hfields : ∀ field ∈ fields, IsField field) {c : Char} (hcomma : ',' ≠ c)
    (hclose : '\x7d' ≠ c) (rest other : List Char) :
    projectionBody spread fields ++ rest ≠ '\x7b' :: ("...".toList ++ c :: other) := by
  intro heq
  match spread, fields, hfields with
  | true, [], hfields =>
      rw [projectionBody_spread] at heq
      have hafter := List.append_cancel_left (List.cons.inj heq).2
      exact hclose (List.cons.inj hafter).1
  | true, field :: fields, hfields =>
      rw [projectionBody_spread] at heq
      have hafter := List.append_cancel_left (List.cons.inj heq).2
      exact hcomma (List.cons.inj hafter).1
  | false, [], hfields =>
      rw [projectionBody_nil] at heq
      simp at heq
  | false, field :: fields, hfields =>
      rw [projectionBody_cons] at heq
      have hfield := hfields field List.mem_cons_self
      exact hfield.append_ne_cons (by decide) (by decide) _ _ (List.cons.inj heq).2

/-- Where a field begins with a word, the word is its key. -/
theorem fieldText_eq_word {field : String × Skeleton} (hfield : IsField field)
    {word : List Char} (hword : isIdentifier word = true) (hrest : Follows rest)
    (hrest' : ∀ c ∈ rest'.head?, ¬IsLetter c)
    (heq : fieldText field ++ rest = word ++ rest') :
    field.2.Regular ∧ field.2.groq.toList ++ rest = rest' := by
  obtain ⟨key, skeleton⟩ := field
  have hkey := isLetter_of_mem_identifier hfield.1
  have hletters := isLetter_of_mem_identifier hword
  rcases hfield.cases with ⟨target, rfl, htarget⟩ | hregular
  · rw [fieldText_alias htarget] at heq
    exact absurd heq (cons_ne_identifier_append (by decide) hword _ _)
  · rw [fieldText_regular hregular, List.append_assoc] at heq
    obtain ⟨-, hafter⟩ := run_append_inj IsLetter hkey hletters (hregular.not_isLetter hrest)
      hrest' heq
    exact ⟨hregular, hafter⟩

/-- A word at the beginning of a projection is the key of its first field. -/
theorem projectionBody_eq_word {spread : Bool} {fields : List (String × Skeleton)}
    (hfields : ∀ field ∈ fields, IsField field) (word : List Char)
    (hword : isIdentifier word = true) (hrest' : ∀ c ∈ rest'.head?, ¬IsLetter c)
    (heq : projectionBody spread fields ++ rest = '\x7b' :: (word ++ rest')) :
    ∃ field more, fields = field :: more ∧ field.2.Regular ∧
      field.2.groq.toList ++ (fieldsText more ++ '\x7d' :: rest) = rest' := by
  match spread, fields, hfields with
  | true, fields, hfields =>
      rw [projectionBody_spread] at heq
      exact absurd (List.cons.inj heq).2 (cons_ne_identifier_append (by decide) hword _ _)
  | false, [], hfields =>
      rw [projectionBody_nil] at heq
      exact absurd (List.cons.inj heq).2 (cons_ne_identifier_append (by decide) hword _ _)
  | false, field :: fields, hfields =>
      rw [projectionBody_cons] at heq
      have hfield := hfields field List.mem_cons_self
      obtain ⟨hregular, hafter⟩ := fieldText_eq_word hfield hword (follows_fieldsText fields rest)
        hrest' (List.cons.inj heq).2
      exact ⟨field, fields, rfl, hregular, hafter⟩

/-- A node begins with a bracket or a brace, or has no text and is followed by what ends a field. -/
theorem Regular.append_ne_cons {skeleton : Skeleton} (hskeleton : skeleton.Regular)
    (hrest : Follows rest) {c : Char} (hc : c ∉ ['\x7b', '[', ',', '\x7d', ')'])
    (more : List Char) : skeleton.groq.toList ++ rest ≠ c :: more := by
  simp only [List.mem_cons, List.not_mem_nil, or_false, not_or] at hc
  obtain ⟨hbrace, hbracket, hfollows⟩ := hc
  rcases hskeleton.opening with rfl | ⟨inner, hinner⟩ | ⟨inner, hinner⟩
  · exact hrest.ne_cons (by simpa using hfollows) more
  · rw [hinner]
    exact fun heq => hbrace (List.cons.inj heq).1.symm
  · rw [hinner]
    exact fun heq => hbracket (List.cons.inj heq).1.symm

theorem isBody_projectionBody (spread : Bool) {fields : List (String × Skeleton)}
    (hfields : ∀ field ∈ fields, IsField field) : IsBody (projectionBody spread fields) where
  opening := ⟨_, rfl⟩
  ne_always rest other :=
    projectionBody_ne_points hfields (by decide) (by decide) rest other
  ne_ofType rest other := by
    intro heq
    have hblank := not_isLetter_head (c := ' ') (by decide) other
    obtain ⟨field, more, rfl, hregular, hafter⟩ :=
      projectionBody_eq_word hfields "_type".toList rfl hblank heq
    exact hregular.append_ne_cons (follows_fieldsText more rest) (by decide) other hafter
  ne_keyed rest other := by
    intro heq
    have hcomma := not_isLetter_head (c := ',') (by decide) ('.' :: other)
    obtain ⟨field, more, rfl, hregular, hafter⟩ :=
      projectionBody_eq_word hfields "_key".toList rfl hcomma heq
    rcases hregular.opening with hleaf | ⟨inner, hinner⟩ | ⟨inner, hinner⟩
    · rw [hleaf] at hafter
      match more, hfields with
      | [], hfields => simp [groq, fieldsText] at hafter
      | next :: more, hfields =>
          have hnext := hfields next (List.mem_cons_of_mem _ List.mem_cons_self)
          simp only [groq, fieldsText, List.flatMap_cons, String.toList_empty, List.nil_append,
            List.cons_append, List.append_assoc, List.cons.injEq, true_and] at hafter
          exact hnext.append_ne_cons (by decide) (by decide) _ _ hafter
    · rw [hinner] at hafter
      simp at hafter
    · rw [hinner] at hafter
      simp at hafter

theorem isBody_unionBody (branches : List (Guard × Skeleton)) : IsBody (unionBody branches) where
  opening := ⟨_, rfl⟩
  ne_always rest other := by simp [unionBody]
  ne_ofType rest other := by simp [unionBody]
  ne_keyed rest other := by simp [unionBody]

/-- The body of a union spreads a selection, and no key of a projection looks like that. -/
theorem projectionBody_ne_unionBody {spread : Bool} {fields : List (String × Skeleton)}
    (hfields : ∀ field ∈ fields, IsField field) (branches : List (Guard × Skeleton))
    (rest rest' : List Char) : projectionBody spread fields ++ rest ≠ unionBody branches ++ rest' :=
  projectionBody_ne_points hfields (by decide) (by decide) rest _

def IsBranch (branch : Guard × Skeleton) : Prop :=
  (∃ discriminant, branch.1 = Guard.ofType discriminant) ∧ branch.2.Regular

/-- A branch is read in one way only, by the quotes around its discriminant. -/
theorem branchText_append_inj {branch branch' : Guard × Skeleton} (hbranch : IsBranch branch)
    (hbranch' : IsBranch branch') (hunique : branch.2.ReadsUniquely)
    (heq : branchText branch ++ rest = branchText branch' ++ rest') :
    branch = branch' ∧ rest = rest' := by
  obtain ⟨guard, skeleton⟩ := branch
  obtain ⟨guard', skeleton'⟩ := branch'
  obtain ⟨⟨discriminant, hguard⟩, hregular⟩ := hbranch
  obtain ⟨⟨discriminant', hguard'⟩, hregular'⟩ := hbranch'
  obtain rfl : guard = Guard.ofType discriminant := hguard
  obtain rfl : guard' = Guard.ofType discriminant' := hguard'
  simp only [branchText, Guard.ofType, String.toList_append, List.append_assoc] at heq
  obtain ⟨rfl, harrow⟩ := Quoted.encode_append_inj (List.append_cancel_left heq)
  obtain ⟨rfl, hafter⟩ := hunique skeleton' _ _ hregular' (follows_cons (by decide) _)
    (follows_cons (by decide) _) (List.append_cancel_left harrow)
  exact ⟨rfl, (List.cons.inj hafter).2⟩

/-- The fallback starts with a brace, which no condition does. -/
theorem unknownVariant_ne_branchText {branch : Guard × Skeleton} (hbranch : IsBranch branch)
    (rest rest' : List Char) :
    unknownVariant.groq.toList ++ rest ≠ branchText branch ++ rest' := by
  obtain ⟨guard, skeleton⟩ := branch
  obtain ⟨⟨discriminant, hguard⟩, -⟩ := hbranch
  obtain rfl : guard = Guard.ofType discriminant := hguard
  have hunknown : ∃ inner, unknownVariant.groq.toList = '\x7b' :: inner := ⟨_, rfl⟩
  obtain ⟨inner, hinner⟩ := hunknown
  rw [hinner]
  simp [branchText, Guard.ofType]

/-- The branches of a union are told apart up to its fallback. -/
theorem unionBody_append_inj {branches branches' : List (Guard × Skeleton)}
    (hbranches : ∀ branch ∈ branches, IsBranch branch)
    (hbranches' : ∀ branch ∈ branches', IsBranch branch)
    (hunique : ∀ branch ∈ branches, branch.2.ReadsUniquely)
    (heq : unionBody branches ++ rest = unionBody branches' ++ rest') :
    branches = branches' ∧ rest = rest' := by
  simp only [unionBody, List.cons_append, List.append_assoc, List.cons.injEq, true_and] at heq
  have htexts := List.append_cancel_left (List.append_cancel_left heq)
  clear heq
  induction branches generalizing branches' with
  | nil =>
      cases branches' with
      | nil =>
          have hclose := List.append_cancel_left (List.append_cancel_left htexts)
          exact ⟨rfl, (List.cons.inj (List.cons.inj hclose).2).2⟩
      | cons branch' branches' =>
          rw [List.flatMap_cons, List.append_assoc] at htexts
          have hbranch' := hbranches' branch' List.mem_cons_self
          exact absurd htexts (unknownVariant_ne_branchText hbranch' _ _)
  | cons branch branches ih =>
      obtain ⟨hbranch, hmore⟩ := List.forall_mem_cons.mp hbranches
      obtain ⟨hone, hunique⟩ := List.forall_mem_cons.mp hunique
      cases branches' with
      | nil =>
          rw [List.flatMap_cons, List.append_assoc] at htexts
          exact absurd htexts.symm (unknownVariant_ne_branchText hbranch _ _)
      | cons branch' branches' =>
          obtain ⟨hbranch', hmore'⟩ := List.forall_mem_cons.mp hbranches'
          rw [List.flatMap_cons, List.flatMap_cons, List.append_assoc, List.append_assoc] at htexts
          obtain ⟨rfl, hafter⟩ := branchText_append_inj hbranch hbranch' hone htexts
          obtain ⟨rfl, hrests⟩ := ih hmore hmore' hunique hafter
          exact ⟨rfl, hrests⟩

end Skeleton

end ShapeQuery
