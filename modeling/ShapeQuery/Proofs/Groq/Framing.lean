import ShapeQuery.Groq.Assembly
import ShapeQuery.Proofs.Json.NumberText
import ShapeQuery.Proofs.Text.Framing

/-!
# Framing of query text

Slices and expansions are determined by the text that they begin, whatever follows it.  An
expansion is told apart from the bare body by what stands behind the first brace.
-/

namespace ShapeQuery.Groq

variable {rest rest' : List Char}

/-! ## Texts that are never empty -/

theorem braced_ne_empty (body : String) : braced body ≠ "" := by
  simp [braced]

theorem expanded_braced_ne_empty (body : String) (expansion : Option Expansion) :
    expanded (braced body) expansion ≠ "" := by
  match expansion with
  | none => exact braced_ne_empty _
  | some .always => exact braced_ne_empty _
  | some (.ofType discriminant) => exact braced_ne_empty _

/-- A projection has a text, whatever its options are. -/
theorem projection_ne_empty (options : ProjectionOptions) (fields : List String) :
    projection options fields ≠ "" := by
  intro hempty
  exact expanded_braced_ne_empty _ _ (String.append_eq_empty_iff.mp hempty).2

/-- So does a union, whatever its branches are. -/
theorem select_ne_empty (expansion : Option Expansion) (branches : List (Guard × String)) :
    select expansion branches ≠ "" :=
  expanded_braced_ne_empty _ _

theorem slice_text_ne_empty (slice : Slice) : slice.text ≠ "" := by
  cases slice <;> simp [Slice.text]

theorem filter_bracketed_ne_empty (filter : String) : Filter.bracketed filter ≠ "" := by
  unfold Filter.bracketed
  split
  next hbracket =>
    rintro rfl
    exact List.not_mem_nil hbracket
  next => simp

/-- What stands before the elements of a collection is at least a pair of brackets. -/
theorem collectionHead_ne_empty (narrowing : Narrowing) : collectionHead narrowing ≠ "" := by
  intro hempty
  obtain ⟨hfilter, hslice⟩ := String.append_eq_empty_iff.mp hempty
  cases hnarrowing : filterOf narrowing with
  | some filter =>
      rw [hnarrowing] at hfilter
      exact filter_bracketed_ne_empty filter hfilter
  | none =>
      rw [hnarrowing] at hslice
      cases hposition : narrowing.slice with
      | none => simp [hposition] at hslice
      | some slice =>
          rw [hposition] at hslice
          exact slice_text_ne_empty slice hslice

theorem collection_ne_empty (narrowing : Narrowing) (structured : Bool) (element : String) :
    collection narrowing structured element ≠ "" := by
  intro hempty
  exact collectionHead_ne_empty narrowing (String.append_eq_empty_iff.mp hempty).1

/-! ## Slices -/

theorem toDigits_inj {n m : ℕ} (heq : Nat.toDigits 10 n = Nat.toDigits 10 m) : n = m := by
  have hvalue := congrArg Number.digitsValue heq
  rwa [Number.digitsValue_toDigits, Number.digitsValue_toDigits] at hvalue

def sliceDigits : Option Slice → List Char
  | none => []
  | some (.index position) => Nat.toDigits 10 position
  | some (.range start stop) => Nat.toDigits 10 start ++ ("...".toList ++ Nat.toDigits 10 stop)

def bracketed (slice : Option Slice) : List Char :=
  '[' :: (sliceDigits slice ++ [']'])

theorem toList_sliceText (slice : Slice) :
    (sliceText (some slice)).toList = bracketed (some slice) := by
  cases slice with
  | index position => simp [sliceText, Slice.text, bracketed, sliceDigits]
  | range start stop => simp [sliceText, Slice.text, bracketed, sliceDigits]

theorem mem_sliceDigits {slice : Option Slice} {c : Char} (hc : c ∈ sliceDigits slice) :
    c.isDigit = true ∨ c = '.' := by
  match slice with
  | none => exact absurd hc List.not_mem_nil
  | some (.index position) => exact .inl (Number.isDigit_of_mem_toDigits c hc)
  | some (.range start stop) =>
      rcases List.mem_append.mp hc with hc | hc
      · exact .inl (Number.isDigit_of_mem_toDigits c hc)
      · rcases List.mem_append.mp hc with hc | hc
        · right
          simpa using hc
        · exact .inl (Number.isDigit_of_mem_toDigits c hc)

/-- No position is written like a range. -/
theorem toDigits_ne_range (n start stop : ℕ) :
    Nat.toDigits 10 n ≠ Nat.toDigits 10 start ++ ("...".toList ++ Nat.toDigits 10 stop) := by
  intro heq
  have hpoint : '.' ∈ Nat.toDigits 10 n := by
    rw [heq]
    simp
  exact absurd (Number.isDigit_of_mem_toDigits '.' hpoint) (by decide)

theorem toDigits_ne_nil (n : ℕ) : Nat.toDigits 10 n ≠ [] := (Number.plain_toDigits n).ne_nil

/-- What stands between its brackets tells one slice from another. -/
theorem sliceDigits_inj {slice slice' : Option Slice}
    (heq : sliceDigits slice = sliceDigits slice') : slice = slice' := by
  match slice, slice' with
  | none, none => rfl
  | none, some (.index position) => exact absurd heq.symm (toDigits_ne_nil position)
  | none, some (.range start stop) => simp [sliceDigits] at heq
  | some (.index position), none => exact absurd heq (toDigits_ne_nil position)
  | some (.range start stop), none => simp [sliceDigits] at heq
  | some (.index position), some (.index position') => rw [toDigits_inj heq]
  | some (.index position), some (.range start stop) =>
      exact absurd heq (toDigits_ne_range position start stop)
  | some (.range start stop), some (.index position) =>
      exact absurd heq.symm (toDigits_ne_range position start stop)
  | some (.range start stop), some (.range start' stop') =>
      have hpoint (n : ℕ) : ∀ c ∈ ("...".toList ++ Nat.toDigits 10 n).head?,
          ¬c.isDigit = true := by
        rintro c ⟨⟩
        decide
      obtain ⟨hstart, hrest⟩ := run_append_inj (fun c => c.isDigit = true)
        Number.isDigit_of_mem_toDigits Number.isDigit_of_mem_toDigits (hpoint stop) (hpoint stop')
        heq
      have hstop := List.append_cancel_left hrest
      rw [toDigits_inj hstart, toDigits_inj hstop]

/-- An optional slice in brackets is determined by the text that it begins. -/
theorem bracketed_append_inj {slice slice' : Option Slice}
    (heq : bracketed slice ++ rest = bracketed slice' ++ rest') :
    slice = slice' ∧ rest = rest' := by
  have hinside (slice : Option Slice) : ∀ c ∈ sliceDigits slice, c ≠ ']' := by
    rintro c hc rfl
    exact absurd (mem_sliceDigits hc) (by decide)
  have hclose (rest : List Char) : ∀ c ∈ ([']'] ++ rest).head?, ¬c ≠ ']' := by
    rintro c ⟨⟩ hc
    exact hc rfl
  simp only [bracketed, List.cons_append, List.append_assoc, List.cons.injEq, true_and] at heq
  obtain ⟨hdigits, hrest⟩ := run_append_inj (· ≠ ']') (hinside slice) (hinside slice')
    (hclose rest) (hclose rest') heq
  exact ⟨sliceDigits_inj hdigits, List.append_cancel_left hrest⟩

/-! ## Expansions -/

def expandedText (body : List Char) : Option Expansion → List Char
  | none => body
  | some .always => '\x7b' :: ("...@".toList ++ ("->".toList ++ (body ++ ['\x7d'])))
  | some (.ofType discriminant) =>
      let type := (Quoted.encode discriminant).toList
      '\x7b' :: ("_type ".toList ++ ("== ".toList ++ (type ++ (" => @->".toList ++ (body ++
        (",_type != ".toList ++ (type ++ (" => @".toList ++ (body ++ ['\x7d'])))))))))

theorem toList_expanded (body : String) (expansion : Option Expansion) :
    (expanded body expansion).toList = expandedText body.toList expansion := by
  match expansion with
  | none => rfl
  | some .always => simp [expanded, expandedText, braced]
  | some (.ofType discriminant) => simp [expanded, expandedText, braced]

/-- A body that no expansion and no projected key begins like. -/
structure IsBody (body : List Char) : Prop where
  opening : ∃ inner, body = '\x7b' :: inner
  ne_always : ∀ rest other, body ++ rest ≠ '\x7b' :: ("...@".toList ++ other)
  ne_ofType : ∀ rest other, body ++ rest ≠ '\x7b' :: ("_type ".toList ++ other)
  ne_keyed : ∀ rest other, body ++ rest ≠ '\x7b' :: ("_key,.".toList ++ other)

variable {body body' : List Char} {expansion expansion' : Option Expansion}

theorem expandedText_opening (hbody : ∃ inner, body = '\x7b' :: inner)
    (expansion : Option Expansion) :
    ∃ inner, expandedText body expansion = '\x7b' :: inner := by
  match expansion with
  | none => exact hbody
  | some .always => exact ⟨_, rfl⟩
  | some (.ofType discriminant) => exact ⟨_, rfl⟩

/-- No body starts like an element that projects its key. -/
theorem expandedText_ne_keyed (hbody : IsBody body) (expansion : Option Expansion)
    (rest other : List Char) :
    expandedText body expansion ++ rest ≠ '\x7b' :: ("_key,.".toList ++ other) := by
  match expansion with
  | none => exact hbody.ne_keyed rest other
  | some .always => simp [expandedText]
  | some (.ofType discriminant) => simp [expandedText]

/-- Where two expanded texts begin the same text, the expansions are the same and the bodies
begin the same text; if they are the same bodies, the same text follows. -/
theorem expandedText_append_inj (hbody : IsBody body) (hbody' : IsBody body')
    (heq : expandedText body expansion ++ rest = expandedText body' expansion' ++ rest') :
    expansion = expansion' ∧ ∃ more more', body ++ more = body' ++ more' ∧
      (body = body' → more = more' → rest = rest') := by
  match expansion, expansion' with
  | none, none => exact ⟨rfl, rest, rest', heq, fun _ hmore => hmore⟩
  | none, some .always =>
      simp only [expandedText, List.cons_append, List.append_assoc] at heq
      exact absurd heq (hbody.ne_always _ _)
  | none, some (.ofType discriminant) =>
      simp only [expandedText, List.cons_append, List.append_assoc] at heq
      exact absurd heq (hbody.ne_ofType _ _)
  | some .always, none =>
      simp only [expandedText, List.cons_append, List.append_assoc] at heq
      exact absurd heq.symm (hbody'.ne_always _ _)
  | some (.ofType discriminant), none =>
      simp only [expandedText, List.cons_append, List.append_assoc] at heq
      exact absurd heq.symm (hbody'.ne_ofType _ _)
  | some .always, some (.ofType discriminant) => simp [expandedText] at heq
  | some (.ofType discriminant), some .always => simp [expandedText] at heq
  | some .always, some .always =>
      simp only [expandedText, List.cons_append, List.append_assoc, List.cons.injEq,
        true_and] at heq
      have hbodies := List.append_cancel_left (List.append_cancel_left heq)
      exact ⟨rfl, _, _, hbodies, fun _ hmore => (List.cons.inj hmore).2⟩
  | some (.ofType discriminant), some (.ofType discriminant') =>
      simp only [expandedText, List.cons_append, List.append_assoc, List.cons.injEq,
        true_and] at heq
      have htype := List.append_cancel_left (List.append_cancel_left heq)
      obtain ⟨rfl, hafter⟩ := Quoted.encode_append_inj htype
      have hbodies := List.append_cancel_left hafter
      refine ⟨rfl, _, _, hbodies, ?_⟩
      intro hsame hmore
      subst hsame
      have hsecond := List.append_cancel_left (List.append_cancel_left hmore)
      have hend := List.append_cancel_left (List.append_cancel_left hsecond)
      exact (List.cons.inj hend).2

end ShapeQuery.Groq
