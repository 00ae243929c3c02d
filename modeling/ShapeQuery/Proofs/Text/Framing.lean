import Mathlib.Data.List.Basic
import ShapeQuery.Text.Quoted

/-!
# Where pieces of text end

A piece of text can be told apart from what follows it when it is a longest run of
characters of some kind, or when it is a quoted string.
-/

namespace ShapeQuery

variable {first second rest rest' : List Char}

/-- Longest runs of characters of one kind are determined by the text that they begin. -/
theorem run_append_inj (kind : Char → Prop) (hfirst : ∀ c ∈ first, kind c)
    (hsecond : ∀ c ∈ second, kind c) (hrest : ∀ c ∈ rest.head?, ¬kind c)
    (hrest' : ∀ c ∈ rest'.head?, ¬kind c) (heq : first ++ rest = second ++ rest') :
    first = second ∧ rest = rest' := by
  induction first generalizing second with
  | nil =>
      cases second with
      | nil => exact ⟨rfl, heq⟩
      | cons c second =>
          have hkind : kind c := hsecond c List.mem_cons_self
          have hhead : rest.head? = some c := by
            rw [List.nil_append] at heq
            rw [heq]
            rfl
          exact absurd hkind (hrest c hhead)
  | cons c first ih =>
      obtain ⟨hc, hfirst⟩ := List.forall_mem_cons.mp hfirst
      cases second with
      | nil =>
          have hhead : rest'.head? = some c := by
            rw [List.nil_append] at heq
            rw [← heq]
            rfl
          exact absurd hc (hrest' c hhead)
      | cons c' second =>
          have hmore : ∀ c ∈ second, kind c := fun c hc => hsecond c (List.mem_cons_of_mem _ hc)
          obtain ⟨rfl, htail⟩ := List.cons.inj heq
          obtain ⟨rfl, hrests⟩ := ih hfirst hmore htail
          exact ⟨rfl, hrests⟩

namespace Quoted

/-- A character neither ends a string nor starts an escape. -/
def IsPlain (c : Char) : Prop := c ≠ '"' ∧ c ≠ '\\'

theorem hexDigit_isPlain : ∀ n < 16, IsPlain (hexDigit n) := by
  unfold IsPlain
  decide

/-- An escape is one plain character, or a backslash with a character and plain ones. -/
theorem escape_cases (c : Char) :
    (IsPlain c ∧ escape c = [c]) ∨
      ∃ letter more, escape c = '\\' :: letter :: more ∧ ∀ c ∈ more, IsPlain c := by
  have hpair (letter : Char) : ∃ letter' more, ['\\', letter] = '\\' :: letter' :: more ∧
      ∀ c ∈ more, IsPlain c := ⟨letter, [], rfl, by simp⟩
  unfold escape
  split
  · exact .inr (hpair _)
  split
  · exact .inr (hpair _)
  split
  · next hquote hslash _ => exact .inl ⟨⟨hquote, hslash⟩, rfl⟩
  split
  · exact .inr (hpair _)
  split
  · exact .inr (hpair _)
  split
  · exact .inr (hpair _)
  split
  · exact .inr (hpair _)
  split
  · exact .inr (hpair _)
  · next hcontrol _ _ _ _ _ =>
      have hlow : c.toNat < 0x20 := Nat.lt_of_not_le hcontrol
      have hzero : IsPlain '0' := by
        unfold IsPlain
        decide
      refine .inr ⟨_, _, rfl, ?_⟩
      simp only [List.forall_mem_cons]
      exact ⟨hzero, hzero, hexDigit_isPlain _ (by omega), hexDigit_isPlain _ (by omega),
        fun _ hmem => absurd hmem List.not_mem_nil⟩

/-- What stands before the quote that ends a string, and what stands behind it. -/
def split : List Char → Option (List Char × List Char)
  | [] => none
  | '"' :: rest => some ([], rest)
  | '\\' :: c :: rest => (split rest).map fun parts => ('\\' :: c :: parts.1, parts.2)
  | c :: rest => (split rest).map fun parts => (c :: parts.1, parts.2)

theorem split_plain {c : Char} (hc : IsPlain c) (rest : List Char) :
    split (c :: rest) = (split rest).map fun parts => (c :: parts.1, parts.2) := by
  rw [split]
  · rintro rfl
    exact hc.1 rfl
  · rintro _ _ rfl
    exact absurd rfl hc.2

theorem split_append_plain {letters : List Char} (hletters : ∀ c ∈ letters, IsPlain c)
    (rest : List Char) :
    split (letters ++ rest) = (split rest).map fun parts => (letters ++ parts.1, parts.2) := by
  induction letters with
  | nil => simp
  | cons c letters ih =>
      obtain ⟨hc, hletters⟩ := List.forall_mem_cons.mp hletters
      rw [List.cons_append, split_plain hc, ih hletters, Option.map_map]
      rfl

theorem split_escape_append (c : Char) (rest : List Char) :
    split (escape c ++ rest) = (split rest).map fun parts => (escape c ++ parts.1, parts.2) := by
  rcases escape_cases c with ⟨hc, hescape⟩ | ⟨letter, more, hescape, hmore⟩
  · rw [hescape]
    exact split_append_plain (by simpa using hc) rest
  · rw [hescape, List.cons_append, List.cons_append, split, split_append_plain hmore,
      Option.map_map]
    rfl

/-- No quote within an escaped string ends it. -/
theorem split_flatMap_escape (cs rest : List Char) :
    split (cs.flatMap escape ++ '"' :: rest) = some (cs.flatMap escape, rest) := by
  induction cs with
  | nil => rfl
  | cons c cs ih =>
      rw [List.flatMap_cons, List.append_assoc, split_escape_append, ih]
      rfl

/-- A quoted string is determined by the text that it begins. -/
theorem encode_append_inj {s t : String}
    (heq : (encode s).toList ++ rest = (encode t).toList ++ rest') : s = t ∧ rest = rest' := by
  simp only [encode, String.toList_ofList, List.cons_append, List.append_assoc, List.nil_append,
    List.cons.injEq, true_and] at heq
  have hsplit := congrArg split heq
  rw [split_flatMap_escape, split_flatMap_escape, Option.some.injEq, Prod.mk.injEq] at hsplit
  obtain ⟨hescaped, hrest⟩ := hsplit
  have hdecode := congrArg decode hescaped
  rw [decode_flatMap_escape, decode_flatMap_escape, Option.some.injEq] at hdecode
  exact ⟨String.toList_inj.mp hdecode, hrest⟩

/-! ## Texts that stand for themselves -/

theorem eq_append_of_split {text inside : List Char} (hsplit : split text = some (inside, rest)) :
    text = inside ++ '"' :: rest := by
  fun_induction split text generalizing inside with
  | case1 => cases hsplit
  | case2 after =>
      cases hsplit
      rfl
  | case3 c after ih =>
      obtain ⟨parts, hparts, heq⟩ := Option.map_eq_some_iff.mp hsplit
      cases heq
      rw [ih hparts]
      rfl
  | case4 c after _ _ ih =>
      obtain ⟨parts, hparts, heq⟩ := Option.map_eq_some_iff.mp hsplit
      cases heq
      rw [ih hparts]
      rfl

/-- An escape is longer than the character that it means.  So what is read is shorter than the text
that it was read from, unless there are no escapes. -/
theorem decode_cases {cs meant : List Char} (hdecode : decode cs = some meant) :
    (meant = cs ∧ ∀ c ∈ cs, escape c = [c]) ∨ meant.length < cs.length := by
  have hlength {inner rest : List Char}
      (hinner : (inner = rest ∧ ∀ c ∈ rest, escape c = [c]) ∨ inner.length < rest.length) :
      inner.length ≤ rest.length := by
    rcases hinner with ⟨rfl, -⟩ | hshorter
    · exact Nat.le_refl _
    · exact Nat.le_of_lt hshorter
  fun_induction decode cs generalizing meant with
  | case1 =>
      cases hdecode
      exact .inl ⟨rfl, List.forall_mem_nil _⟩
  | case2 | case3 | case5 | case6 | case7 | case10 | case11 => cases hdecode
  | case4 | case8 | case9 =>
      rename_i ih
      obtain ⟨inner, hinner, rfl⟩ := Option.map_eq_some_iff.mp hdecode
      have := hlength (ih hinner)
      right
      simp only [List.length_cons]
      omega
  | case12 c rest _ _ hplain ih =>
      obtain ⟨inner, hinner, rfl⟩ := Option.map_eq_some_iff.mp hdecode
      simp only [not_or, Nat.not_lt] at hplain
      obtain ⟨hslash, hquote, hcontrol⟩ := hplain
      have hescape : escape c = [c] := by simp [escape, hslash, hquote, hcontrol]
      rcases ih hinner with ⟨rfl, hrest⟩ | hshorter
      · exact .inl ⟨rfl, List.forall_mem_cons.mpr ⟨hescape, hrest⟩⟩
      · exact .inr (Nat.succ_lt_succ hshorter)

theorem flatMap_escape_eq_self {cs : List Char} (hescape : ∀ c ∈ cs, escape c = [c]) :
    cs.flatMap escape = cs := by
  rw [List.flatMap_congr hescape, List.flatMap_singleton']

/-- A string is its own escape exactly if no character needs one. -/
theorem decode_eq_self_iff (cs : List Char) :
    decode cs = some cs ↔ ∀ c ∈ cs, escape c = [c] := by
  constructor
  · intro hdecode
    rcases decode_cases hdecode with ⟨-, hescape⟩ | hshorter
    · exact hescape
    · exact absurd hshorter (Nat.lt_irrefl _)
  · intro hescape
    have hdecode := decode_flatMap_escape cs
    rwa [flatMap_escape_eq_self hescape] at hdecode

/-- The string that a text begins with, and what stands behind it. -/
def read? : List Char → Option (List Char × List Char)
  | '"' :: text => do
      let (inside, rest) ← split text
      let meant ← decode inside
      return (meant, rest)
  | _ => none

/-- Between quotes a text is read as itself only if none of it would be escaped. -/
theorem read?_eq_self_iff (cs rest : List Char) :
    read? ('"' :: (cs ++ '"' :: rest)) = some (cs, rest) ↔ ∀ c ∈ cs, escape c = [c] := by
  constructor
  · intro hread
    obtain ⟨⟨inside, after⟩, hsplit, hread⟩ := Option.bind_eq_some_iff.mp hread
    obtain ⟨meant, hdecode, hread⟩ := Option.bind_eq_some_iff.mp hread
    cases hread
    obtain rfl := List.append_cancel_right (eq_append_of_split hsplit)
    exact (decode_eq_self_iff _).mp hdecode
  · intro hescape
    have hsplit := split_flatMap_escape cs rest
    rw [flatMap_escape_eq_self hescape] at hsplit
    simp [read?, hsplit, (decode_eq_self_iff cs).mpr hescape]

end Quoted

end ShapeQuery
