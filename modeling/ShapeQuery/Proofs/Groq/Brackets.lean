import ShapeQuery.Json.Text
import ShapeQuery.Proofs.Json.Tokens
import ShapeQuery.Proofs.Text.Framing

/-!
# Brackets of query text

A scanner that takes quoted strings as they come finds for every opening bracket the one
that closes it.  Well-bracketed texts may be joined and put in brackets, and the text between
two brackets ends where the first unmatched closer stands.  The text of a JSON value is
well-bracketed whatever its strings hold.
-/

namespace ShapeQuery

namespace Brackets

/-- Where the scanner stands: outside of strings, in one, or behind a backslash in one. -/
inductive Place where
  | outside
  | quoted
  | escaped
deriving DecidableEq

/-- A scanner: its place, and the closers of the open brackets, the innermost one first. -/
structure Scanner where
  place : Place
  awaited : List Char
deriving DecidableEq

def closer? : Char → Option Char
  | '(' => some ')'
  | '[' => some ']'
  | '\x7b' => some '\x7d'
  | _ => none

def isCloser (c : Char) : Bool := c ∈ [')', ']', '\x7d']

/-- Reads a closer, which has to be the one that is awaited. -/
def close? (c : Char) : List Char → Option Scanner
  | [] => none
  | closer :: rest => if c = closer then some ⟨.outside, rest⟩ else none

def readOutside (awaited : List Char) (c : Char) : Option Scanner :=
  if c = '"' then some ⟨.quoted, awaited⟩
  else
    match closer? c with
    | some closer => some ⟨.outside, closer :: awaited⟩
    | none => if isCloser c then close? c awaited else some ⟨.outside, awaited⟩

def Scanner.step (scanner : Scanner) (c : Char) : Option Scanner :=
  match scanner.place with
  | .outside => readOutside scanner.awaited c
  | .quoted =>
      if c = '"' then some { scanner with place := .outside }
      else if c = '\\' then some { scanner with place := .escaped }
      else some scanner
  | .escaped => some { scanner with place := .quoted }

def Scanner.inside (outer : List Char) (scanner : Scanner) : Scanner :=
  { scanner with awaited := scanner.awaited ++ outer }

/-- Characters that the scanner passes over, in strings and outside of them. -/
def IsOrdinary (c : Char) : Prop :=
  c ∉ ['"', '\\', '(', ')', '[', ']', '\x7b', '\x7d']

instance : DecidablePred IsOrdinary := fun c =>
  inferInstanceAs (Decidable (c ∉ ['"', '\\', '(', ')', '[', ']', '\x7b', '\x7d']))

/-- The text leaves all brackets as it finds them, and stands outside of strings at its end. -/
def Passes (text : List Char) : Prop :=
  ∀ awaited, text.foldlM Scanner.step ⟨.outside, awaited⟩ = some ⟨.outside, awaited⟩

end Brackets

/-- Every bracket is closed by its partner, and every string is ended. -/
def WellBracketed (text : String) : Prop :=
  text.toList.foldlM Brackets.Scanner.step ⟨.outside, []⟩ = some ⟨.outside, []⟩

namespace Brackets

variable {scanner next : Scanner} {text before inside first second rest rest' : List Char}
  {c closer : Char}

theorem close?_inside {awaited : List Char} (hclose : close? c awaited = some next)
    (outer : List Char) : close? c (awaited ++ outer) = some (next.inside outer) := by
  cases awaited with
  | nil => cases hclose
  | cons closer rest =>
      simp only [close?, List.cons_append] at hclose ⊢
      split_ifs at hclose ⊢
      obtain rfl := Option.some.inj hclose
      rfl

theorem readOutside_inside {awaited : List Char} (hread : readOutside awaited c = some next)
    (outer : List Char) : readOutside (awaited ++ outer) c = some (next.inside outer) := by
  unfold readOutside at hread ⊢
  by_cases hquote : c = '"'
  · rw [if_pos hquote] at hread ⊢
    obtain rfl := Option.some.inj hread
    rfl
  · rw [if_neg hquote] at hread ⊢
    cases hopen : closer? c with
    | some closer =>
        rw [hopen] at hread
        obtain rfl := Option.some.inj hread
        rfl
    | none =>
        simp only [hopen] at hread ⊢
        split_ifs at hread ⊢
        · exact close?_inside hread outer
        · obtain rfl := Option.some.inj hread
          rfl

theorem Scanner.step_inside (hstep : scanner.step c = some next) (outer : List Char) :
    (scanner.inside outer).step c = some (next.inside outer) := by
  obtain ⟨place, awaited⟩ := scanner
  cases place with
  | outside => exact readOutside_inside hstep outer
  | quoted =>
      simp only [Scanner.inside, step] at hstep ⊢
      split_ifs at hstep ⊢ <;> (obtain rfl := Option.some.inj hstep; rfl)
  | escaped =>
      obtain rfl := Option.some.inj hstep
      rfl

/-- A text that closes no bracket from outside is scanned alike within any brackets. -/
theorem Scanner.foldlM_inside (hfold : text.foldlM Scanner.step scanner = some next)
    (outer : List Char) :
    text.foldlM Scanner.step (scanner.inside outer) = some (next.inside outer) := by
  induction text generalizing scanner with
  | nil =>
      obtain rfl := Option.some.inj hfold
      rfl
  | cons c text ih =>
      rw [List.foldlM_cons] at hfold
      obtain ⟨middle, hstep, hrest⟩ := Option.bind_eq_some_iff.mp hfold
      rw [foldlM_cons_of_eq_some (Scanner.step_inside hstep outer), ih hrest]

/-- What is well-bracketed by itself is so between any brackets. -/
theorem wellBracketed_iff_passes {text : String} : WellBracketed text ↔ Passes text.toList :=
  ⟨fun htext awaited => Scanner.foldlM_inside htext awaited, fun htext => htext []⟩

/-! ## Texts put together -/

theorem passes_nil : Passes [] := fun _ => rfl

theorem Passes.append (hfirst : Passes first) (hsecond : Passes second) :
    Passes (first ++ second) := fun awaited => by
  rw [foldlM_append_of_eq_some (hfirst awaited), hsecond]

/-- Only behind a backslash does an ordinary character change where the scanner stands. -/
theorem step_ordinary (hc : IsOrdinary c) (hplace : scanner.place ≠ .escaped) :
    scanner.step c = some scanner := by
  obtain ⟨place, awaited⟩ := scanner
  simp only [IsOrdinary, List.mem_cons, List.not_mem_nil, or_false, not_or] at hc
  obtain ⟨hquote, hslash, hother⟩ := hc
  cases place with
  | outside =>
      have hopen : closer? c = none := by
        unfold closer?
        split <;> simp_all
      have hclose : isCloser c = false := by simp [isCloser, hother]
      simp [Scanner.step, readOutside, hquote, hopen, hclose]
  | quoted => simp [Scanner.step, hquote, hslash]
  | escaped => exact absurd rfl hplace

theorem foldlM_ordinary (htext : ∀ c ∈ text, IsOrdinary c) (hplace : scanner.place ≠ .escaped) :
    text.foldlM Scanner.step scanner = some scanner := by
  induction text with
  | nil => rfl
  | cons c text ih =>
      obtain ⟨hc, htext⟩ := List.forall_mem_cons.mp htext
      rw [foldlM_cons_of_eq_some (step_ordinary hc hplace), ih htext]

theorem passes_ordinary (htext : ∀ c ∈ text, IsOrdinary c) : Passes text :=
  fun awaited => foldlM_ordinary htext (by simp)

theorem readOutside_opening (hopen : closer? c = some closer) (awaited : List Char) :
    readOutside awaited c = some ⟨.outside, closer :: awaited⟩ := by
  have hquote : c ≠ '"' := by
    rintro rfl
    cases hopen
  simp [readOutside, hquote, hopen]

theorem readOutside_closer (hclose : isCloser c = true) (awaited : List Char) :
    readOutside awaited c = close? c awaited := by
  have hmem : c ∈ [')', ']', '\x7d'] := by simpa [isCloser] using hclose
  have hopen : closer? c = none := by
    simp only [List.mem_cons, List.not_mem_nil, or_false] at hmem
    rcases hmem with rfl | rfl | rfl <;> rfl
  have hquote : c ≠ '"' := by
    rintro rfl
    exact absurd hmem (by decide)
  simp [readOutside, hquote, hopen, hclose]

theorem isCloser_of_closer? (hopen : closer? c = some closer) : isCloser closer = true := by
  unfold closer? at hopen
  split at hopen <;> first | (obtain rfl := Option.some.inj hopen; rfl) | cases hopen

/-- A bracket and its closer around a text that leaves the brackets as they are. -/
theorem Passes.enclosed (hinside : Passes inside) (hopen : closer? c = some closer) :
    Passes (c :: (inside ++ [closer])) := fun awaited => by
  have hclose : Scanner.step ⟨.outside, closer :: awaited⟩ closer = some ⟨.outside, awaited⟩ := by
    simp [Scanner.step, readOutside_closer (isCloser_of_closer? hopen), close?]
  rw [foldlM_cons_of_eq_some (readOutside_opening hopen awaited),
    foldlM_append_of_eq_some (hinside _), foldlM_cons_of_eq_some hclose]
  rfl

theorem passes_intercalate {separator : List Char} {texts : List (List Char)}
    (hseparator : Passes separator) (htexts : ∀ text ∈ texts, Passes text) :
    Passes (separator.intercalate texts) := by
  induction texts with
  | nil => exact passes_nil
  | cons text rest ih =>
      obtain ⟨htext, hrest⟩ := List.forall_mem_cons.mp htexts
      cases rest with
      | nil => simpa using htext
      | cons next rest =>
          rw [List.intercalate_cons_cons]
          exact (htext.append hseparator).append (ih hrest)

/-! ## Strings -/

theorem foldlM_plain (htext : ∀ c ∈ text, Quoted.IsPlain c) (awaited : List Char) :
    text.foldlM Scanner.step ⟨.quoted, awaited⟩ = some ⟨.quoted, awaited⟩ := by
  induction text with
  | nil => rfl
  | cons c text ih =>
      obtain ⟨⟨hquote, hslash⟩, htext⟩ := List.forall_mem_cons.mp htext
      have hstep : Scanner.step ⟨.quoted, awaited⟩ c = some ⟨.quoted, awaited⟩ := by
        simp [Scanner.step, hquote, hslash]
      rw [foldlM_cons_of_eq_some hstep, ih htext]

/-- No escape ends the string that it stands in. -/
theorem foldlM_flatMap_escape (letters awaited : List Char) :
    (letters.flatMap Quoted.escape).foldlM Scanner.step ⟨.quoted, awaited⟩ =
      some ⟨.quoted, awaited⟩ := by
  induction letters with
  | nil => rfl
  | cons c letters ih =>
      rw [List.flatMap_cons]
      rcases Quoted.escape_cases c with ⟨hc, hescape⟩ | ⟨letter, more, hescape, hmore⟩
      · have hone : [c].foldlM Scanner.step ⟨.quoted, awaited⟩ = some ⟨.quoted, awaited⟩ :=
          foldlM_plain (by simpa using hc) awaited
        rw [hescape, foldlM_append_of_eq_some hone, ih]
      · have hpair : ['\\', letter].foldlM Scanner.step ⟨.quoted, awaited⟩ =
            some ⟨.quoted, awaited⟩ := rfl
        have hsplit : '\\' :: letter :: more = ['\\', letter] ++ more := rfl
        rw [hescape, hsplit, List.append_assoc, foldlM_append_of_eq_some hpair,
          foldlM_append_of_eq_some (foldlM_plain hmore awaited), ih]

/-- What stays inside a string may hold any brackets. -/
theorem passes_between_quotes
    (hinside : ∀ awaited, inside.foldlM Scanner.step ⟨.quoted, awaited⟩ =
      some ⟨.quoted, awaited⟩) : Passes ('"' :: (inside ++ ['"'])) := fun awaited => by
  have hopen : Scanner.step ⟨.outside, awaited⟩ '"' = some ⟨.quoted, awaited⟩ := rfl
  rw [foldlM_cons_of_eq_some hopen, foldlM_append_of_eq_some (hinside awaited)]
  rfl

/-- A quoted string is opaque, whatever it holds. -/
theorem passes_quoted (s : String) : Passes (Quoted.encode s).toList := by
  rw [Quoted.encode, String.toList_ofList]
  exact passes_between_quotes (foldlM_flatMap_escape s.toList)

/-! ## Where a text ends -/

/-- A closer behind a text whose own brackets are closed has no partner. -/
theorem Passes.not_append_closer (hfirst : Passes first) (hclose : isCloser c = true) :
    ¬Passes (first ++ c :: rest) := by
  intro hlonger
  have hfold := hlonger []
  have hstep : Scanner.step ⟨.outside, []⟩ c = none := by
    simp [Scanner.step, readOutside_closer hclose, close?]
  rw [foldlM_append_of_eq_some (hfirst []), List.foldlM_cons, hstep] at hfold
  cases hfold

/-- A text cannot go on with a closer, since that would be unmatched. -/
theorem Passes.eq_nil_of_closer_eq {more : List Char} (hfirst : Passes first)
    (hlonger : Passes (first ++ more)) (hclose : isCloser c = true)
    (hmore : c :: rest = more ++ c :: rest') : more = [] := by
  cases more with
  | nil => rfl
  | cons head more =>
      obtain rfl := (List.cons.inj hmore).1
      exact absurd hlonger (hfirst.not_append_closer hclose)

/-- The text before the first unmatched closer is determined by the text that it begins. -/
theorem Passes.append_closer_inj (hfirst : Passes first) (hsecond : Passes second)
    (hclose : isCloser c = true) (heq : first ++ c :: rest = second ++ c :: rest') :
    first = second ∧ rest = rest' := by
  have htexts : first = second := by
    rcases List.append_eq_append_iff.mp heq with ⟨more, rfl, hmore⟩ | ⟨more, rfl, hmore⟩
    · rw [hfirst.eq_nil_of_closer_eq hsecond hclose hmore, List.append_nil]
    · rw [hsecond.eq_nil_of_closer_eq hfirst hclose hmore, List.append_nil]
  subst htexts
  exact ⟨rfl, (List.cons.inj (List.append_cancel_left heq)).2⟩

/-- A bracket that only ordinary characters follow is not closed, and a string in which it
stands is not ended. -/
theorem not_passes_append_opening (hopen : closer? c = some closer)
    (htext : ∀ c ∈ text, IsOrdinary c) : ¬Passes (before ++ c :: text) := by
  intro hpasses
  have hfold := hpasses []
  rw [List.foldlM_append] at hfold
  obtain ⟨⟨place, awaited⟩, -, hafter⟩ := Option.bind_eq_some_iff.mp hfold
  -- Behind the bracket it is open, or a string is; ordinary characters change neither.
  have hquote : c ≠ '"' ∧ c ≠ '\\' := by
    constructor <;>
      · rintro rfl
        cases hopen
  have hstep : ∃ next, Scanner.step ⟨place, awaited⟩ c = some next ∧
      next.place ≠ .escaped ∧ next ≠ ⟨.outside, []⟩ := by
    cases place with
    | outside => exact ⟨_, readOutside_opening hopen awaited, by simp, by simp⟩
    | quoted => exact ⟨⟨.quoted, awaited⟩, by simp [Scanner.step, hquote], by simp, by simp⟩
    | escaped => exact ⟨⟨.quoted, awaited⟩, rfl, by simp, by simp⟩
  obtain ⟨next, hnext, hplace, hopened⟩ := hstep
  rw [foldlM_cons_of_eq_some hnext, foldlM_ordinary htext hplace] at hafter
  exact hopened (Option.some.inj hafter)

end Brackets

open Brackets

/-! ## Texts as strings -/

section Strings

variable {first second text key separator : String} {texts : List String}

instance (text : String) : Decidable (WellBracketed text) :=
  inferInstanceAs (Decidable (_ = _))

theorem WellBracketed.append (hfirst : WellBracketed first) (hsecond : WellBracketed second) :
    WellBracketed (first ++ second) := by
  rw [wellBracketed_iff_passes, String.toList_append]
  exact (wellBracketed_iff_passes.mp hfirst).append (wellBracketed_iff_passes.mp hsecond)

theorem wellBracketed_ordinary (htext : ∀ c ∈ text.toList, IsOrdinary c) : WellBracketed text :=
  wellBracketed_iff_passes.mpr (passes_ordinary htext)

/-- Whatever a string spells, its brackets do not count. -/
theorem wellBracketed_quoted (s : String) : WellBracketed (Quoted.encode s) :=
  wellBracketed_iff_passes.mpr (passes_quoted s)

/-- A key without quotes and backslashes may be put in quotes as it is. -/
theorem wellBracketed_between_quotes (hkey : ∀ c ∈ key.toList, IsOrdinary c) :
    WellBracketed ("\"" ++ key ++ "\"") := by
  have hletters : ("\"" ++ key ++ "\"").toList = '"' :: (key.toList ++ ['"']) := by simp
  rw [wellBracketed_iff_passes, hletters]
  exact passes_between_quotes fun awaited => foldlM_ordinary hkey (by simp)

theorem WellBracketed.parenthesized (htext : WellBracketed text) :
    WellBracketed ("(" ++ text ++ ")") := by
  have hletters : ("(" ++ text ++ ")").toList = '(' :: (text.toList ++ [')']) := by simp
  rw [wellBracketed_iff_passes, hletters]
  exact (wellBracketed_iff_passes.mp htext).enclosed rfl

theorem WellBracketed.bracketed (htext : WellBracketed text) :
    WellBracketed ("[" ++ text ++ "]") := by
  have hletters : ("[" ++ text ++ "]").toList = '[' :: (text.toList ++ [']']) := by simp
  rw [wellBracketed_iff_passes, hletters]
  exact (wellBracketed_iff_passes.mp htext).enclosed rfl

theorem WellBracketed.braced (htext : WellBracketed text) :
    WellBracketed ("\x7b" ++ text ++ "\x7d") := by
  have hletters : ("\x7b" ++ text ++ "\x7d").toList = '\x7b' :: (text.toList ++ ['\x7d']) := by
    simp
  rw [wellBracketed_iff_passes, hletters]
  exact (wellBracketed_iff_passes.mp htext).enclosed rfl

theorem wellBracketed_intercalate (hseparator : WellBracketed separator)
    (htexts : ∀ text ∈ texts, WellBracketed text) :
    WellBracketed (separator.intercalate texts) := by
  rw [wellBracketed_iff_passes, String.toList_intercalate]
  refine passes_intercalate (wellBracketed_iff_passes.mp hseparator) fun letters hletters => ?_
  obtain ⟨text, htext, rfl⟩ := List.mem_map.mp hletters
  exact wellBracketed_iff_passes.mp (htexts text htext)

end Strings

/-! ## JSON values -/

theorem isOrdinary_of_isAlphanum {c : Char} (hc : c.isAlphanum = true) : IsOrdinary c := by
  unfold IsOrdinary
  intro hmem
  simp only [List.mem_cons, List.not_mem_nil, or_false] at hmem
  rcases hmem with rfl | rfl | rfl | rfl | rfl | rfl | rfl | rfl <;> exact absurd hc (by decide)

theorem isOrdinary_of_isDigit {c : Char} (hc : c.isDigit = true) : IsOrdinary c :=
  isOrdinary_of_isAlphanum (by simp [Char.isAlphanum, hc])

/-- The text of a value is well-bracketed. -/
theorem Json.wellBracketed_text (value : Json) : WellBracketed value.text := by
  induction value using Json.induction with
  | null => decide
  | bool truth => cases truth <;> decide
  | number number =>
      refine wellBracketed_ordinary fun c hc => ?_
      rcases Number.mem_text hc with hdigit | hmark
      · exact isOrdinary_of_isDigit hdigit
      · simp only [List.mem_cons, List.not_mem_nil, or_false] at hmark
        rcases hmark with rfl | rfl | rfl | rfl <;> decide
  | string text => exact wellBracketed_quoted text
  | array items ih =>
      refine (wellBracketed_intercalate (by decide) fun text htext => ?_).bracketed
      rw [itemTexts_eq_map] at htext
      obtain ⟨item, hitem, rfl⟩ := List.mem_map.mp htext
      exact ih item hitem
  | object fields ih =>
      refine (wellBracketed_intercalate (by decide) fun text htext => ?_).braced
      rw [fieldTexts_eq_map] at htext
      obtain ⟨field, hfield, rfl⟩ := List.mem_map.mp htext
      have hcolon : WellBracketed ":" := by decide
      exact ((wellBracketed_quoted field.1).append hcolon).append (ih field hfield)

end ShapeQuery
