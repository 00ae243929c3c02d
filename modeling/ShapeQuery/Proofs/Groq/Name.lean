import Mathlib

/-!
# Names of the query language

A name is a path of identifiers.  A few words that would be identifiers have a meaning of
their own and are no names.
-/

namespace ShapeQuery

/-- A letter or an underscore, and then letters, digits and underscores. -/
def isIdentifier : List Char → Bool
  | [] => false
  | first :: rest => (first.isAlpha || first == '_') && rest.all fun c => c.isAlphanum || c == '_'

def isPath (letters : List Char) : Bool :=
  (letters.splitOn '.').all isIdentifier

def reservedWords : List (List Char) :=
  ["true".toList, "false".toList, "null".toList, "in".toList, "match".toList]

/-- Identifiers with points between them that are no word of the language. -/
def isName (letters : List Char) : Bool :=
  (letters.splitOn '.').all isIdentifier && !(letters ∈ reservedWords)

variable {letters : List Char}

theorem exists_cons_of_isIdentifier (hletters : isIdentifier letters = true) :
    ∃ first rest, letters = first :: rest ∧ (first.isAlpha = true ∨ first = '_') ∧
      ∀ c ∈ rest, c.isAlphanum = true ∨ c = '_' := by
  match letters, hletters with
  | first :: rest, hletters => exact ⟨first, rest, rfl, by simpa [isIdentifier] using hletters⟩

theorem isAlphanum_of_mem_identifier (hletters : isIdentifier letters = true) :
    ∀ c ∈ letters, c.isAlphanum = true ∨ c = '_' := by
  obtain ⟨first, rest, rfl, hfirst, hrest⟩ := exists_cons_of_isIdentifier hletters
  intro c hc
  rcases List.mem_cons.mp hc with rfl | hc
  · exact hfirst.imp_left fun halpha => by simp [Char.isAlphanum, halpha]
  · exact hrest c hc

theorem isPath_of_isName (hname : isName letters = true) : isPath letters = true := by
  rw [isName, Bool.and_eq_true] at hname
  exact hname.1

/-- The points of a path stand between identifiers. -/
theorem identifiers_of_isPath (hpath : isPath letters = true) :
    ∀ identifier ∈ letters.splitOn '.', isIdentifier identifier = true :=
  List.all_eq_true.mp hpath

theorem not_reserved_of_isName (hname : isName letters = true) : letters ∉ reservedWords := by
  rw [isName, Bool.and_eq_true] at hname
  simpa using hname.2

theorem isDigit_eq_false_of_isAlpha {c : Char} (hc : c.isAlpha = true) : c.isDigit = false := by
  simp only [Char.isAlpha, Char.isUpper, Char.isLower, Bool.or_eq_true, Bool.and_eq_true,
    decide_eq_true_eq, UInt32.le_iff_toNat_le, ge_iff_le] at hc
  rw [← Bool.not_eq_true]
  simp only [Char.isDigit, Bool.and_eq_true, decide_eq_true_eq, UInt32.le_iff_toNat_le, ge_iff_le]
  simp at hc ⊢
  omega

/-- Paths start with a letter or an underscore. -/
theorem exists_cons_of_isPath (hpath : isPath letters = true) :
    ∃ first rest, letters = first :: rest ∧ (first.isAlpha = true ∨ first = '_') := by
  have hidentifiers := identifiers_of_isPath hpath
  have hletters : ['.'].intercalate (letters.splitOn '.') = letters := List.intercalate_splitOn '.'
  obtain ⟨identifier, others, hsplit⟩ :=
    List.exists_cons_of_ne_nil (List.splitOn_ne_nil '.' letters)
  rw [hsplit] at hidentifiers hletters
  obtain ⟨first, rest, rfl, hfirst, -⟩ :=
    exists_cons_of_isIdentifier (hidentifiers identifier List.mem_cons_self)
  refine ⟨first, letters.tail, ?_, hfirst⟩
  rw [← hletters]
  cases others with
  | nil => rfl
  | cons next others => rfl

theorem exists_cons_of_isName (hname : isName letters = true) :
    ∃ first rest, letters = first :: rest ∧ (first.isAlpha = true ∨ first = '_') :=
  exists_cons_of_isPath (isPath_of_isName hname)

theorem mem_intercalate {separator c : Char} {lists : List (List Char)}
    (hc : c ∈ [separator].intercalate lists) : c = separator ∨ ∃ list ∈ lists, c ∈ list := by
  induction lists with
  | nil => exact absurd hc List.not_mem_nil
  | cons list rest ih =>
      cases rest with
      | nil => exact .inr ⟨list, List.mem_cons_self, by simpa using hc⟩
      | cons next rest =>
          rw [List.intercalate_cons_cons, List.mem_append, List.mem_append,
            List.mem_singleton] at hc
          rcases hc with (hc | rfl) | hc
          · exact .inr ⟨list, List.mem_cons_self, hc⟩
          · exact .inl rfl
          · exact (ih hc).imp_right fun ⟨other, hother, hmem⟩ =>
              ⟨other, List.mem_cons_of_mem _ hother, hmem⟩

/-- The characters of a path. -/
theorem isAlphanum_of_mem_path (hpath : isPath letters = true) :
    ∀ c ∈ letters, c.isAlphanum = true ∨ c = '_' ∨ c = '.' := by
  intro c hc
  have hletters : ['.'].intercalate (letters.splitOn '.') = letters := List.intercalate_splitOn '.'
  rw [← hletters] at hc
  rcases mem_intercalate hc with rfl | ⟨identifier, hidentifier, hmem⟩
  · exact .inr (.inr rfl)
  · have hall := isAlphanum_of_mem_identifier (identifiers_of_isPath hpath _ hidentifier)
    exact (hall c hmem).imp_right .inl

/-- Names are spelled with letters, digits, underscores and points. -/
theorem isAlphanum_of_mem_name (hname : isName letters = true) :
    ∀ c ∈ letters, c.isAlphanum = true ∨ c = '_' ∨ c = '.' :=
  isAlphanum_of_mem_path (isPath_of_isName hname)

end ShapeQuery
