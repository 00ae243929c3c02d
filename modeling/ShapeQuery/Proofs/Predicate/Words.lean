import ShapeQuery.Json.Text
import ShapeQuery.Proofs.Groq.Name
import ShapeQuery.Proofs.Json.Tokens
import ShapeQuery.Proofs.Predicate.Scanner
import ShapeQuery.Proofs.Text.Framing

/-!
# Scanning words, strings and values

Names and numbers are single words, and a quoted string is one token whatever it holds.
So the text of a value is scanned as the tokens of the value.
-/

namespace ShapeQuery.Formula

variable {letters : List Char} {c : Char}

theorem endsWord_eq_true_iff :
    endsWord c = true ↔ c ∈ [' ', '\n', '\t', '\r', '"', '=', '!', '<', '>', '&', '|', '(', ')',
      '[', ']', '\x7b', '\x7d', ',', ':'] := by
  have hbracket : (bracket? c).isSome = true ↔
      c ∈ ['(', ')', '[', ']', '\x7b', '\x7d', ',', ':'] := by
    unfold bracket? Json.punctuation?
    constructor
    · intro hsome
      split at hsome
      · decide
      · decide
      · split at hsome <;> first | decide | exact absurd hsome (by simp)
    · intro hmem
      simp only [List.mem_cons, List.not_mem_nil, or_false] at hmem
      rcases hmem with rfl | rfl | rfl | rfl | rfl | rfl | rfl | rfl <;> rfl
  simp only [endsWord, Json.isBlank, isOperator, Bool.or_eq_true, beq_iff_eq, decide_eq_true_eq,
    hbracket, List.mem_cons, List.not_mem_nil, or_false, or_assoc]

theorem endsWord_eq_false (hc : c.isAlphanum = true ∨ c ∈ ['_', '.', '$', '+', '-']) :
    endsWord c = false := by
  rw [← Bool.not_eq_true, endsWord_eq_true_iff]
  intro hends
  simp only [List.mem_cons, List.not_mem_nil, or_false] at hends
  rcases hends with rfl | rfl | rfl | rfl | rfl | rfl | rfl | rfl | rfl | rfl | rfl | rfl | rfl |
    rfl | rfl | rfl | rfl | rfl | rfl <;>
    exact absurd hc (by decide)

theorem start_of_endsWord_eq_false (hc : endsWord c = false) (tokens : List Token) :
    Scanner.start tokens c = ⟨.word [c], tokens⟩ := by
  simp only [endsWord, Bool.or_eq_false_iff, beq_eq_false_iff_ne, Option.isSome_eq_false_iff,
    Option.isNone_iff_eq_none] at hc
  obtain ⟨⟨⟨hblank, hquote⟩, hoperator⟩, hbracket⟩ := hc
  simp [Scanner.start, hblank, hquote, hoperator, hbracket]

theorem foldlM_word (hletters : ∀ c ∈ letters, endsWord c = false) (before : List Char)
    (tokens : List Token) :
    letters.foldlM Scanner.step ⟨.word before, tokens⟩ =
      some ⟨.word (letters.reverse ++ before), tokens⟩ := by
  induction letters generalizing before with
  | nil => rfl
  | cons c rest ih =>
      obtain ⟨hc, hrest⟩ := List.forall_mem_cons.mp hletters
      have hstep : Scanner.step ⟨.word before, tokens⟩ c = some ⟨.word (c :: before), tokens⟩ := by
        simp [Scanner.step, hc]
      rw [foldlM_cons_of_eq_some hstep, ih hrest, List.reverse_cons, List.append_assoc]
      rfl

/-- Characters of which none ends a word are one word. -/
theorem scans_word (hne : letters ≠ []) (hletters : ∀ c ∈ letters, endsWord c = false) :
    Scans letters [.word letters] := by
  obtain ⟨first, more, rfl⟩ := List.exists_cons_of_ne_nil hne
  obtain ⟨hfirst, hmore⟩ := List.forall_mem_cons.mp hletters
  intro held rest hrest
  have hword : (first :: more).foldlM Scanner.step ⟨.between, held⟩ =
      some ⟨.word (first :: more).reverse, held⟩ := by
    have hstep : Scanner.step ⟨.between, held⟩ first = some ⟨.word [first], held⟩ :=
      congrArg some (start_of_endsWord_eq_false hfirst held)
    rw [foldlM_cons_of_eq_some hstep, foldlM_word hmore, List.reverse_cons]
  rw [scan, foldlM_append_of_eq_some hword]
  cases rest with
  | nil => simp [scan, Scanner.finish]
  | cons c rest =>
      have hc : endsWord c = true := hrest c rfl
      have hstep : Scanner.step ⟨.word (first :: more).reverse, held⟩ c =
          Scanner.step ⟨.between, .word (first :: more) :: held⟩ c := by
        simp [Scanner.step, hc]
      rw [scan, List.foldlM_cons, List.foldlM_cons, hstep]
      rfl

/-- A keyword is a word. -/
theorem scans_keyword (hletters : letters.isEmpty = false ∧ letters.all Char.isAlphanum = true) :
    Scans letters [.word letters] := by
  refine scans_word (by simpa using hletters.1) fun c hc => endsWord_eq_false ?_
  exact .inl (List.all_eq_true.mp hletters.2 c hc)

theorem endsWord_eq_false_of_mem_name (hname : isName letters = true) :
    ∀ c ∈ letters, endsWord c = false := by
  intro c hc
  apply endsWord_eq_false
  rcases isAlphanum_of_mem_name hname c hc with hc | rfl | rfl
  · exact .inl hc
  · exact .inr (by decide)
  · exact .inr (by decide)

/-- A name is a word, and so is the name of a parameter with its mark. -/
theorem scans_name (hname : isName letters = true) : Scans letters [.word letters] := by
  obtain ⟨first, rest, hletters, -⟩ := exists_cons_of_isName hname
  exact scans_word (by simp [hletters]) (endsWord_eq_false_of_mem_name hname)

theorem scans_parameter (hname : isName letters = true) :
    Scans ('$' :: letters) [.word ('$' :: letters)] := by
  have hmark : endsWord '$' = false := endsWord_eq_false (.inr (by decide))
  apply scans_word (by simp)
  exact List.forall_mem_cons.mpr ⟨hmark, endsWord_eq_false_of_mem_name hname⟩

theorem foldlM_plain (hletters : ∀ c ∈ letters, Quoted.IsPlain c) (before : List Char)
    (tokens : List Token) :
    letters.foldlM Scanner.step ⟨.quoted before, tokens⟩ =
      some ⟨.quoted (letters.reverse ++ before), tokens⟩ := by
  induction letters generalizing before with
  | nil => rfl
  | cons c rest ih =>
      obtain ⟨⟨hquote, hslash⟩, hrest⟩ := List.forall_mem_cons.mp hletters
      have hstep : Scanner.step ⟨.quoted before, tokens⟩ c =
          some ⟨.quoted (c :: before), tokens⟩ := by
        simp [Scanner.step, hquote, hslash]
      rw [foldlM_cons_of_eq_some hstep, ih hrest, List.reverse_cons, List.append_assoc]
      rfl

theorem foldlM_escape (c : Char) (before : List Char) (tokens : List Token) :
    (Quoted.escape c).foldlM Scanner.step ⟨.quoted before, tokens⟩ =
      some ⟨.quoted ((Quoted.escape c).reverse ++ before), tokens⟩ := by
  rcases Quoted.escape_cases c with ⟨hc, hescape⟩ | ⟨letter, more, hescape, hmore⟩
  · rw [hescape]
    exact foldlM_plain (by simpa using hc) before tokens
  · have hpair : ['\\', letter].foldlM Scanner.step ⟨.quoted before, tokens⟩ =
        some ⟨.quoted (['\\', letter].reverse ++ before), tokens⟩ := rfl
    have hsplit : '\\' :: letter :: more = ['\\', letter] ++ more := rfl
    rw [hescape, hsplit, foldlM_append_of_eq_some hpair, foldlM_plain hmore,
      List.reverse_append, List.append_assoc]

theorem foldlM_flatMap_escape (cs before : List Char) (tokens : List Token) :
    (cs.flatMap Quoted.escape).foldlM Scanner.step ⟨.quoted before, tokens⟩ =
      some ⟨.quoted ((cs.flatMap Quoted.escape).reverse ++ before), tokens⟩ := by
  induction cs generalizing before with
  | nil => rfl
  | cons c cs ih =>
      rw [List.flatMap_cons, foldlM_append_of_eq_some (foldlM_escape c before tokens), ih,
        List.reverse_append, List.append_assoc]

/-- A quoted string is one token, whatever it spells. -/
theorem scansAlone_quoted (s : String) :
    ScansAlone (Quoted.encode s).toList [.json (.string s)] := by
  intro held rest
  have hstring : (Quoted.encode s).toList.foldlM Scanner.step ⟨.between, held⟩ =
      some ⟨.between, .json (.string s) :: held⟩ := by
    have hopen : Scanner.step ⟨.between, held⟩ '"' = some ⟨.quoted [], held⟩ := rfl
    have hquoted := foldlM_flatMap_escape s.toList [] held
    rw [Quoted.encode, String.toList_ofList, List.cons_append, foldlM_cons_of_eq_some hopen,
      foldlM_append_of_eq_some hquoted]
    simp [Scanner.step, Quoted.decode_flatMap_escape]
  rw [scan, foldlM_append_of_eq_some hstring]
  rfl

theorem scansAlone_bracket (c : Char) {token : Token} (hc : bracket? c = some token) :
    ScansAlone [c] [token] := by
  intro held rest
  have hstep : Scanner.step ⟨.between, held⟩ c = some ⟨.between, token :: held⟩ := by
    unfold bracket? Json.punctuation? at hc
    split at hc
    · obtain rfl := Option.some.inj hc
      rfl
    · obtain rfl := Option.some.inj hc
      rfl
    · split at hc <;>
        first
          | (obtain rfl := Option.some.inj hc; rfl)
          | exact absurd hc (by simp)
  rw [scan, List.singleton_append, foldlM_cons_of_eq_some hstep]
  rfl

/-- A bracket ends the last word of the text before it. -/
theorem Scans.append_bracket {text : List Char} {tokens : List Token} {token : Token}
    (htext : Scans text tokens) (c : Char) (hc : bracket? c = some token) :
    ScansAlone (text ++ [c]) (tokens ++ [token]) := by
  refine htext.append_alone (scansAlone_bracket c hc) ?_ (by simp)
  rintro _ ⟨⟩
  simp [endsWord, hc]

theorem map_intercalate {α β : Type} (f : α → β) (separator : List α) (lists : List (List α)) :
    (separator.intercalate lists).map f =
      (separator.map f).intercalate (lists.map (List.map f)) := by
  induction lists with
  | nil => rfl
  | cons list rest ih =>
      cases rest with
      | nil => simp
      | cons next rest =>
          rw [List.intercalate_cons_cons, List.map_append, List.map_append, ih, List.map_cons,
            List.map_cons, List.map_cons, List.intercalate_cons_cons]

theorem scans_items {items : List Json}
    (hitems : ∀ item ∈ items, Scans item.text.toList (item.tokens.map .json)) :
    List.Forall₂ Scans ((Json.itemTexts items).map String.toList)
      ((Json.itemTokens items).map (List.map Token.json)) := by
  induction items with
  | nil => exact .nil
  | cons item rest ih =>
      obtain ⟨hitem, hrest⟩ := List.forall_mem_cons.mp hitems
      exact .cons hitem (ih hrest)

theorem scans_fields {fields : List (String × Json)}
    (hfields : ∀ field ∈ fields, Scans field.2.text.toList (field.2.tokens.map .json)) :
    List.Forall₂ Scans ((Json.fieldTexts fields).map String.toList)
      ((Json.fieldTokens fields).map (List.map Token.json)) := by
  induction fields with
  | nil => exact .nil
  | cons field rest ih =>
      obtain ⟨key, value⟩ := field
      obtain ⟨hvalue, hrest⟩ := List.forall_mem_cons.mp hfields
      refine .cons ?_ (ih hrest)
      have hkey := (scansAlone_quoted key).append (scansAlone_bracket ':' rfl)
      rw [String.toList_append, String.toList_append]
      exact hkey.append_scans hvalue

/-- The text of a value is scanned as the tokens of the value. -/
theorem scans_json (value : Json) : Scans value.text.toList (value.tokens.map .json) := by
  have hcomma := scansAlone_bracket ',' rfl
  have hstops : Stops [','] := by
    rintro c ⟨⟩
    rfl
  induction value using Json.induction with
  | null => exact scans_keyword ⟨rfl, rfl⟩
  | bool truth => cases truth <;> exact scans_keyword ⟨rfl, rfl⟩
  | number number =>
      refine scans_word ?_ fun c hc => endsWord_eq_false ?_
      · intro hempty
        have hread := number.ofWord?_text
        rw [Json.text] at hempty
        rw [hempty] at hread
        exact absurd hread (by simp [Number.ofWord?, Number.readMagnitude])
      · rcases Number.mem_text hc with hdigit | hmark
        · exact .inl (by simp [Char.isAlphanum, hdigit])
        · simp only [List.mem_cons, List.not_mem_nil, or_false] at hmark
          rcases hmark with rfl | rfl | rfl | rfl <;> decide
  | string text => exact (scansAlone_quoted text).scans
  | array items ih =>
      have hitems := scans_intercalate (scans_items ih) hcomma hstops (by simp)
      have hboth := (scansAlone_bracket '[' rfl).append (hitems.append_bracket ']' rfl)
      rw [Json.text, String.toList_append, String.toList_append, String.toList_intercalate,
        Json.tokens, List.map_cons, List.map_append, map_intercalate]
      exact hboth.scans
  | object fields ih =>
      have hfields := scans_intercalate (scans_fields ih) hcomma hstops (by simp)
      have hboth := (scansAlone_bracket '\x7b' rfl).append
        (hfields.append_bracket '\x7d' rfl)
      rw [Json.text, String.toList_append, String.toList_append, String.toList_intercalate,
        Json.tokens, List.map_cons, List.map_append, map_intercalate]
      exact hboth.scans

end ShapeQuery.Formula
