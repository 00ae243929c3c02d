import Mathlib.Data.List.Forall2
import ShapeQuery.Json.Token
import ShapeQuery.Predicate.Basic

/-!
# Tokens of conditions

Conditions are made of the tokens of JSON values, of parentheses and of operators.  What
stands between quotes is one token, whatever it spells.
-/

namespace ShapeQuery.Formula

/-- The parts of a condition that blanks may separate. -/
inductive Token where
  | json (token : Json.Token)
  | comparison (comparison : Comparison)
  | negation
  | conjunction
  | disjunction
  | opening
  | closing
deriving DecidableEq

/-- A name, a number or a word with a meaning. -/
def Token.word (letters : List Char) : Token := .json (.word letters)

/-- What the scanner stands in; the characters read so far come last one first. -/
inductive Scanning where
  | between
  | word (reversed : List Char)
  /-- After the first character of an operator. -/
  | operator (first : Char)
  | quoted (reversed : List Char)
  | escaped (reversed : List Char)

/-- A scanner: its state and the tokens read, last one first. -/
structure Scanner where
  state : Scanning
  tokens : List Token

def isOperator (c : Char) : Bool :=
  c ∈ ['=', '!', '<', '>', '&', '|']

def bracket? : Char → Option Token
  | '(' => some .opening
  | ')' => some .closing
  | c => (Json.punctuation? c).map .json

def twofold? : Char → Char → Option Token
  | '=', '=' => some (.comparison .equal)
  | '!', '=' => some (.comparison .notEqual)
  | '>', '=' => some (.comparison .greaterOrEqual)
  | '<', '=' => some (.comparison .lessOrEqual)
  | '&', '&' => some .conjunction
  | '|', '|' => some .disjunction
  | _, _ => none

def single? : Char → Option Token
  | '!' => some .negation
  | '>' => some (.comparison .greater)
  | '<' => some (.comparison .less)
  | _ => none

def endsWord (c : Char) : Bool :=
  Json.isBlank c || c == '"' || isOperator c || (bracket? c).isSome

def Scanner.start (tokens : List Token) (c : Char) : Scanner :=
  if Json.isBlank c then ⟨.between, tokens⟩
  else if c = '"' then ⟨.quoted [], tokens⟩
  else if isOperator c then ⟨.operator c, tokens⟩
  else
    match bracket? c with
    | some token => ⟨.between, token :: tokens⟩
    | none => ⟨.word [c], tokens⟩

def Scanner.step (scanner : Scanner) (c : Char) : Option Scanner :=
  match scanner.state with
  | .between => some (.start scanner.tokens c)
  | .word letters =>
      if endsWord c then some (.start (.word letters.reverse :: scanner.tokens) c)
      else some { scanner with state := .word (c :: letters) }
  | .operator first =>
      match twofold? first c with
      | some token => some ⟨.between, token :: scanner.tokens⟩
      | none => (single? first).map fun token => .start (token :: scanner.tokens) c
  | .quoted letters =>
      if c = '"' then
        (Quoted.decode letters.reverse).map fun value =>
          ⟨.between, .json (.string (String.ofList value)) :: scanner.tokens⟩
      else if c = '\\' then some { scanner with state := .escaped (c :: letters) }
      else some { scanner with state := .quoted (c :: letters) }
  | .escaped letters => some { scanner with state := .quoted (c :: letters) }

/-- The tokens once the text has ended, which may not be inside a string. -/
def Scanner.finish (scanner : Scanner) : Option (List Token) :=
  match scanner.state with
  | .between => some scanner.tokens.reverse
  | .word letters => some (.word letters.reverse :: scanner.tokens).reverse
  | .operator first => (single? first).map fun token => (token :: scanner.tokens).reverse
  | .quoted _ => none
  | .escaped _ => none

/-- Reads the rest of a text, with some tokens read before. -/
def scan (tokens : List Token) (text : List Char) : Option (List Token) :=
  (text.foldlM Scanner.step ⟨.between, tokens⟩).bind Scanner.finish

def tokens? (text : List Char) : Option (List Token) := scan [] text

/-- Nothing of what follows can still belong to a word. -/
def Stops (rest : List Char) : Prop :=
  ∀ c ∈ rest.head?, endsWord c = true

/-- The text is scanned as the tokens, whatever follows it. -/
def ScansAlone (text : List Char) (tokens : List Token) : Prop :=
  ∀ held rest, scan held (text ++ rest) = scan (tokens.reverse ++ held) rest

/-- The text is scanned as the tokens if no word goes on behind it. -/
def Scans (text : List Char) (tokens : List Token) : Prop :=
  ∀ held rest, Stops rest → scan held (text ++ rest) = scan (tokens.reverse ++ held) rest

variable {text text' separator : List Char} {tokens tokens' between : List Token}

theorem ScansAlone.scans (htext : ScansAlone text tokens) : Scans text tokens :=
  fun held rest _ => htext held rest

theorem ScansAlone.append (htext : ScansAlone text tokens) (htext' : ScansAlone text' tokens') :
    ScansAlone (text ++ text') (tokens ++ tokens') := by
  intro held rest
  rw [List.append_assoc, htext, htext', List.reverse_append, List.append_assoc]

theorem ScansAlone.append_scans (htext : ScansAlone text tokens) (htext' : Scans text' tokens') :
    Scans (text ++ text') (tokens ++ tokens') := by
  intro held rest hrest
  rw [List.append_assoc, htext, htext' _ _ hrest, List.reverse_append, List.append_assoc]

/-- A word is over where the next text starts with something that ends words. -/
theorem Scans.append_alone (htext : Scans text tokens) (htext' : ScansAlone text' tokens')
    (hstops : Stops text') (hne : text' ≠ []) :
    ScansAlone (text ++ text') (tokens ++ tokens') := by
  intro held rest
  have hrest : Stops (text' ++ rest) := by
    obtain ⟨first, more, rfl⟩ := List.exists_cons_of_ne_nil hne
    exact hstops
  rw [List.append_assoc, htext _ _ hrest, htext', List.reverse_append, List.append_assoc]

/-- Texts with a separator between them are scanned as their tokens with the tokens of the
separator between them. -/
theorem scans_intercalate {texts : List (List Char)} {tokenLists : List (List Token)}
    (htexts : List.Forall₂ Scans texts tokenLists) (hseparator : ScansAlone separator between)
    (hstops : Stops separator) (hne : separator ≠ []) :
    Scans (separator.intercalate texts) (between.intercalate tokenLists) := by
  induction htexts with
  | nil => exact fun held rest _ => rfl
  | @cons text tokens texts tokenLists htext htexts ih =>
      cases htexts with
      | nil => simpa using htext
      | @cons next nextTokens texts tokenLists hnext htexts =>
          rw [List.intercalate_cons_cons, List.intercalate_cons_cons]
          exact (htext.append_alone hseparator hstops hne).append_scans ih

theorem tokens?_eq_some (htext : Scans text tokens) :
    tokens? text = some tokens := by
  have hscan := htext [] [] (fun c hc => absurd hc (by simp))
  rw [List.append_nil, List.append_nil] at hscan
  rw [tokens?, hscan]
  simp [scan, Scanner.finish]

end ShapeQuery.Formula
