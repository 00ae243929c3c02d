import ShapeQuery.Json.Number
import ShapeQuery.Text.Quoted

/-!
# JSON tokens

A scanner walks over the characters once.  Its state says whether it stands
between tokens, inside a bare word, or inside a quoted string, and there whether
the last character was an escaping backslash.
-/

namespace ShapeQuery.Json

/-- The parts of a JSON text that blanks may separate. -/
inductive Token where
  | openArray
  | closeArray
  | openObject
  | closeObject
  | comma
  | colon
  | string (value : String)
  | word (letters : List Char)
deriving DecidableEq, Repr

/-- What the scanner stands in; the characters read so far come last one first. -/
inductive Scanning where
  | between
  | word (reversed : List Char)
  | quoted (reversed : List Char)
  | escaped (reversed : List Char)
deriving DecidableEq, Repr

def isBlank (c : Char) : Bool :=
  c == ' ' || c == '\n' || c == '\t' || c == '\r'

def punctuation? : Char → Option Token
  | '[' => some .openArray
  | ']' => some .closeArray
  | '\x7b' => some .openObject
  | '\x7d' => some .closeObject
  | ',' => some .comma
  | ':' => some .colon
  | _ => none

/-- A scanner: its state and the tokens read, last one first. -/
structure Scanner where
  state : Scanning
  tokens : List Token
deriving DecidableEq, Repr

def Scanner.start (tokens : List Token) (c : Char) : Scanner :=
  if isBlank c then ⟨.between, tokens⟩
  else if c = '"' then ⟨.quoted [], tokens⟩
  else
    match punctuation? c with
    | some token => ⟨.between, token :: tokens⟩
    | none => ⟨.word [c], tokens⟩

def endsWord (c : Char) : Bool :=
  isBlank c || c == '"' || (punctuation? c).isSome

def Scanner.step (scanner : Scanner) (c : Char) : Option Scanner :=
  match scanner.state with
  | .between => some (.start scanner.tokens c)
  | .word letters =>
      if endsWord c then some (.start (.word letters.reverse :: scanner.tokens) c)
      else some { scanner with state := .word (c :: letters) }
  | .quoted letters =>
      if c = '"' then
        (Quoted.decode letters.reverse).map fun value =>
          ⟨.between, .string (String.ofList value) :: scanner.tokens⟩
      else if c = '\\' then some { scanner with state := .escaped (c :: letters) }
      else some { scanner with state := .quoted (c :: letters) }
  | .escaped letters => some { scanner with state := .quoted (c :: letters) }

/-- The tokens once the text has ended, which may not be inside a string. -/
def Scanner.finish (scanner : Scanner) : Option (List Token) :=
  match scanner.state with
  | .between => some scanner.tokens.reverse
  | .word letters => some (.word letters.reverse :: scanner.tokens).reverse
  | .quoted _ => none
  | .escaped _ => none

def tokens? (text : List Char) : Option (List Token) :=
  (text.foldlM Scanner.step ⟨.between, []⟩).bind Scanner.finish

end ShapeQuery.Json
