import ShapeQuery.Json.Reader
import ShapeQuery.Proofs.Groq.Name
import ShapeQuery.Proofs.Predicate.Formula
import ShapeQuery.Proofs.Predicate.Scanner

/-!
# Reading conditions

Negation binds tighter than conjunction, and conjunction tighter than disjunction;
parentheses group.  Every pair of parentheses that is still open is a level with the parts
of its disjunction, the parts of the conjunction that is being read, and the pieces of the
operand that is being read.  The arguments of a function stand in parentheses as well, but
they are tokens of the test that calls it.
-/

namespace ShapeQuery

namespace Formula

inductive Piece where
  | token (token : Token)
  | formula (formula : Formula)
  /-- The test that an attribute is present. -/
  | presence (field : String)

def comparison? : Token → Option Comparison
  | .comparison comparison => some comparison
  | .json (.word letters) =>
      if letters = "in".toList then some .elementOf
      else if letters = "match".toList then some .like
      else none
  | _ => none

def Token.json? : Token → Option Json.Token
  | .json token => some token
  | _ => none

/-- The value or the parameter that a name is compared with. -/
def operand? (tokens : List Token) : Option Operand :=
  match tokens with
  | [.json (.word ('$' :: name))] =>
      if isName name then some (.parameter (String.ofList name)) else none
  | _ => ((tokens.mapM Token.json?).bind Json.ofTokens?).map .value

def constant? : List Token → Option Formula
  | [.json (.word letters)] =>
      if letters = "true".toList then some (.constant true)
      else if letters = "false".toList then some (.constant false)
      else none
  | _ => none

/-- A name, a comparison and an operand. -/
def comparing? : List Token → Option Formula
  | .json (.word field) :: operator :: operand => do
      if isName field then
        return .compare (String.ofList field) (← comparison? operator) (← operand? operand)
      else none
  | _ => none

/-- An operand that is contained in what a name stands for. -/
def containing? (tokens : List Token) : Option Formula :=
  match tokens.reverse with
  | .json (.word field) :: .json (.word operator) :: operand =>
      if isName field ∧ operator = "in".toList then
        (operand? operand.reverse).map (.compare (String.ofList field) .contains ·)
      else none
  | _ => none

def Token.closer? : Token → Option Token
  | .opening => some .closing
  | .json .openArray => some (.json .closeArray)
  | .json .openObject => some (.json .closeObject)
  | _ => none

def Token.isCloser (token : Token) : Bool :=
  token ∈ [.closing, .json .closeArray, .json .closeObject]

/-- Whether all that is opened is closed again, and before that the closing tokens that are
awaited, innermost first. -/
def balanced : List Token → List Token → Bool
  | awaited, [] => awaited.isEmpty
  | awaited, token :: rest =>
      match token.closer? with
      | some closer => balanced (closer :: awaited) rest
      | none =>
          if token.isCloser then awaited.head? == some token && balanced awaited.tail rest
          else balanced awaited rest

/-- Operators that a test has only around it. -/
def Token.isConnective (token : Token) : Bool :=
  token ∈ [.negation, .conjunction, .disjunction]

/-- Single quotes and slashes may belong to strings and comments that the scanner does not know. -/
def Token.isClear : Token → Bool
  | .json (.word letters) => letters.all fun c => c ∉ ['\x27', '/']
  | _ => true

/-- A test of any other kind.  Its brackets are closed, and it neither begins nor ends with a
comparison. -/
def atom? (tokens : List Token) : Option Formula :=
  if tokens ≠ [] ∧ balanced [] tokens ∧
      tokens.all (fun token => !token.isConnective && token.isClear) ∧
      (tokens.head?.bind comparison?).isNone ∧ (tokens.getLast?.bind comparison?).isNone then
    some (.atom tokens)
  else none

/-- A condition without operators between conditions. -/
def test? (tokens : List Token) : Option Formula :=
  (constant? tokens).or ((comparing? tokens).or ((containing? tokens).or (atom? tokens)))

def Piece.token? : Piece → Option Token
  | .token plain => some plain
  | _ => none

/-- The formula of an operand of a conjunction.  A negation sign makes the test of presence
a test of absence where it stands before it without parentheses. -/
def ofPieces? : List Piece → Option Formula
  | [.formula formula] => some formula
  | [.presence field] => some (.defined field true)
  | [.token .negation, .presence field] => some (.defined field false)
  | .token .negation :: pieces => (ofPieces? pieces).map .not
  | pieces => (pieces.mapM Piece.token?).bind test?

/-- What has been read since a parenthesis was opened; all parts come last one first. -/
structure Level where
  disjuncts : List Formula
  conjuncts : List Formula
  pieces : List Piece

namespace Level

def empty : Level := ⟨[], [], []⟩

def push (level : Level) (piece : Piece) : Level :=
  { level with pieces := piece :: level.pieces }

/-- The parts of the conjunction that is being read, with its last operand. -/
def conjuncts? (level : Level) : Option (List Formula) :=
  (ofPieces? level.pieces.reverse).map (· :: level.conjuncts)

/-- The parts of the disjunction, with its last conjunction. -/
def disjuncts? (level : Level) : Option (List Formula) :=
  level.conjuncts?.map (allOf ·.reverse :: level.disjuncts)

def formula? (level : Level) : Option Formula :=
  level.disjuncts?.map (anyOf ·.reverse)

/-- The name that has been read, if nothing else has been. -/
def name? : Level → Option String
  | ⟨[], [], [.token (.json (.word letters))]⟩ =>
      if isName letters then some (String.ofList letters) else none
  | _ => none

/-- The attribute of which the function tests the presence. -/
def presence? (level : Level) (function : List Char) : Option String :=
  if function = "defined".toList then level.name? else none

/-- The tokens that have been read, last one first, if nothing was joined or enclosed. -/
def plain? : Level → Option (List Token)
  | ⟨[], [], pieces⟩ => pieces.mapM Piece.token?
  | _ => none

/-- The pieces with the level that stands in parentheses behind them.  Behind a name it holds
the arguments of a function. -/
def enclosed? (level : Level) (pieces : List Piece) : Option (List Piece) :=
  match pieces with
  | .token (.json (.word function)) :: before =>
      match level.presence? function with
      | some field => some (.presence field :: before)
      | none => level.plain?.map fun arguments =>
          .token .closing :: (arguments.map .token ++ .token .opening :: pieces)
  | _ => level.formula?.map (.formula · :: pieces)

def enclose? (level inner : Level) : Option Level :=
  (inner.enclosed? level.pieces).map fun pieces => { level with pieces }

end Level

/-- The levels that are open, the innermost one apart. -/
structure Reader where
  current : Level
  outer : List Level

def Reader.step (reader : Reader) : Token → Option Reader
  | .opening => some ⟨.empty, reader.current :: reader.outer⟩
  | .closing =>
      match reader.outer with
      | level :: outer => (level.enclose? reader.current).map (⟨·, outer⟩)
      | [] => none
  | .conjunction =>
      reader.current.conjuncts?.map fun conjuncts =>
        { reader with current := ⟨reader.current.disjuncts, conjuncts, []⟩ }
  | .disjunction =>
      reader.current.disjuncts?.map fun disjuncts => { reader with current := ⟨disjuncts, [], []⟩ }
  | token => some { reader with current := reader.current.push (.token token) }

/-- The formula, once all parentheses are closed. -/
def Reader.finish (reader : Reader) : Option Formula :=
  match reader.outer with
  | [] => reader.current.formula?
  | _ => none

def ofTokens? (tokens : List Token) : Option Formula :=
  (tokens.foldlM Reader.step ⟨.empty, []⟩).bind Reader.finish

def ofText? (text : String) : Option Formula :=
  (tokens? text.toList).bind ofTokens?

/-- Negation binds tightest, and a call is part of the test that it stands in. -/
example : ofText? "published || !archived && count(tags) > 2" =
    some (.any [.atom [.word "published".toList],
      .all [.not (.atom [.word "archived".toList]),
        .atom [.word "count".toList, .opening, .word "tags".toList, .closing,
          .comparison .greater, .word "2".toList]]]) := rfl

end Formula

end ShapeQuery
