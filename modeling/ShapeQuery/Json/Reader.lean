import ShapeQuery.Json.Basic
import ShapeQuery.Json.Token

/-!
# Reading JSON text

Values are read with a stack of the arrays and objects that are still open.  A
token either completes a value, which then goes into the innermost open
container, or opens or closes one.  A key that an object repeats keeps its first
position and takes its last value.
-/

namespace ShapeQuery.Json

/-- A container that is still open; its parts come last one first. -/
inductive Frame where
  | array (items : List Json)
  | object (fields : List (String × Json))
  | field (fields : List (String × Json)) (key : String)

inductive Expected where
  /-- A value, or the end of an array that was just opened. -/
  | valueOrClose
  | value
  /-- A key, or the end of an object that was just opened. -/
  | keyOrClose
  | key
  | colon
  /-- A comma or the end of the innermost container. -/
  | commaOrClose
  /-- Nothing: the text holds its one value. -/
  | done (result : Json)

structure Reader where
  stack : List Frame
  expected : Expected

def ofWord? (letters : List Char) : Option Json :=
  if letters = "null".toList then some .null
  else if letters = "true".toList then some (.bool true)
  else if letters = "false".toList then some (.bool false)
  else (Number.ofWord? letters).map .number

/-- Puts a completed value into the innermost open container. -/
def Reader.complete (stack : List Frame) (value : Json) : Reader :=
  match stack with
  | .array items :: rest => ⟨.array (value :: items) :: rest, .commaOrClose⟩
  | .field fields key :: rest => ⟨.object ((key, value) :: fields) :: rest, .commaOrClose⟩
  | .object fields :: rest => ⟨.object fields :: rest, .commaOrClose⟩
  | [] => ⟨[], .done value⟩

def Reader.value (stack : List Frame) : Token → Option Reader
  | .openArray => some ⟨.array [] :: stack, .valueOrClose⟩
  | .openObject => some ⟨.object [] :: stack, .keyOrClose⟩
  | .string s => some (.complete stack (.string s))
  | .word letters => (ofWord? letters).map (.complete stack)
  | _ => none

def Reader.key : List Frame → Token → Option Reader
  | .object fields :: rest, .string key => some ⟨.field fields key :: rest, .colon⟩
  | _, _ => none

def Reader.close : List Frame → Token → Option Reader
  | .array items :: rest, .closeArray => some (.complete rest (.array items.reverse))
  | .object fields :: rest, .closeObject =>
      some (.complete rest (.object (Assoc.ofList fields.reverse)))
  | _, _ => none

def Reader.step (reader : Reader) (token : Token) : Option Reader :=
  match reader.expected with
  | .value => Reader.value reader.stack token
  | .valueOrClose =>
      if token = .closeArray then Reader.close reader.stack token
      else Reader.value reader.stack token
  | .key => Reader.key reader.stack token
  | .keyOrClose =>
      if token = .closeObject then Reader.close reader.stack token
      else Reader.key reader.stack token
  | .colon => if token = .colon then some { reader with expected := .value } else none
  | .commaOrClose =>
      if token = .comma then
        match reader.stack with
        | .array _ :: _ => some { reader with expected := .value }
        | .object _ :: _ => some { reader with expected := .key }
        | _ => none
      else Reader.close reader.stack token
  | .done _ => none

def Reader.finish (reader : Reader) : Option Json :=
  match reader.expected with
  | .done result => some result
  | _ => none

def ofTokens? (tokens : List Token) : Option Json :=
  (tokens.foldlM Reader.step ⟨[], .value⟩).bind Reader.finish

def ofText? (text : String) : Option Json :=
  (tokens? text.toList).bind ofTokens?

end ShapeQuery.Json
