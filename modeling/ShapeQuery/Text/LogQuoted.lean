import ShapeQuery.Text.Invisible

/-!
# Strings in logs

Logs and diagnostics write strings between double quotes so that every character
shows: quotes, backslashes and the usual controls behind a backslash, and all
other invisible characters by their hexadecimal number in braces.
-/

namespace ShapeQuery.LogQuoted

def escape (c : Char) : List Char :=
  if c = '"' ∨ c = '\\' then ['\\', c]
  else if c = '\n' then ['\\', 'n']
  else if c = '\t' then ['\\', 't']
  else if c = '\r' then ['\\', 'r']
  else if c.toNat = 0 then ['\\', '0']
  else if Invisible.isInvisible c then
    '\\' :: 'u' :: '\x7b' :: Nat.toDigits 16 c.toNat ++ ['\x7d']
  else [c]

def encode (s : String) : String :=
  String.ofList ('"' :: s.toList.flatMap escape ++ ['"'])

end ShapeQuery.LogQuoted
