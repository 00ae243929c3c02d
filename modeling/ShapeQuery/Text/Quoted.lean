/-!
# Quoted strings

JSON and the query language write strings alike: between double quotes, with a
backslash before a quote, a backslash or a control character.  Everything else,
non-ASCII characters included, stands for itself.  Reading is more liberal than
writing and also takes the escapes that are never written.
-/

namespace ShapeQuery.Quoted

/-- One lower-case hexadecimal digit. -/
def hexDigit (n : Nat) : Char := (Nat.digitChar n)

def escape (c : Char) : List Char :=
  if c = '"' then ['\\', '"']
  else if c = '\\' then ['\\', '\\']
  else if 0x20 ≤ c.toNat then [c]
  else if c = '\n' then ['\\', 'n']
  else if c = '\t' then ['\\', 't']
  else if c = '\r' then ['\\', 'r']
  else if c.toNat = 0x08 then ['\\', 'b']
  else if c.toNat = 0x0C then ['\\', 'f']
  else ['\\', 'u', '0', '0', hexDigit (c.toNat / 16), hexDigit (c.toNat % 16)]

def encode (s : String) : String :=
  String.ofList ('"' :: s.toList.flatMap escape ++ ['"'])

/-- The value of a hexadecimal digit of either case. -/
def hexValue? (c : Char) : Option Nat :=
  if '0' ≤ c ∧ c ≤ '9' then some (c.toNat - '0'.toNat)
  else if 'a' ≤ c ∧ c ≤ 'f' then some (c.toNat - 'a'.toNat + 10)
  else if 'A' ≤ c ∧ c ≤ 'F' then some (c.toNat - 'A'.toNat + 10)
  else none

/-- The code unit written by four hexadecimal digits. -/
def unit? (a b c d : Char) : Option Nat := do
  let high := (← hexValue? a) * 16 + (← hexValue? b)
  let low := (← hexValue? c) * 16 + (← hexValue? d)
  return high * 256 + low

/-- The character meant by the letter of a short escape. -/
def shortEscape? : Char → Option Char
  | '"' => some '"'
  | '\\' => some '\\'
  | '/' => some '/'
  | 'n' => some '\n'
  | 't' => some '\t'
  | 'r' => some '\r'
  | 'b' => some '\x08'
  | 'f' => some '\x0c'
  | _ => none

/-- Reads what stands between the quotes.  A code unit of the upper half of a
surrogate pair has to be followed by its lower half. -/
def decode : List Char → Option (List Char)
  | [] => some []
  | '\\' :: 'u' :: a :: b :: c :: d :: rest =>
      match unit? a b c d with
      | none => none
      | some unit =>
          if 0xD800 ≤ unit ∧ unit < 0xDC00 then
            match rest with
            | '\\' :: 'u' :: a :: b :: c :: d :: rest =>
                match unit? a b c d with
                | none => none
                | some low =>
                    if 0xDC00 ≤ low ∧ low < 0xE000 then
                      (decode rest).map
                        (Char.ofNat (0x10000 + (unit - 0xD800) * 0x400 + (low - 0xDC00)) :: ·)
                    else none
            | _ => none
          else if 0xDC00 ≤ unit ∧ unit < 0xE000 then none
          else (decode rest).map (Char.ofNat unit :: ·)
  | '\\' :: c :: rest =>
      match shortEscape? c with
      | some meant => (decode rest).map (meant :: ·)
      | none => none
  | c :: rest =>
      if c = '\\' ∨ c = '"' ∨ c.toNat < 0x20 then none else (decode rest).map (c :: ·)

theorem unit?_control : ∀ n < 0x20,
    unit? '0' '0' (hexDigit (n / 16)) (hexDigit (n % 16)) = some n := by
  decide

/-- An escape is read as its character, whatever follows. -/
theorem decode_escape_append (c : Char) (rest : List Char) :
    decode (escape c ++ rest) = (decode rest).map (c :: ·) := by
  by_cases hquote : c = '"'
  · subst hquote; simp [escape, decode, shortEscape?]
  by_cases hslash : c = '\\'
  · subst hslash; simp [escape, decode, shortEscape?]
  by_cases hplain : 0x20 ≤ c.toNat
  · have hcontrol : ¬c.toNat < 0x20 := by omega
    simp only [escape, hquote, hslash, hplain, if_false, if_true, List.singleton_append]
    rw [decode.eq_4]
    · simp [hquote, hslash, hcontrol]
    · intros; simp_all
    · intros; simp_all
  by_cases hnewline : c = '\n'
  · subst hnewline; simp [escape, decode, shortEscape?]
  by_cases htab : c = '\t'
  · subst htab; simp [escape, decode, shortEscape?]
  by_cases hreturn : c = '\r'
  · subst hreturn; simp [escape, decode, shortEscape?]
  by_cases hbackspace : c.toNat = 0x08
  · obtain rfl : c = '\x08' := Char.ext (UInt32.toNat_inj.mp hbackspace)
    simp [escape, decode, shortEscape?]
  by_cases hfeed : c.toNat = 0x0C
  · obtain rfl : c = '\x0c' := Char.ext (UInt32.toNat_inj.mp hfeed)
    simp [escape, decode, shortEscape?]
  · have hlow : c.toNat < 0x20 := by omega
    simp only [escape, hquote, hslash, hplain, hnewline, htab, hreturn, hbackspace, hfeed,
      if_false, List.cons_append, List.nil_append, decode, unit?_control c.toNat hlow]
    rw [if_neg (by omega), if_neg (by omega), Char.ofNat_toNat]

/-- Reading takes back what writing put between the quotes. -/
theorem decode_flatMap_escape (cs : List Char) : decode (cs.flatMap escape) = some cs := by
  induction cs with
  | nil => rfl
  | cons c cs ih => rw [List.flatMap_cons, decode_escape_append, ih, Option.map_some]

end ShapeQuery.Quoted
