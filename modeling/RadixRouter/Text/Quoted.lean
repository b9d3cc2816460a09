/-
# Quoted text

Text in a diagnostic stands in double quotes.  A quote or backslash inside it, a control
character, and any other character that shows no glyph of its own is escaped, so that the
quoted form fits on one line and can be read back.
-/

import RadixRouter.Text.Invisible

namespace RadixRouter.Quoted

/-- A hexadecimal digit, in lower case. -/
def hexDigit (n : Nat) : Char := if n < 10 then Char.ofNat (48 + n) else Char.ofNat (87 + n)

/-- The last `width` hexadecimal digits of a number. -/
def hexDigits : (width : Nat) → Nat → List Char
  | 0, _ => []
  | width + 1, n => hexDigits width (n / 16) ++ [hexDigit (n % 16)]

/-- The hexadecimal digits of a code point without leading zeros. -/
def hexCode (n : Nat) : List Char :=
  match (hexDigits 6 n).dropWhile (· = '0') with
  | [] => ['0']
  | digits => digits

/-- One character as it is written between quotes. -/
def escape (c : Char) : List Char :=
  if c = '"' then ['\\', '"']
  else if c = '\\' then ['\\', '\\']
  else if c = '\n' then ['\\', 'n']
  else if c = '\r' then ['\\', 'r']
  else if c = '\t' then ['\\', 't']
  else if c.toNat = 0 then ['\\', '0']
  else if 0x20 ≤ c.toNat && c.toNat < 0x7F then [c]
  else if Invisible.covers c then ['\\', 'u', '\x7b'] ++ hexCode c.toNat ++ ['\x7d']
  else [c]

/-- Text in double quotes, escaped where needed. -/
def quote (s : String) : String := String.ofList ('"' :: s.toList.flatMap escape ++ ['"'])

end RadixRouter.Quoted
