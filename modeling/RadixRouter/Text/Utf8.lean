/-
# UTF-8

Paths and patterns are compared byte by byte, so a label of a route tree may end inside a
character.  `encode` gives the bytes of a string; `scan` reads bytes back, one character or
one ill-formed piece at a time.  `decode?` accepts well-formed bytes only, while
`decodeLossy` writes U+FFFD for every ill-formed piece, a piece being as long as it can be
while still being the start of some character.
-/

namespace RadixRouter.Utf8

/-- The bytes of one character. -/
def encodeChar (c : Char) : List UInt8 := String.utf8EncodeChar c

/-- The bytes of a string. -/
def encode (s : String) : List UInt8 := s.toList.flatMap encodeChar

/-- Bytes after the first of a character have the form `10xxxxxx`. -/
def isContinuation (b : UInt8) : Bool := 0x80 ≤ b && b < 0xC0

/-- A character starts at every byte that does not continue one. -/
def isStart (b : UInt8) : Bool := !isContinuation b

/-- The character with these continuation bits below the given leading bits. -/
def assemble (leading : Nat) (continuation : List UInt8) : Char :=
  Char.ofNat (continuation.foldl (fun n b => n * 64 + b.toNat % 64) leading)

/-- Which second bytes may follow the first byte of a three-byte character: no overlong
forms, no surrogates. -/
def secondOfThree (b₀ b₁ : UInt8) : Bool :=
  if b₀ = 0xE0 then 0xA0 ≤ b₁ && b₁ < 0xC0
  else if b₀ = 0xED then 0x80 ≤ b₁ && b₁ < 0xA0
  else isContinuation b₁

/-- Which second bytes may follow the first byte of a four-byte character: no overlong
forms, nothing above U+10FFFF. -/
def secondOfFour (b₀ b₁ : UInt8) : Bool :=
  if b₀ = 0xF0 then 0x90 ≤ b₁ && b₁ < 0xC0
  else if b₀ = 0xF4 then 0x80 ≤ b₁ && b₁ < 0x90
  else isContinuation b₁

/-- The characters of a byte string, with `none` for each maximal ill-formed piece. -/
def scan : List UInt8 → List (Option Char)
  | [] => []
  | b₀ :: rest =>
    if b₀ < 0x80 then some (assemble b₀.toNat []) :: scan rest
    else if 0xC2 ≤ b₀ && b₀ < 0xE0 then
      match rest with
      | [] => [none]
      | b₁ :: rest₁ =>
        if isContinuation b₁ then some (assemble (b₀.toNat % 32) [b₁]) :: scan rest₁
        else none :: scan (b₁ :: rest₁)
    else if 0xE0 ≤ b₀ && b₀ < 0xF0 then
      match rest with
      | [] => [none]
      | b₁ :: rest₁ =>
        if secondOfThree b₀ b₁ then
          match rest₁ with
          | [] => [none]
          | b₂ :: rest₂ =>
            if isContinuation b₂ then some (assemble (b₀.toNat % 16) [b₁, b₂]) :: scan rest₂
            else none :: scan (b₂ :: rest₂)
        else none :: scan (b₁ :: rest₁)
    else if 0xF0 ≤ b₀ && b₀ < 0xF5 then
      match rest with
      | [] => [none]
      | b₁ :: rest₁ =>
        if secondOfFour b₀ b₁ then
          match rest₁ with
          | [] => [none]
          | b₂ :: rest₂ =>
            if isContinuation b₂ then
              match rest₂ with
              | [] => [none]
              | b₃ :: rest₃ =>
                if isContinuation b₃ then
                  some (assemble (b₀.toNat % 8) [b₁, b₂, b₃]) :: scan rest₃
                else none :: scan (b₃ :: rest₃)
            else none :: scan (b₂ :: rest₂)
        else none :: scan (b₁ :: rest₁)
    else none :: scan rest

/-- Stands in for what cannot be decoded. -/
def replacement : Char := '\uFFFD'

/-- The characters of a byte string, ill-formed pieces replaced. -/
def charsLossy (bytes : List UInt8) : List Char := (scan bytes).map (·.getD replacement)

/-- The text of a byte string, ill-formed pieces replaced. -/
def decodeLossy (bytes : List UInt8) : String := String.ofList (charsLossy bytes)

/-- The text of a well-formed byte string. -/
def decode? (bytes : List UInt8) : Option String :=
  ((scan bytes).mapM id).map String.ofList

/-- The character at the front of a byte string, replaced when ill-formed or absent. -/
def firstChar (bytes : List UInt8) : Char :=
  match scan (bytes.take 4) with
  | some c :: _ => c
  | _ => replacement

end RadixRouter.Utf8
