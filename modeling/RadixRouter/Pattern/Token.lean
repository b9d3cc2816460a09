/-
# Route patterns as tokens

A route pattern is a byte string in which `:` opens a parameter and `*` a catch-all; the
name after a marker runs up to the next slash or the end.  `tokens` cuts a pattern into
single literal bytes and wildcards, and `bytes` writes tokens back, so nothing is lost.
-/

namespace RadixRouter

/-- The byte `/`, which separates path segments. -/
def slash : UInt8 := 0x2F

/-- The byte `:`, which opens a parameter. -/
def colon : UInt8 := 0x3A

/-- The byte `*`, which opens a catch-all. -/
def star : UInt8 := 0x2A

/-- Whether a byte opens a wildcard. -/
def isMarker (b : UInt8) : Bool := b = colon || b = star

/-- The bytes up to the next slash. -/
def untilSlash (bytes : List UInt8) : List UInt8 := bytes.takeWhile (· ≠ slash)

/-- The bytes from the next slash on. -/
def fromSlash (bytes : List UInt8) : List UInt8 := bytes.dropWhile (· ≠ slash)

/-- One step of a pattern: a literal byte, a parameter that takes one non-empty segment
part, or a catch-all that takes the rest. -/
inductive Token where
  | byte (b : UInt8)
  | param (name : List UInt8)
  | catchAll (name : List UInt8)
deriving DecidableEq

/-- A token as it is written in a pattern. -/
def Token.bytes : Token → List UInt8
  | .byte b => [b]
  | .param name => colon :: name
  | .catchAll name => star :: name

namespace Pattern

/-- The tokens of a pattern.  Inside a name, bytes up to the next slash belong to the token
already read. -/
def tokensFrom (inName : Bool) : List UInt8 → List Token
  | [] => []
  | b :: rest =>
    if inName ∧ b ≠ slash then tokensFrom true rest
    else if b = colon then .param (untilSlash rest) :: tokensFrom true rest
    else if b = star then .catchAll (untilSlash rest) :: tokensFrom true rest
    else .byte b :: tokensFrom false rest

/-- The tokens of a pattern. -/
def tokens (pattern : List UInt8) : List Token := tokensFrom false pattern

/-- Tokens written as a pattern. -/
def bytes (tokens : List Token) : List UInt8 := tokens.flatMap Token.bytes

theorem bytes_tokensFrom (inName : Bool) (pattern : List UInt8) :
    bytes (tokensFrom inName pattern) = if inName then fromSlash pattern else pattern := by
  induction pattern generalizing inName with
  | nil => cases inName <;> rfl
  | cons b rest ih =>
    unfold tokensFrom
    by_cases hname : inName = true ∧ b ≠ slash
    · rw [if_pos hname, ih]
      simp [hname.1, hname.2, fromSlash]
    · rw [if_neg hname]
      have hkeep : (if inName then fromSlash (b :: rest) else b :: rest) = b :: rest := by
        cases inName with
        | false => rfl
        | true =>
          have hb : b = slash := by simpa using hname
          simp [fromSlash, hb]
      rw [hkeep]
      have happend (bs : List UInt8) : untilSlash bs ++ fromSlash bs = bs :=
        List.takeWhile_append_dropWhile
      by_cases hcolon : b = colon
      · simp only [if_pos hcolon, bytes, List.flatMap_cons, Token.bytes, List.cons_append]
        have := ih true
        simp only [bytes, if_true] at this
        rw [this, happend, hcolon]
      · rw [if_neg hcolon]
        by_cases hstar : b = star
        · simp only [if_pos hstar, bytes, List.flatMap_cons, Token.bytes, List.cons_append]
          have := ih true
          simp only [bytes, if_true] at this
          rw [this, happend, hstar]
        · simp only [if_neg hstar, bytes, List.flatMap_cons, Token.bytes, List.singleton_append]
          have := ih false
          simp only [bytes] at this
          rw [this]
          rfl

/-- Writing the tokens of a pattern gives the pattern back. -/
theorem bytes_tokens (pattern : List UInt8) : bytes (tokens pattern) = pattern := by
  simpa [tokens] using bytes_tokensFrom false pattern

end Pattern

end RadixRouter
