/-
# Places in a text

A document is read from the front.  A cursor holds what is left of the text and the place
where that starts.  Lines end with a line feed or one of the two Unicode separators; other
ends of lines are made line feeds before reading.
-/

namespace RadixRouter.Document

/-- Characters that a document may contain as they are. -/
def isAdmissible (c : Char) : Bool :=
  let n := c.toNat
  n = 0x09 || n = 0x0A || n = 0x0D || 0x20 ≤ n && n ≤ 0x7E || n = 0x85 ||
    0xA0 ≤ n && n ≤ 0xFFFD || 0x10000 ≤ n

/-- The text with a line feed for each carriage return, each carriage return with a line feed,
and each next-line character. -/
def normalizeBreaks : List Char → List Char
  | [] => []
  | '\r' :: '\n' :: cs => '\n' :: normalizeBreaks cs
  | c :: cs => (if c = '\r' || c.toNat = 0x85 then '\n' else c) :: normalizeBreaks cs

/-- Whether a character separates words on a line. -/
def isBlank (c : Char) : Bool := c = ' ' || c = '\t'

/-- Whether a character ends a line. -/
def isBreak (c : Char) : Bool := c = '\n' || c.toNat = 0x2028 || c.toNat = 0x2029

/-- Whether a character separates words. -/
def isSpace (c : Char) : Bool := isBlank c || isBreak c

/-- Whether no word goes on here. -/
def isWordEnd : List Char → Bool
  | [] => true
  | c :: _ => isSpace c

/-- Whether a word that separates documents stands here; it counts at the start of a line. -/
def isMarker : List Char → Bool
  | '-' :: '-' :: '-' :: cs => isWordEnd cs
  | '.' :: '.' :: '.' :: cs => isWordEnd cs
  | _ => false

/-- A place in a text: the number of bytes before it in UTF-8, of lines, and of characters on
its line. -/
structure Place where
  offset : Nat
  line : Nat
  column : Nat

/-- The place after a character. -/
def Place.after (place : Place) (c : Char) : Place :=
  if isBreak c then ⟨place.offset + c.utf8Size, place.line + 1, 0⟩
  else ⟨place.offset + c.utf8Size, place.line, place.column + 1⟩

/-- What is left of a text, and where it starts. -/
structure Cursor where
  rest : List Char
  place : Place

/-- The start of a text. -/
def Cursor.start (text : List Char) : Cursor := ⟨text, ⟨0, 0, 0⟩⟩

/-- Moves over some characters. -/
def Cursor.advance : Nat → Cursor → Cursor
  | 0, cursor => cursor
  | _, ⟨[], place⟩ => ⟨[], place⟩
  | n + 1, ⟨c :: cs, place⟩ => Cursor.advance n ⟨cs, place.after c⟩

end RadixRouter.Document
