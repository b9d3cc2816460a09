/-
# Scalars

Plain and quoted scalars may go on over several lines.  What stands between two of their
words is folded: blanks next to an end of line are dropped, a single line feed becomes a
space, and further ends of lines are kept.

Every reader takes characters from the front and says how many; `none` stands for malformed
text.
-/

import RadixRouter.Document.Basic
import RadixRouter.Document.Cursor

namespace RadixRouter.Document

/-- What stands between two words of a scalar. -/
inductive Gap where
  /-- Blanks on one line, perhaps none. -/
  | blanks (text : List Char)
  /-- Ends of lines: the first, unless it was escaped, those after it, and the column that
  the blanks after them reach. -/
  | breaks (first : Option Char) (others : List Char) (column : Nat)

namespace Gap

/-- No gap. -/
def empty : Gap := .blanks []

/-- Whether a word goes on. -/
def isEmpty : Gap → Bool
  | .blanks text => text.isEmpty
  | .breaks .. => false

/-- The column on a new line, if a line has ended. -/
def column? : Gap → Option Nat
  | .blanks _ => none
  | .breaks _ _ column => some column

/-- A gap with one more blank or end of line. -/
def push (gap : Gap) (c : Char) : Gap :=
  match gap with
  | .blanks text => if isBreak c then .breaks (some c) [] 0 else .blanks (text ++ [c])
  | .breaks first others column =>
    if isBreak c then .breaks first (others ++ [c]) 0 else .breaks first others (column + 1)

/-- The text that a gap stands for. -/
def folded : Gap → List Char
  | .blanks text => text
  | .breaks (some '\n') [] _ => [' ']
  | .breaks (some '\n') others _ => others
  | .breaks first others _ => first.toList ++ others

end Gap

/-- A scalar as it was read: its text, the number of characters it took, and whether they
include an end of line after its last word. -/
structure ScalarReading where
  text : List Char
  taken : Nat
  broken : Bool

/-- A reading with `taken` more characters in front, which stand for `text`. -/
def ScalarReading.after (reading : ScalarReading) (taken : Nat) (text : List Char) :
    ScalarReading :=
  { reading with text := text ++ reading.text, taken := taken + reading.taken }

/-- The characters that one-letter escapes stand for. -/
def simpleEscape? (c : Char) : Option Char :=
  match c with
  | '0' => some (Char.ofNat 0)
  | 'a' => some (Char.ofNat 7)
  | 'b' => some (Char.ofNat 8)
  | 't' => some '\t'
  | '\t' => some '\t'
  | 'n' => some '\n'
  | 'v' => some (Char.ofNat 11)
  | 'f' => some (Char.ofNat 12)
  | 'r' => some '\r'
  | 'e' => some (Char.ofNat 27)
  | ' ' => some ' '
  | '"' => some '"'
  | '/' => some '/'
  | '\\' => some '\\'
  | 'N' => some (Char.ofNat 0x85)
  | '_' => some (Char.ofNat 0xA0)
  | 'L' => some (Char.ofNat 0x2028)
  | 'P' => some (Char.ofNat 0x2029)
  | _ => none

/-- The number of hexadecimal digits after a numeric escape. -/
def escapeWidth? (c : Char) : Option Nat :=
  match c with
  | 'x' => some 2
  | 'u' => some 4
  | 'U' => some 8
  | _ => none

/-- The character with a code, if there is one. -/
def character? (code : Nat) : Option Char :=
  if code.isValidChar then some (Char.ofNat code) else none

/-- What a quoted scalar is reading: words and the gap before the next, the letter of an
escape, or the digits of a numeric escape. -/
inductive QuotedState where
  | words (gap : Gap)
  | escaped
  | digits (left code : Nat)

/-- A double-quoted scalar after its opening quote. -/
def doubleQuoted? : QuotedState → List Char → Option ScalarReading
  | _, [] => none
  | .words gap, c :: cs =>
    if c = '"' then some ⟨gap.folded, 1, false⟩
    else if c = '\\' then (doubleQuoted? .escaped cs).map (·.after 1 gap.folded)
    else if isSpace c then
      if isBreak c && isMarker cs then none
      else (doubleQuoted? (.words (gap.push c)) cs).map (·.after 1 [])
    else (doubleQuoted? (.words .empty) cs).map (·.after 1 (gap.folded ++ [c]))
  | .escaped, c :: cs =>
    if isBreak c then
      if isMarker cs then none
      else (doubleQuoted? (.words (.breaks none [] 0)) cs).map (·.after 1 [])
    else
      match escapeWidth? c, simpleEscape? c with
      | some width, _ => (doubleQuoted? (.digits width 0) cs).map (·.after 1 [])
      | none, some meant => (doubleQuoted? (.words .empty) cs).map (·.after 1 [meant])
      | none, none => none
  | .digits left code, c :: cs =>
    match digit? 16 c with
    | none => none
    | some value =>
      let code := code * 16 + value
      if left ≤ 1 then
        match character? code with
        | some meant => (doubleQuoted? (.words .empty) cs).map (·.after 1 [meant])
        | none => none
      else (doubleQuoted? (.digits (left - 1) code) cs).map (·.after 1 [])

/-- A single-quoted scalar after its opening quote; a quote inside is written twice. -/
def singleQuoted? : Gap → List Char → Option ScalarReading
  | _, [] => none
  | gap, '\'' :: '\'' :: cs =>
    (singleQuoted? .empty cs).map (·.after 2 (gap.folded ++ ['\'']))
  | gap, c :: cs =>
    if c = '\'' then some ⟨gap.folded, 1, false⟩
    else if isSpace c then
      if isBreak c && isMarker cs then none
      else (singleQuoted? (gap.push c) cs).map (·.after 1 [])
    else (singleQuoted? .empty cs).map (·.after 1 (gap.folded ++ [c]))

/-- The punctuation of collections in brackets and braces. -/
def isPunctuation (c : Char) : Bool := [',', '[', ']', '\x7b', '\x7d'].contains c

/-- Characters that cannot start a plain scalar. -/
def isIndicator (c : Char) : Bool :=
  isPunctuation c ||
    ['#', '&', '*', '!', '|', '>', '\'', '"', '%', '@', Char.ofNat 96].contains c

/-- Whether a plain scalar is over before the text, which is no space: at a comment or marker
after a gap, at less indentation, at a colon before a space, and inside brackets or braces at
their punctuation. -/
def endsPlain (inFlow : Bool) (indent : Nat) (gap : Gap) : List Char → Bool
  | [] => true
  | c :: cs =>
    !gap.isEmpty && c = '#' ||
      !inFlow && gap.column?.any (· < indent) ||
      gap.column? = some 0 && isMarker (c :: cs) ||
      c = ':' && isWordEnd cs ||
      inFlow && isPunctuation c

/-- Whether a colon stands before punctuation or a question mark, which is malformed inside
brackets and braces. -/
def isStrayColon : List Char → Bool
  | ':' :: c :: _ => isPunctuation c || c = '?'
  | _ => false

/-- A plain scalar, with all spaces after it.  On new lines it is indented at least to the
column `indent`, and not by tabs. -/
def plain? (inFlow : Bool) (indent : Nat) : Gap → List Char → Option ScalarReading
  | gap, [] => some ⟨[], 0, gap.column?.isSome⟩
  | gap, c :: cs =>
    if isSpace c then
      if c = '\t' && gap.column?.any (· < indent) then none
      else (plain? inFlow indent (gap.push c) cs).map (·.after 1 [])
    else if endsPlain inFlow indent gap (c :: cs) then some ⟨[], 0, gap.column?.isSome⟩
    else if inFlow && isStrayColon (c :: cs) then none
    else (plain? inFlow indent .empty cs).map (·.after 1 (gap.folded ++ [c]))

end RadixRouter.Document
