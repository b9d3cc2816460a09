/-
# Tokens of a document

A text is cut into scalars and the punctuation between them.  Block collections are laid out
by indentation: their starts and ends are tokens too, although nothing is written for them.

What makes a scalar or collection the key of an entry is the colon after it.  Until that is
seen it is a candidate, and the tokens before it are added once the colon comes.  A key lies
on one line with its colon and is short.
-/

import RadixRouter.Document.Scalar

namespace RadixRouter.Document

/-- A token.  Flow collections are those in brackets and braces. -/
inductive Token where
  | documentStart
  | documentEnd
  | blockList
  | blockRecord
  | blockEnd
  | flowList
  | flowListEnd
  | flowRecord
  | flowRecordEnd
  | comma
  /-- A dash before an item of a block list. -/
  | item
  /-- The key of an entry follows. -/
  | key
  /-- The value of an entry follows. -/
  | value
  | scalar (style : ScalarStyle) (text : String)
deriving DecidableEq

/-- What is a key if a colon follows. -/
structure KeyCandidate where
  /-- The number of tokens before it. -/
  position : Nat
  place : Place
  /-- Whether it stands where nothing but an entry can. -/
  required : Bool

/-- How many bytes after the start of a key its colon may stand. -/
def keyLimit : Nat := 1024

/-- A text on the way to tokens. -/
structure Scan where
  cursor : Cursor
  tokens : Array Token
  /-- The columns of the open block collections, innermost first. -/
  columns : List Nat
  /-- The candidate in each open flow collection, innermost first, and outside of all. -/
  candidates : List (Option KeyCandidate)
  /-- Whether a key may start here. -/
  keyAllowed : Bool

namespace Scan

/-- The start of a text. -/
def start (text : List Char) : Scan := ⟨.start text, #[], [], [none], true⟩

/-- Whether brackets or braces are open. -/
def inFlow (scan : Scan) : Bool := 1 < scan.candidates.length

/-- The place that is read next. -/
def place (scan : Scan) : Place := scan.cursor.place

/-- Adds a token that takes some characters; after it a key is allowed or not. -/
def emit (scan : Scan) (token : Token) (taken : Nat) (keyAllowed : Bool) : Scan :=
  { scan with
    cursor := scan.cursor.advance taken, tokens := scan.tokens.push token,
    keyAllowed := keyAllowed }

/-- Opens a block collection at a column, unless one is open there or further in.  Its token
goes to a position among the tokens. -/
def openBlock (scan : Scan) (token : Token) (column position : Nat) : Scan :=
  if !scan.inFlow && scan.columns.head?.all (· < column) then
    { scan with
      columns := column :: scan.columns,
      tokens := scan.tokens.insertIdxIfInBounds position token }
  else scan

/-- Closes the innermost block collections up to the first whose column is kept. -/
def closeBlocks (scan : Scan) (kept : Nat → Bool) : Scan :=
  if scan.inFlow then scan
  else
    let closed := scan.columns.takeWhile (!kept ·)
    { scan with
      columns := scan.columns.drop closed.length,
      tokens := scan.tokens ++ closed.map fun _ => Token.blockEnd }

/-- Gives up the innermost candidate.  One that is required must not be given up. -/
def dropCandidate? (scan : Scan) : Option Scan :=
  match scan.candidates with
  | some candidate :: outer =>
    if candidate.required then none else some { scan with candidates := none :: outer }
  | _ => some scan

/-- Makes what starts here the candidate, if a key is allowed. -/
def noteCandidate? (scan : Scan) : Option Scan :=
  if scan.keyAllowed then
    scan.dropCandidate?.map fun scan =>
      let required := !scan.inFlow && scan.columns.head? = some scan.place.column
      { scan with
        candidates := some ⟨scan.tokens.size, scan.place, required⟩ :: scan.candidates.tail }
  else some scan

/-- Whether the colon of a candidate can no longer come. -/
def isStale (scan : Scan) (candidate : KeyCandidate) : Bool :=
  candidate.place.line < scan.place.line ||
    candidate.place.offset + keyLimit < scan.place.offset

/-- Gives up all candidates whose colon can no longer come. -/
def dropStale? (scan : Scan) : Option Scan :=
  if scan.candidates.any (·.any fun candidate => scan.isStale candidate && candidate.required) then
    none
  else
    some { scan with
      candidates := scan.candidates.map (·.filter fun candidate => !scan.isStale candidate) }

/-- Skips spaces and comments, and a byte order mark at the start of a line.  Tabs do not
count as indentation.  At the start of a line outside brackets and braces a key is allowed. -/
def skipSpaces (inFlow : Bool) :
    (keyAllowed inComment : Bool) → List Char → Place → Cursor × Bool
  | keyAllowed, _, [], place => (⟨[], place⟩, keyAllowed)
  | keyAllowed, inComment, c :: cs, place =>
    if isBreak c then skipSpaces inFlow (keyAllowed || !inFlow) false cs (place.after c)
    else if inComment || c = ' ' || c = '\t' && (inFlow || !keyAllowed) ||
        c.toNat = 0xFEFF && place.column = 0 then
      skipSpaces inFlow keyAllowed inComment cs (place.after c)
    else if c = '#' then skipSpaces inFlow keyAllowed true cs (place.after c)
    else (⟨c :: cs, place⟩, keyAllowed)

/-- Goes on to the next token. -/
def skip (scan : Scan) : Scan :=
  let (cursor, keyAllowed) :=
    skipSpaces scan.inFlow scan.keyAllowed false scan.cursor.rest scan.place
  { scan with cursor := cursor, keyAllowed := keyAllowed }

/-- A word that separates documents. -/
def marker? (scan : Scan) (token : Token) : Option Scan :=
  (scan.closeBlocks fun _ => false).dropCandidate?.map (·.emit token 3 false)

/-- An opening bracket or brace. -/
def openFlow? (scan : Scan) (token : Token) : Option Scan :=
  scan.noteCandidate?.map fun scan =>
    { scan.emit token 1 true with candidates := none :: scan.candidates }

/-- A closing bracket or brace. -/
def closeFlow? (scan : Scan) (token : Token) : Option Scan :=
  scan.dropCandidate?.map fun scan =>
    let outer := if scan.inFlow then scan.candidates.tail else scan.candidates
    { scan.emit token 1 false with candidates := outer }

/-- A comma. -/
def comma? (scan : Scan) : Option Scan := scan.dropCandidate?.map (·.emit .comma 1 true)

/-- A dash before an item. -/
def item? (scan : Scan) : Option Scan :=
  if scan.inFlow || scan.keyAllowed then
    (scan.openBlock .blockList scan.place.column scan.tokens.size).dropCandidate?.map
      (·.emit .item 1 true)
  else none

/-- A question mark before a key. -/
def key? (scan : Scan) : Option Scan :=
  if scan.inFlow || scan.keyAllowed then
    (scan.openBlock .blockRecord scan.place.column scan.tokens.size).dropCandidate?.map
      (·.emit .key 1 !scan.inFlow)
  else none

/-- A colon before a value.  The candidate is its key; without one the key is empty. -/
def value? (scan : Scan) : Option Scan :=
  match scan.candidates with
  | some candidate :: outer =>
    let keyed := { scan with
      candidates := none :: outer,
      tokens := scan.tokens.insertIdxIfInBounds candidate.position .key }
    let opened := keyed.openBlock .blockRecord candidate.place.column candidate.position
    some (opened.emit .value 1 false)
  | _ =>
    if scan.inFlow || scan.keyAllowed then
      let opened := scan.openBlock .blockRecord scan.place.column scan.tokens.size
      some (opened.emit .value 1 !scan.inFlow)
    else none

/-- A scalar of some style: `skipped` is the length of its opening quote, and `read` takes what
comes after that. -/
def scalar? (scan : Scan) (style : ScalarStyle) (skipped : Nat)
    (read : List Char → Option ScalarReading) : Option Scan := do
  let scan ← scan.noteCandidate?
  let reading ← read (scan.cursor.rest.drop skipped)
  return scan.emit (.scalar style (String.ofList reading.text)) (skipped + reading.taken)
    reading.broken

/-- The token that starts here. -/
def token? (scan : Scan) : Option Scan :=
  match scan.cursor.rest with
  | [] => none
  | c :: cs =>
    let atStart := scan.place.column = 0
    if atStart && c = '%' then none
    else if atStart && isMarker (c :: cs) then
      scan.marker? (if c = '-' then .documentStart else .documentEnd)
    else if c = '[' then scan.openFlow? .flowList
    else if c = '\x7b' then scan.openFlow? .flowRecord
    else if c = ']' then scan.closeFlow? .flowListEnd
    else if c = '\x7d' then scan.closeFlow? .flowRecordEnd
    else if c = ',' then scan.comma?
    else if c = '-' && isWordEnd cs then scan.item?
    else if c = '?' && (scan.inFlow || isWordEnd cs) then scan.key?
    else if c = ':' && (scan.inFlow || isWordEnd cs) then scan.value?
    else if c = '"' then scan.scalar? .quoted 1 (doubleQuoted? (.words .empty))
    else if c = '\'' then scan.scalar? .quoted 1 (singleQuoted? .empty)
    else if isBlank c || isIndicator c then none
    else
      let indent := (scan.columns.head?.map (· + 1)).getD 0
      scan.scalar? .plain 0 (plain? scan.inFlow indent .empty)

/-- All tokens from here on.  `fuel` bounds their number; one more than the length of the text
is enough. -/
def tokens? : (fuel : Nat) → Scan → Option (List Token)
  | 0, _ => none
  | fuel + 1, scan => do
    let scan ← scan.skip.dropStale?
    let scan := scan.closeBlocks (· ≤ scan.place.column)
    if scan.cursor.rest.isEmpty then
      let scan ← (scan.closeBlocks fun _ => false).dropCandidate?
      return scan.tokens.toList
    else tokens? fuel (← scan.token?)

end Scan

/-- The tokens of a text. -/
def Token.ofText? (source : String) : Option (List Token) :=
  let text := source.toList
  if text.all isAdmissible then Scan.tokens? (text.length + 1) (.start (normalizeBreaks text))
  else none

end RadixRouter.Document
