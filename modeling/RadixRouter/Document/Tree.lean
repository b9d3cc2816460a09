/-
# Documents from tokens

A text holds one document, which may stand between markers.  Where a value is left out it is
a plain scalar without text; so is the document of a text that holds none.
-/

import RadixRouter.Document.Token

namespace RadixRouter.Document

/-- A value without text. -/
def nothing : Document := .scalar .plain ""

/-- Whether a value starts with the token. -/
def Token.startsValue : Token → Bool
  | .scalar .. => true
  | .flowList => true
  | .flowRecord => true
  | .blockList => true
  | .blockRecord => true
  | _ => false

mutual

/-- The value that starts with the first token, and the tokens after it.  `fuel` bounds the
number of steps; three for each token are enough. -/
def node? : (fuel : Nat) → List Token → Option (Document × List Token)
  | 0, _ => none
  | _, [] => none
  | fuel + 1, token :: tokens =>
    match token with
    | .scalar style text => some (.scalar style text, tokens)
    | .flowList => (flowItems? fuel true tokens).map fun (items, rest) => (.list items, rest)
    | .flowRecord =>
      (flowEntries? fuel true tokens).map fun (entries, rest) => (.record entries, rest)
    | .blockList => (blockItems? fuel tokens).map fun (items, rest) => (.list items, rest)
    | .blockRecord =>
      (blockEntries? fuel tokens).map fun (entries, rest) => (.record entries, rest)
    | _ => none

/-- The value that starts with the first token, or nothing where none does.  Inside a block
record the items of a list may follow without a start of their own. -/
def optional? : (fuel : Nat) → (inRecord : Bool) → List Token → Option (Document × List Token)
  | 0, _, _ => none
  | fuel + 1, inRecord, tokens =>
    match tokens with
    | [] => some (nothing, [])
    | token :: _ =>
      if token.startsValue then node? fuel tokens
      else if inRecord && token = .item then
        (looseItems? fuel tokens).map fun (items, rest) => (.list items, rest)
      else some (nothing, tokens)

/-- The key and value of an entry, without the token before the key. -/
def entry? : (fuel : Nat) → (inRecord : Bool) → List Token →
    Option ((Document × Document) × List Token)
  | 0, _, _ => none
  | fuel + 1, inRecord, tokens => do
    let (key, rest) ← optional? fuel inRecord tokens
    match rest with
    | .value :: rest =>
      let (value, rest) ← optional? fuel inRecord rest
      return ((key, value), rest)
    | rest => return ((key, nothing), rest)

/-- The items of a block list. -/
def blockItems? : (fuel : Nat) → List Token → Option (List Document × List Token)
  | 0, _ => none
  | _, .blockEnd :: rest => some ([], rest)
  | fuel + 1, .item :: tokens => do
    let (item, rest) ← optional? fuel false tokens
    let (items, rest) ← blockItems? fuel rest
    return (item :: items, rest)
  | _, _ => none

/-- The items of a list that has no start and no end of its own. -/
def looseItems? : (fuel : Nat) → List Token → Option (List Document × List Token)
  | 0, _ => none
  | fuel + 1, .item :: tokens => do
    let (item, rest) ← optional? fuel false tokens
    let (items, rest) ← looseItems? fuel rest
    return (item :: items, rest)
  | _, tokens => some ([], tokens)

/-- The entries of a block record. -/
def blockEntries? : (fuel : Nat) → List Token → Option (List (Document × Document) × List Token)
  | 0, _ => none
  | _, .blockEnd :: rest => some ([], rest)
  | fuel + 1, .key :: tokens => do
    let (entry, rest) ← entry? fuel true tokens
    let (entries, rest) ← blockEntries? fuel rest
    return (entry :: entries, rest)
  | _, _ => none

/-- The items in brackets; `separated` says that the opening bracket or a comma is just before.
An entry among them is a record of its own. -/
def flowItems? : (fuel : Nat) → (separated : Bool) → List Token →
    Option (List Document × List Token)
  | 0, _, _ => none
  | _, _, .flowListEnd :: rest => some ([], rest)
  | fuel + 1, false, .comma :: tokens => flowItems? fuel true tokens
  | _, false, _ => none
  | fuel + 1, true, .key :: tokens => do
    let (entry, rest) ← entry? fuel false tokens
    let (items, rest) ← flowItems? fuel false rest
    return (.record [entry] :: items, rest)
  | fuel + 1, true, tokens => do
    let (item, rest) ← node? fuel tokens
    let (items, rest) ← flowItems? fuel false rest
    return (item :: items, rest)

/-- The entries in braces; `separated` says that the opening brace or a comma is just before.
A value among them is a key without a value. -/
def flowEntries? : (fuel : Nat) → (separated : Bool) → List Token →
    Option (List (Document × Document) × List Token)
  | 0, _, _ => none
  | _, _, .flowRecordEnd :: rest => some ([], rest)
  | fuel + 1, false, .comma :: tokens => flowEntries? fuel true tokens
  | _, false, _ => none
  | fuel + 1, true, .key :: tokens => do
    let (entry, rest) ← entry? fuel false tokens
    let (entries, rest) ← flowEntries? fuel false rest
    return (entry :: entries, rest)
  | fuel + 1, true, tokens => do
    let (key, rest) ← node? fuel tokens
    let (entries, rest) ← flowEntries? fuel false rest
    return ((key, nothing) :: entries, rest)

end

/-- The one document that tokens hold. -/
def ofTokens? (tokens : List Token) : Option Document := do
  let fuel := 3 * tokens.length + 3
  let (document, rest) ←
    match tokens with
    | [] => some (nothing, [])
    | .documentStart :: tokens => optional? fuel false tokens
    | tokens => node? fuel tokens
  if rest.all (· = .documentEnd) then return document else none

/-- The document that a text holds. -/
def ofText? (source : String) : Option Document := (Token.ofText? source).bind ofTokens?

end RadixRouter.Document
