/-
# Printing results as JSON

Objects keep the order of their members.  The readable form indents by two spaces and
writes empty lists and objects on one line; the compact form has no spaces at all.
-/

import RadixRouter.Text.Quoted

namespace RadixRouter

/-- A JSON value; all numbers in results are natural numbers. -/
inductive Json where
  | null
  | bool (b : Bool)
  | nat (n : Nat)
  | str (s : String)
  | arr (items : List Json)
  | obj (members : List (String × Json))

namespace Json

/-- Text, or null where there is none. -/
def ofText? : Option String → Json
  | some s => .str s
  | none => .null

/-- One character as it is written in a JSON string. -/
def escape (c : Char) : List Char :=
  if c = '"' then ['\\', '"']
  else if c = '\\' then ['\\', '\\']
  else if c = '\n' then ['\\', 'n']
  else if c = '\r' then ['\\', 'r']
  else if c = '\t' then ['\\', 't']
  else if c.toNat = 8 then ['\\', 'b']
  else if c.toNat = 12 then ['\\', 'f']
  else if c.toNat < 32 then ['\\', 'u'] ++ Quoted.hexDigits 4 c.toNat
  else [c]

/-- A JSON string. -/
def quote (s : String) : String := String.ofList ('"' :: s.toList.flatMap escape ++ ['"'])

/-- A line break and the indentation of a level. -/
def lineBreak (level : Nat) : String := String.ofList ('\n' :: List.replicate (2 * level) ' ')

mutual

/-- The compact form of a value. -/
def compact : Json → String
  | .null => "null"
  | .bool b => if b then "true" else "false"
  | .nat n => toString n
  | .str s => quote s
  | .arr items => "[" ++ ",".intercalate (compactItems items) ++ "]"
  | .obj members => "\x7b" ++ ",".intercalate (compactMembers members) ++ "\x7d"

def compactItems : List Json → List String
  | [] => []
  | item :: items => item.compact :: compactItems items

def compactMembers : List (String × Json) → List String
  | [] => []
  | (name, value) :: members => (quote name ++ ":" ++ value.compact) :: compactMembers members

end

mutual

/-- The readable form of a value that stands at a level of indentation. -/
def prettyAt (level : Nat) : Json → String
  | .null => "null"
  | .bool b => if b then "true" else "false"
  | .nat n => toString n
  | .str s => quote s
  | .arr items =>
    if items.isEmpty then "[]"
    else "[" ++ ",".intercalate (prettyItems (level + 1) items) ++ lineBreak level ++ "]"
  | .obj members =>
    if members.isEmpty then "\x7b\x7d"
    else "\x7b" ++ ",".intercalate (prettyMembers (level + 1) members) ++ lineBreak level ++ "\x7d"

def prettyItems (level : Nat) : List Json → List String
  | [] => []
  | item :: items => (lineBreak level ++ item.prettyAt level) :: prettyItems level items

def prettyMembers (level : Nat) : List (String × Json) → List String
  | [] => []
  | (name, value) :: members =>
    (lineBreak level ++ quote name ++ ": " ++ value.prettyAt level) :: prettyMembers level members

end

/-- The readable form of a value. -/
def pretty (value : Json) : String := value.prettyAt 0

end Json

end RadixRouter
