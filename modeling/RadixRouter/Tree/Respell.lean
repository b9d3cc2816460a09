/-
# Finding the registered spelling of a path

`Node.respelling?` looks for a route that matches a path up to letter case and gives the
path in the spelling of the route: literal text as registered, wildcard values as
requested.  On request it also adds or removes a final slash.

An edge is chosen by a byte of the next character's lowercase form or, failing that, of
its uppercase form; the edge may end inside the character, so the bytes of the chosen form
that are still to be followed are carried along.  The first byte of a label is the byte of
its edge and is not compared again.  The lowercase branch is tried to its end before the
uppercase one.
-/

import RadixRouter.Tree.Basic
import RadixRouter.Text.SimpleCase

namespace RadixRouter

open SimpleCase (lower upper sameFold)

variable {α : Type}

/-- The character that covers position `n` of a byte string, found by looking back at most
three bytes, and how many of its bytes lie before that position. -/
def characterAt (bytes : List UInt8) (n : Nat) : Option (Char × Nat) :=
  (List.range (min n 3 + 1)).findSome? fun back =>
    match bytes.drop (n - back) with
    | b :: rest => if Utf8.isStart b then some (Utf8.firstChar (b :: rest), back) else none
    | [] => none

/-- The next byte of a carried character; an exhausted carry reads as byte 0. -/
def carriedByte (carry : List UInt8) : UInt8 := carry.headD 0

/-- A label read loosely: equal to the start of the path up to case, its first byte aside. -/
def matchesLoosely (label path : List UInt8) : Bool :=
  label.length ≤ path.length && sameFold (path.take label.length).tail label.tail

/-- A label that is one slash longer than the path, and otherwise equal up to case. -/
def matchesButSlash (label path : List UInt8) : Bool :=
  !path.isEmpty && label.length = path.length + 1 && label.getLast? = some slash &&
    sameFold path.tail label.dropLast.tail

mutual

/-- The registered spelling of a path at a node.  `carry` holds the bytes of a mapped
character still to be followed, `ends` whether the node above ends a route. -/
def Node.respell (fix : Bool) :
    Node α → (path carry : List UInt8) → (ends : Bool) → Option (List UInt8)
  | .catchAll .., path, _, _ => some path
  | .static label _ handler below, path, carry, ends =>
    if matchesLoosely label path then
      (below.respell fix path label.length carry handler.isSome).map (label ++ ·)
    else if fix && path = [slash] then
      if ends then some [] else none
    else if fix && handler.isSome && matchesButSlash label path then some label
    else none

/-- The registered spelling of what follows a label of `n` bytes at the front of a path;
`ends` says whether a route ends with the label. -/
def Below.respell (fix : Bool) :
    Below α → (path : List UInt8) → (n : Nat) → (carry : List UInt8) → (ends : Bool) →
      Option (List UInt8)
  | .edges es, path, n, carry, ends =>
    let rest := path.drop n
    if rest.isEmpty then
      if ends then some [] else if fix && Below.offersSlash (.edges es) then some [slash] else none
    else
      let carry := carry.drop n
      let unslashed := if fix && rest = [slash] && ends then some [] else none
      if carriedByte carry ≠ 0 then
        if es.any (·.1 = carriedByte carry) then respellEdges fix es rest carry ends
        else unslashed
      else
        match characterAt path n with
        | none => unslashed
        | some (c, back) =>
          let low := (Utf8.encodeChar (lower c)).drop back
          match respellEdges fix es rest low ends with
          | some spelling => some spelling
          | none =>
            let high := (Utf8.encodeChar (upper c)).drop back
            if upper c ≠ lower c ∧ es.any (·.1 = carriedByte high) then
              respellEdges fix es rest high ends
            else unslashed
  | .param _ _ _ handler next, path, n, _, ends =>
    let rest := path.drop n
    if rest.isEmpty then
      if ends then some [] else none
    else
      let value := untilSlash rest
      if value = [] then none
      else
        match fromSlash rest with
        | [] =>
          if handler.isSome then some value
          else if fix && next.any (fun node => node.label = [slash] && node.endsSlash) then
            some (value ++ [slash])
          else none
        | b :: after =>
          match next with
          | some _ => (respellNext fix next (b :: after) handler.isSome).map (value ++ ·)
          | none => if fix && after.isEmpty then some value else none

/-- The registered spelling of a path along the edge of the first carried byte. -/
def respellEdges (fix : Bool) :
    List (UInt8 × Node α) → (path carry : List UInt8) → (ends : Bool) → Option (List UInt8)
  | [], _, _, _ => none
  | (index, node) :: es, path, carry, ends =>
    if index = carriedByte carry then node.respell fix path carry ends
    else respellEdges fix es path carry ends

/-- The registered spelling of a path after a parameter. -/
def respellNext (fix : Bool) :
    Option (Node α) → (path : List UInt8) → (ends : Bool) → Option (List UInt8)
  | none, _, _ => none
  | some node, path, ends => node.respell fix path [] ends

end

/-- The path in the spelling of a route that matches it up to case and, with `fix`, up to a
final slash. -/
def Node.respelling? (tree : Node α) (path : String) (fix : Bool) : Option String :=
  match Utf8.encode path with
  | [] => none
  | b :: rest =>
    if b = slash then (tree.respell fix (b :: rest) [] false).bind Utf8.decode? else none

end RadixRouter
