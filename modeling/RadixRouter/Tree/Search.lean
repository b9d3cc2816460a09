/-
# Finding the route of a path

The walk never goes back: at every point a path has one way down, because a wildcard has
no sibling.  It takes a label off the front of the path, then the edge of the next byte, or
gives a parameter the bytes up to the next slash, or gives a catch-all everything.  A
parameter takes at least one byte.

A walk that fails says whether the path with its last slash toggled would have matched.
-/

import RadixRouter.Tree.Basic

namespace RadixRouter

variable {α : Type}

/-- The end of a walk. -/
inductive Search (α : Type) where
  /-- The handler, the name and value of each wildcard in order, and the counter of the last
  wildcard, if there is one. -/
  | found (handler : α) (captures : List (List UInt8 × List UInt8))
      (deepest : Option CounterId)
  /-- No route; `hint` when one more or one less final slash would give one. -/
  | missed (hint : Bool)

namespace Search

/-- A walk continued below a parameter that took `value`. -/
def under (name value : List UInt8) (hits : CounterId) : Search α → Search α
  | .found handler captures deepest =>
    .found handler ((name, value) :: captures) (deepest.or (some hits))
  | .missed hint => .missed hint

/-- The handler that was found. -/
def handler? : Search α → Option α
  | .found handler _ _ => some handler
  | .missed _ => none

/-- The final-slash hint; none is given with a handler. -/
def hint : Search α → Bool
  | .found .. => false
  | .missed hint => hint

end Search

/-- What is left of a path after a label, when it starts with the label. -/
def afterLabel : (label path : List UInt8) → Option (List UInt8)
  | [], path => some path
  | _ :: _, [] => none
  | b :: label, c :: path => if b = c then afterLabel label path else none

/-- Exactly the paths that start with the label go on, with the rest of their bytes. -/
theorem afterLabel_eq_some_iff {label path rest : List UInt8} :
    afterLabel label path = some rest ↔ path = label ++ rest := by
  induction label generalizing path with
  | nil => simp [afterLabel]
  | cons b label ih =>
    cases path with
    | nil => simp [afterLabel]
    | cons c path =>
      by_cases hbc : b = c
      · subst hbc; simp [afterLabel, ih]
      · simp [afterLabel, hbc, Ne.symm hbc]

mutual

/-- Walks a path at a node.  `parent` says whether the node above ends a route, and is
`none` at the root. -/
def Node.search (parent : Option Bool) : Node α → (path : List UInt8) → Search α
  | .catchAll name hits _ handler, path => .found handler [(name, path)] (some hits)
  | .static label _ handler below, path =>
    match afterLabel label path with
    | some [] =>
      match handler with
      | some handler => .found handler [] none
      | none =>
        match parent with
        | some above => .missed (if path = [slash] then above else below.offersSlash)
        | none => .missed below.offersSlash
    | some (b :: rest) => below.search handler.isSome (b :: rest)
    | none =>
      .missed (path = [slash] && parent = some true || label = path ++ [slash] && handler.isSome)

/-- Walks the rest of a path, at least one byte, below a label; `ends` says whether a route
ends with the label. -/
def Below.search (ends : Bool) : Below α → (path : List UInt8) → Search α
  | .edges es, path =>
    match searchEdges ends es path with
    | some result => result
    | none => .missed (path = [slash] && ends)
  | .param name hits _ handler next, path =>
    let value := untilSlash path
    if value = [] then .missed false
    else
      match fromSlash path with
      | [] =>
        match handler with
        | some handler => .found handler [(name, value)] (some hits)
        | none => .missed (next.any (fun node => node.label = [slash] && node.endsSlash))
      | b :: rest =>
        match searchNext handler.isSome next (b :: rest) with
        | some result => result.under name value hits
        | none => .missed rest.isEmpty

/-- Walks the rest of a path along the edge of its first byte, if there is one. -/
def searchEdges (ends : Bool) : List (UInt8 × Node α) → List UInt8 → Option (Search α)
  | [], _ => none
  | (index, node) :: es, path =>
    if path.head? = some index then some (node.search (some ends) path)
    else searchEdges ends es path

/-- Walks the rest of a path after a parameter, if the tree goes on there. -/
def searchNext (ends : Bool) : Option (Node α) → List UInt8 → Option (Search α)
  | none, _ => none
  | some node, path => some (node.search (some ends) path)

end

/-- Finds the route of a path in a tree. -/
def Node.find (tree : Node α) (path : List UInt8) : Search α := tree.search none path

end RadixRouter
