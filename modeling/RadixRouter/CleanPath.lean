/-
# Clean paths

A path is clean when it is `/`, or `/` followed by elements joined by `/`, none of them
empty, `.` or `..`, with an optional final slash.  `cleanPath` gives the clean path that
means the same: empty and `.` parts are dropped, `..` takes back the element before it
(never above the root), and a final slash is kept.  A final `.` names a directory, so it
counts as a final slash; a final `..` does not.
-/

import RadixRouter.Text.Split

namespace RadixRouter

namespace CleanPath

/-- The elements seen so far, latest element first, and whether a slash goes behind them. -/
structure Cleaning where
  elements : List (List Char)
  trailing : Bool

/-- Takes one part of a path in.  Only if no part follows it does a `.` count. -/
def step (cleaning : Cleaning) (part : List Char) (last : Bool) : Cleaning :=
  if part = [] then cleaning
  else if part = ['.'] then if last then { cleaning with trailing := true } else cleaning
  else if part = ['.', '.'] then { cleaning with elements := cleaning.elements.tail }
  else { cleaning with elements := part :: cleaning.elements }

/-- Takes all parts of a path in, in order. -/
def scan (cleaning : Cleaning) : List (List Char) → Cleaning
  | [] => cleaning
  | part :: parts => scan (step cleaning part parts.isEmpty) parts

/-- The path with these elements, with a final slash if asked for. -/
def render (elements : List (List Char)) (trailing : Bool) : List Char :=
  let cleaned := elements.flatMap ('/' :: ·)
  if cleaned = [] then ['/']
  else if trailing then cleaned ++ ['/']
  else cleaned

/-- The clean form of a path given by its characters. -/
def ofChars (path : List Char) : List Char :=
  if path = [] then ['/']
  else
    let trailing : Bool := 1 < path.length && path.getLast? = some '/'
    let cleaning := scan ⟨[], trailing⟩ (splitOn '/' path)
    render cleaning.elements.reverse cleaning.trailing

end CleanPath

/-- The clean form of a path. -/
def cleanPath (path : String) : String := String.ofList (CleanPath.ofChars path.toList)

end RadixRouter
