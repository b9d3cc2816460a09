/-
# The grammar of route patterns

A pattern starts with a slash; each of its segments holds at most one marker, every marker
is followed by a name, and a catch-all is the whole of the last segment.  `Pattern.fault?`
names the first segment that breaks a rule and, of several rules it breaks, the first in
the order of `Pattern.segmentFault?`.
-/

import RadixRouter.Pattern.Token
import RadixRouter.Text.Split

namespace RadixRouter.Pattern

/-- What is wrong with the text of a pattern. -/
inductive Fault where
  | noLeadingSlash
  | severalMarkers (wildcard : List UInt8)
  | nameless (marker : List UInt8)
  | catchAllNotLast
  | noSlashBeforeCatchAll
deriving DecidableEq

/-- The fault of one segment, given whether it is the last one. -/
def segmentFault? (segment : List UInt8) (isLast : Bool) : Option Fault :=
  match segment.dropWhile (fun b => !isMarker b) with
  | [] => none
  | marker :: name =>
    if name.any isMarker then some (.severalMarkers (marker :: name))
    else if name = [] then some (.nameless [marker])
    else if marker ≠ star then none
    else if !isLast then some .catchAllNotLast
    else if segment.head? ≠ some star then some .noSlashBeforeCatchAll
    else none

/-- The fault of the first faulty segment. -/
def segmentsFault? : List (List UInt8) → Option Fault
  | [] => none
  | segment :: rest => (segmentFault? segment rest.isEmpty).or (segmentsFault? rest)

/-- The fault of a pattern, or `none` when it follows the grammar. -/
def fault? : List UInt8 → Option Fault
  | [] => some .noLeadingSlash
  | b :: rest => if b = slash then segmentsFault? (splitOn slash rest) else some .noLeadingSlash

end RadixRouter.Pattern
