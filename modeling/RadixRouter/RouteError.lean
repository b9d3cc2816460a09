/-
# Why a route is refused

Every refusal carries the refused pattern and, where another route is in the way, that
route.  The codes are stable; the text names the code, the cause and the routes involved.
-/

import RadixRouter.Pattern.Grammar
import RadixRouter.Text.Utf8

namespace RadixRouter

/-- The cause of a refused registration. -/
inductive RouteError where
  | pathMustStartWithSlash (path : String)
  | duplicateRoute (path : String)
  | conflictingWildcard (path segment existing : String)
  | namelessWildcard (path wildcard : String)
  | multipleWildcardsInSegment (path segment : String)
  | catchAllMustBeLast (path : String)
  | catchAllConflictsWithChildren (path existing : String)
  | noSlashBeforeCatchAll (path : String)
deriving DecidableEq

namespace RouteError

/-- The refusal of a pattern with a fault in its text. -/
def ofFault (pattern : String) : Pattern.Fault → RouteError
  | .noLeadingSlash => .pathMustStartWithSlash pattern
  | .severalMarkers wildcard => .multipleWildcardsInSegment pattern (Utf8.decodeLossy wildcard)
  | .nameless marker => .namelessWildcard pattern (Utf8.decodeLossy marker)
  | .catchAllNotLast => .catchAllMustBeLast pattern
  | .noSlashBeforeCatchAll => .noSlashBeforeCatchAll pattern

/-- The stable code of a cause. -/
def code : RouteError → String
  | .pathMustStartWithSlash _ => "R1001"
  | .duplicateRoute _ => "R1002"
  | .conflictingWildcard .. => "R1003"
  | .namelessWildcard .. => "R1004"
  | .multipleWildcardsInSegment .. => "R1005"
  | .catchAllMustBeLast _ => "R1006"
  | .catchAllConflictsWithChildren .. => "R1007"
  | .noSlashBeforeCatchAll _ => "R1008"

/-- The refused pattern. -/
def path : RouteError → String
  | .pathMustStartWithSlash path => path
  | .duplicateRoute path => path
  | .conflictingWildcard path _ _ => path
  | .namelessWildcard path _ => path
  | .multipleWildcardsInSegment path _ => path
  | .catchAllMustBeLast path => path
  | .catchAllConflictsWithChildren path _ => path
  | .noSlashBeforeCatchAll path => path

/-- The cause in words, without its code. -/
def reason : RouteError → String
  | .pathMustStartWithSlash path => "path must begin with '/' in path '" ++ path ++ "'"
  | .duplicateRoute path => "a handler is already registered for path '" ++ path ++ "'"
  | .conflictingWildcard path segment existing =>
    "'" ++ segment ++ "' in new path '" ++ path ++ "' conflicts with existing route '" ++
      existing ++ "'"
  | .namelessWildcard path wildcard =>
    "wildcards must be named with a non-empty name, found '" ++ wildcard ++ "' in path '" ++
      path ++ "'"
  | .multipleWildcardsInSegment path segment =>
    "only one wildcard per path segment is allowed, found '" ++ segment ++ "' in path '" ++
      path ++ "'"
  | .catchAllMustBeLast path =>
    "catch-all routes are only allowed at the end of the path in path '" ++ path ++ "'"
  | .catchAllConflictsWithChildren path existing =>
    "catch-all conflicts with existing route '" ++ existing ++ "' in path '" ++ path ++ "'"
  | .noSlashBeforeCatchAll path => "no '/' before catch-all in path '" ++ path ++ "'"

/-- The text of a refusal. -/
def message (error : RouteError) : String := error.code ++ ": " ++ error.reason

end RouteError

end RadixRouter
