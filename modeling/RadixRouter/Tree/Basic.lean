/-
# Route trees

A route tree holds the patterns of one method.  Literal text is shared between patterns
byte by byte: a `static` node carries a label, and its branches are told apart by the next
byte, so a label may end inside a character.  Where a pattern goes on with a parameter,
that parameter is the only way down.  A catch-all hangs below the edge of the slash that
opens it and takes that slash into its own text, so that its value keeps the slash.

Every node counts the routes at or below it in `priority`; edges are kept with the larger
counts first.  Every wildcard names a hit counter.
-/

import RadixRouter.Pattern.Token

namespace RadixRouter

/-- Hit counters are named by their position in the order of their creation. -/
abbrev CounterId := Nat

mutual

/-- A node of a route tree over handlers of type `α`. -/
inductive Node (α : Type) where
  /-- Literal text, the handler of the route that ends after it, and what follows. -/
  | static (label : List UInt8) (priority : Nat) (handler : Option α) (below : Below α)
  /-- The end of a catch-all route. -/
  | catchAll (name : List UInt8) (hits : CounterId) (priority : Nat) (handler : α)

/-- What follows literal text. -/
inductive Below (α : Type) where
  /-- Branches by the next byte. -/
  | edges (es : List (UInt8 × Node α))
  /-- A parameter, the handler of the route that ends with it, and the node that the next
  slash leads to. -/
  | param (name : List UInt8) (hits : CounterId) (priority : Nat) (handler : Option α)
      (next : Option (Node α))

end

/-- A branch and the byte that selects it. -/
abbrev Edge (α : Type) := UInt8 × Node α

variable {α : Type}

namespace Node

/-- The number of routes recorded at or below a node. -/
def priority : Node α → Nat
  | .static _ priority _ _ => priority
  | .catchAll _ _ priority _ => priority

/-- The literal text of a node.  A catch-all has none: its slash belongs to its value. -/
def label : Node α → List UInt8
  | .static label _ _ _ => label
  | .catchAll .. => []

/-- What follows the label of a node. -/
def under : Node α → Below α
  | .static _ _ _ below => below
  | .catchAll .. => .edges []

/-- Whether a route ends with the one-byte text of this node, or with the catch-all here. -/
def endsSlash : Node α → Bool
  | .static label _ handler _ => label.length = 1 && handler.isSome
  | .catchAll .. => true

end Node

/-- Whether one slash more would end a route: the node that the slash leads to ends one, or
is a catch-all. -/
def Below.offersSlash : Below α → Bool
  | .edges es =>
    match es.find? (·.1 = slash) with
    | some (_, node) => node.endsSlash
    | none => false
  | .param .. => false

mutual

/-- The text of a node followed by the texts down to the first route below it. -/
def Node.sample : Node α → List UInt8
  | .static label _ handler below =>
    label ++ if handler.isSome then [] else below.sample
  | .catchAll name _ _ _ => slash :: star :: name

/-- The text down to the first route below. -/
def Below.sample : Below α → List UInt8
  | .edges es => sampleEdges es
  | .param name _ _ handler next =>
    colon :: name ++ if handler.isSome then [] else sampleNext next

def sampleEdges : List (UInt8 × Node α) → List UInt8
  | [] => []
  | (_, node) :: _ => node.sample

def sampleNext : Option (Node α) → List UInt8
  | none => []
  | some node => node.sample

end

end RadixRouter
