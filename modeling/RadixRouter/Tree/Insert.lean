/-
# Adding a route to a tree

`Node.graft` carries a pattern down the tree as far as they agree.  Where a label and the
pattern part, the node is cut in two; where the pattern leaves the tree, its rest becomes a
chain of new nodes.  The pattern is refused when it ends where a route already ends, or
when one of the two ways to go on at some point is a wildcard.

A node counts a route as soon as the pattern passes it, and a child that gains a route
moves in front of its siblings with fewer.  A refused pattern leaves cuts behind, which
change no path's result; `Node.recount` then counts the routes afresh and ranks the edges.
-/

import RadixRouter.Tree.Basic

namespace RadixRouter

variable {α : Type}

/-- Why a pattern cannot be added, with the tokens not yet placed and the text of the first
route in the way, read from that point on. -/
inductive Clash where
  /-- A route ends exactly here. -/
  | duplicate
  /-- A wildcard and something else would follow the same text. -/
  | wildcard (rest : List Token) (segment existing : List UInt8)
  /-- A catch-all would follow a slash that already leads on, or ends a route. -/
  | catchAll (rest : List Token) (existing : List UInt8)

/-- What an attempt leaves: the tree, and either the next unused counter or the clash. -/
structure Grafted (τ : Type) where
  tree : τ
  verdict : Except Clash CounterId

/-- The text shared by a label and the literal bytes of a pattern, and what is left of
either. -/
def overlap : List UInt8 → List Token → List UInt8 × List UInt8 × List Token
  | b :: label, .byte c :: rest =>
    if b = c then
      let (common, label', rest') := overlap label rest
      (b :: common, label', rest')
    else ([], b :: label, .byte c :: rest)
  | label, rest => ([], label, rest)

/-- Puts one byte in front of a label. -/
def Node.prepend (b : UInt8) : Node α → Node α
  | .static label priority handler below => .static (b :: label) priority handler below
  | .catchAll name hits priority handler => .catchAll name hits priority handler

/-- The nodes of a single route, with counters from `fresh` on; returns the next unused
counter too.  The slash before a catch-all is the byte of its edge, not part of a label. -/
def Node.ofTokens (handler : α) : List Token → (fresh : CounterId) → Node α × CounterId
  | [], fresh => (.static [] 1 (some handler) (.edges []), fresh)
  | .catchAll name :: _, fresh =>
    (.static [] 1 none (.edges [(slash, .catchAll name fresh 1 handler)]), fresh + 1)
  | .param name :: [], fresh =>
    (.static [] 1 none (.param name fresh 1 (some handler) none), fresh + 1)
  | .param name :: rest, fresh =>
    let (next, fresh') := ofTokens handler rest (fresh + 1)
    (.static [] 1 none (.param name fresh 1 none (some next)), fresh')
  | .byte _ :: .catchAll name :: rest, fresh =>
    ofTokens handler (.catchAll name :: rest) fresh
  | .byte b :: rest, fresh =>
    let (node, fresh') := ofTokens handler rest fresh
    (node.prepend b, fresh')

/-- Moves the edge of a byte in front of the siblings before it that have fewer routes. -/
def raise (index : UInt8) (es : List (Edge α)) : List (Edge α) :=
  match es.dropWhile (·.1 ≠ index) with
  | [] => es
  | edge :: after =>
    let before := (es.takeWhile (·.1 ≠ index)).reverse
    let fewer (sibling : Edge α) : Bool := sibling.2.priority < edge.2.priority
    (before.dropWhile fewer).reverse ++ edge :: (before.takeWhile fewer).reverse ++ after

/-- Places an edge in front of the first one that has no more routes. -/
def place (edge : Edge α) : List (Edge α) → List (Edge α)
  | [] => [edge]
  | other :: es =>
    if other.2.priority ≤ edge.2.priority then edge :: other :: es
    else other :: place edge es

/-- Edges by falling number of routes, equals in the order they had. -/
def rank (es : List (Edge α)) : List (Edge α) := es.foldr place []

/-- Adds a route where no edge takes its next token. -/
def sprout (handler : α) (fresh : CounterId) (es : List (Edge α)) (rest : List Token) :
    Grafted (Below α) :=
  match rest with
  | [] => ⟨.edges es, .ok fresh⟩
  | .byte b :: _ =>
    let (node, fresh') := Node.ofTokens handler rest fresh
    ⟨.edges (raise b (es ++ [(b, node)])), .ok fresh'⟩
  | .param name :: _ =>
    if es.isEmpty then
      let (node, fresh') := Node.ofTokens handler rest fresh
      ⟨node.under, .ok fresh'⟩
    else ⟨.edges es, .error (.wildcard rest (colon :: name) (sampleEdges es))⟩
  | .catchAll _ :: _ => ⟨.edges es, .error (.catchAll rest (sampleEdges es))⟩

mutual

/-- Adds the route with these remaining tokens at or below a node. -/
def Node.graft (handler : α) (fresh : CounterId) : Node α → List Token → Grafted (Node α)
  | .catchAll name hits priority existing, rest =>
    ⟨.catchAll name hits (priority + 1) existing,
      .error <|
        if rest = [.byte slash, .catchAll name] then .duplicate
        else .wildcard rest (Pattern.bytes rest) (slash :: star :: name)⟩
  | .static label priority existing below, rest =>
    match overlap label rest with
    | (common, b :: suffix, rest') =>
      let lower : List (UInt8 × Node α) := [(b, .static (b :: suffix) priority existing below)]
      match rest' with
      | [] => ⟨.static common (priority + 1) (some handler) (.edges lower), .ok fresh⟩
      | _ :: _ =>
        let grafted := sprout handler fresh lower rest'
        ⟨.static common (priority + 1) none grafted.tree, grafted.verdict⟩
    | (_, [], []) =>
      match existing with
      | some _ => ⟨.static label (priority + 1) existing below, .error .duplicate⟩
      | none => ⟨.static label (priority + 1) (some handler) below, .ok fresh⟩
    | (_, [], token :: rest') =>
      let grafted := below.graft handler fresh (token :: rest')
      ⟨.static label (priority + 1) existing grafted.tree, grafted.verdict⟩

/-- Adds the route with these remaining tokens, at least one, below a label. -/
def Below.graft (handler : α) (fresh : CounterId) : Below α → List Token → Grafted (Below α)
  | .edges es, rest =>
    match rest with
    | .byte b :: _ =>
      match graftEdges handler fresh es b rest with
      | some grafted => ⟨.edges (raise b grafted.tree), grafted.verdict⟩
      | none => sprout handler fresh es rest
    | _ => sprout handler fresh es rest
  | .param name hits priority existing next, rest =>
    let clash : Grafted (Below α) :=
      ⟨.param name hits (priority + 1) existing next,
        .error (.wildcard rest (untilSlash (Pattern.bytes rest))
          (Below.sample (.param name hits priority existing next)))⟩
    match rest with
    | .param name' :: rest' =>
      if name' = name then
        match rest' with
        | [] =>
          match existing with
          | some _ => ⟨.param name hits (priority + 1) existing next, .error .duplicate⟩
          | none => ⟨.param name hits (priority + 1) (some handler) next, .ok fresh⟩
        | _ :: _ =>
          let grafted := graftNext handler fresh next rest'
          ⟨.param name hits (priority + 1) existing (some grafted.tree), grafted.verdict⟩
      else clash
    | _ => clash

/-- Adds the route below the edge of a byte, if there is such an edge. -/
def graftEdges (handler : α) (fresh : CounterId) :
    List (UInt8 × Node α) → UInt8 → List Token → Option (Grafted (List (UInt8 × Node α)))
  | [], _, _ => none
  | (index, node) :: es, b, rest =>
    if index = b then
      let grafted := node.graft handler fresh rest
      some ⟨(index, grafted.tree) :: es, grafted.verdict⟩
    else
      (graftEdges handler fresh es b rest).map fun grafted =>
        ⟨(index, node) :: grafted.tree, grafted.verdict⟩

/-- Adds the route after a parameter. -/
def graftNext (handler : α) (fresh : CounterId) :
    Option (Node α) → List Token → Grafted (Node α)
  | none, rest =>
    let (node, fresh') := Node.ofTokens handler rest fresh
    ⟨node, .ok fresh'⟩
  | some node, rest => node.graft handler fresh rest

end

/-- The number of routes recorded below a label. -/
def Below.weight : Below α → Nat
  | .edges es => es.foldr (fun edge total => edge.2.priority + total) 0
  | .param _ _ priority _ _ => priority

mutual

/-- Sets every count to the number of handlers at or below the node and ranks the edges. -/
def Node.recount : Node α → Node α
  | .static label _ handler below =>
    let below' := below.recount
    .static label (handler.toList.length + below'.weight) handler below'
  | .catchAll name hits _ handler => .catchAll name hits 1 handler

def Below.recount : Below α → Below α
  | .edges es => .edges (rank (recountEdges es))
  | .param name hits _ handler next =>
    let next' := recountNext next
    let lower := (next'.map Node.priority).getD 0
    .param name hits (handler.toList.length + lower) handler next'

def recountEdges : List (UInt8 × Node α) → List (UInt8 × Node α)
  | [] => []
  | (index, node) :: es => (index, node.recount) :: recountEdges es

def recountNext : Option (Node α) → Option (Node α)
  | none => none
  | some node => some node.recount

end

/-- Adds a route to a tree.  After a clash the counts are made afresh. -/
def Node.insert (node : Node α) (handler : α) (fresh : CounterId) (route : List Token) :
    Grafted (Node α) :=
  let grafted := node.graft handler fresh route
  match grafted.verdict with
  | .ok _ => grafted
  | .error _ => ⟨grafted.tree.recount, grafted.verdict⟩

end RadixRouter
