/-
# Trees as they lie in memory

A tree lies in memory as records of one type.  A record of any kind has a label, the bytes that
select its children, a mark that its only child is a wildcard, a count of routes, children and a
handler; what a field must hold beside the others is not part of the type.

`Stored` says which records stand for a node.  The kind of a record tells the root apart from
other literal nodes and names the counter of a wildcard.  A parameter that first had nothing
behind it got an index byte with the record that was added later, any other has none; so a node
does not determine its record, and `Stored` is a relation.
-/

import Mathlib.Data.List.Forall2
import RadixRouter.Proofs.ChildOrder
import RadixRouter.Proofs.Guards

namespace RadixRouter

variable {α : Type}

/-- What a record stands for; wildcards name their counter. -/
inductive Kind where
  | static
  | root
  | param (hits : CounterId)
  | catchAll (hits : CounterId)

namespace Kind

def isRoot : Kind → Bool
  | .root => true
  | _ => false

def isParam : Kind → Bool
  | .param _ => true
  | _ => false

def isCatchAll : Kind → Bool
  | .catchAll _ => true
  | _ => false

/-- The kind of a literal record, at the top of a tree or below it. -/
def literal (top : Bool) : Kind := if top then .root else .static

@[simp]
theorem isRoot_literal (top : Bool) : (literal top).isRoot = top := by cases top <;> rfl

@[simp]
theorem isParam_literal (top : Bool) : (literal top).isParam = false := by cases top <;> rfl

@[simp]
theorem isCatchAll_literal (top : Bool) : (literal top).isCatchAll = false := by cases top <;> rfl

end Kind

/-- A node as it lies in memory. -/
structure RawNode (α : Type) where
  label : List UInt8
  /-- The bytes that select the children. -/
  indices : List UInt8
  wildChild : Bool
  kind : Kind
  priority : Nat
  children : List (RawNode α)
  handler : Option α

namespace RawNode

/-- A new record. -/
def blank : RawNode α := ⟨[], [], false, .static, 0, [], none⟩

/-- A new record that counts its first route. -/
def bud : RawNode α := ⟨[], [], false, .static, 1, [], none⟩

/-- The record that holds the text of a catch-all. -/
def leaf (name : List UInt8) (hits : CounterId) (priority : Nat) (handler : α) : RawNode α :=
  ⟨slash :: star :: name, [], false, .catchAll hits, priority, [], some handler⟩

/-- The empty record in front of a catch-all. -/
def slot (name : List UInt8) (hits : CounterId) (priority : Nat) (handler : α) : RawNode α :=
  ⟨[], [], true, .catchAll hits, priority, [leaf name hits priority handler], none⟩

/-- The record of a parameter. -/
def value (name indices : List UInt8) (hits : CounterId) (priority : Nat)
    (children : List (RawNode α)) (handler : Option α) : RawNode α :=
  ⟨colon :: name, indices, false, .param hits, priority, children, handler⟩

end RawNode

mutual

/-- The records that stand for a node. -/
inductive Stored : (top : Bool) → Node α → RawNode α → Prop
  | static {top : Bool} {label : List UInt8} {priority : Nat} {handler : Option α}
      {below : Below α} {indices : List UInt8} {wildChild : Bool} {children : List (RawNode α)} :
      StoredBelow below indices wildChild children →
      Stored top (.static label priority handler below)
        ⟨label, indices, wildChild, .literal top, priority, children, handler⟩
  | catchAll {top : Bool} {name : List UInt8} {hits : CounterId} {priority : Nat} {handler : α} :
      Stored top (.catchAll name hits priority handler) (.slot name hits priority handler)

/-- The index bytes, the mark and the children that stand for what follows a label. -/
inductive StoredBelow : Below α → List UInt8 → Bool → List (RawNode α) → Prop
  | edges {es : List (Edge α)} {children : List (RawNode α)} :
      List.Forall₂ (fun edge child => Stored false edge.2 child) es children →
      StoredBelow (.edges es) (es.map (·.1)) false children
  | last {name : List UInt8} {hits : CounterId} {priority : Nat} {handler : Option α} :
      StoredBelow (.param name hits priority handler none) [] true
        [.value name [] hits priority [] handler]
  | next {name indices : List UInt8} {hits : CounterId} {priority : Nat} {handler : Option α}
      {node : Node α} {child : RawNode α} :
      Stored false node child →
      StoredBelow (.param name hits priority handler (some node)) [] true
        [.value name indices hits priority [child] handler]

end

/-- The children that stand for edges. -/
abbrev StoredEdges (es : List (Edge α)) (children : List (RawNode α)) : Prop :=
  List.Forall₂ (fun edge child => Stored false edge.2 child) es children

variable {top : Bool} {node : Node α} {record child : RawNode α} {es : List (Edge α)}
  {below : Below α} {indices : List UInt8} {wildChild : Bool} {children : List (RawNode α)}

theorem Stored.priority_eq (stored : Stored top node record) :
    record.priority = node.priority := by
  cases stored <;> rfl

/-- Either no index byte is the one sought, or the first that is stands as far from the front as
its child. -/
theorem split_at_index (stored : StoredEdges es children) (b : UInt8) :
    ((es.map (·.1)).findIdx? (· = b) = none ∧ b ∉ es.map (·.1)) ∨
      ∃ before node after front child back, es = before ++ (b, node) :: after ∧
        b ∉ before.map (·.1) ∧ children = front ++ child :: back ∧ StoredEdges before front ∧
          Stored false node child ∧ StoredEdges after back ∧
            (es.map (·.1)).findIdx? (· = b) = some front.length := by
  induction stored with
  | nil => exact Or.inl ⟨rfl, List.not_mem_nil⟩
  | @cons edge child es children hchild hchildren ih =>
      obtain ⟨index, node⟩ := edge
      rw [List.map_cons, List.findIdx?_cons]
      by_cases hindex : index = b
      · subst hindex
        exact Or.inr ⟨[], node, es, [], child, children, rfl, List.not_mem_nil, rfl, .nil, hchild,
          hchildren, by simp⟩
      · rw [if_neg (by simpa using hindex)]
        rcases ih with ⟨hnone, hfree⟩ |
          ⟨before, node', after, front, child', back, rfl, hfree, rfl, hbefore, hnode, hafter,
            hsome⟩
        · refine Or.inl ⟨by rw [hnone]; rfl, ?_⟩
          rw [List.mem_cons, not_or]
          exact ⟨Ne.symm hindex, hfree⟩
        · refine Or.inr ⟨(index, node) :: before, node', after, child :: front, child', back, rfl,
            ?_, rfl, .cons hchild hbefore, hnode, hafter, by rw [hsome]; rfl⟩
          rw [List.map_cons, List.mem_cons, not_or]
          exact ⟨Ne.symm hindex, hfree⟩

/-- The child of an edge stands between the children of the edges around it. -/
theorem split_at_edge {before after : List (Edge α)} {edge : Edge α}
    (stored : StoredEdges (before ++ edge :: after) children) :
    ∃ front child back, children = front ++ child :: back ∧ StoredEdges before front ∧
      Stored false edge.2 child ∧ StoredEdges after back := by
  induction before generalizing children with
  | nil =>
      obtain ⟨child, back, hchild, hback, rfl⟩ := List.forall₂_cons_left_iff.mp stored
      exact ⟨[], child, back, rfl, .nil, hchild, hback⟩
  | cons first before ih =>
      obtain ⟨child, children, hchild, hchildren, rfl⟩ := List.forall₂_cons_left_iff.mp stored
      obtain ⟨front, child', back, rfl, hfront, hchild', hback⟩ := ih hchildren
      exact ⟨child :: front, child', back, rfl, .cons hchild hfront, hchild', hback⟩

/-- The index byte of an edge leads to the child that stands for the first such edge. -/
theorem child_of_index (stored : StoredEdges es children) (b : UInt8) :
    ((es.map (·.1)).findIdx? (· = b) = none ∧ es.find? (·.1 = b) = none) ∨
      ∃ i node child, (es.map (·.1)).findIdx? (· = b) = some i ∧ children[i]? = some child ∧
        es.find? (·.1 = b) = some (b, node) ∧ (b, node) ∈ es ∧ Stored false node child := by
  rcases split_at_index stored b with ⟨hnone, hfree⟩ |
    ⟨before, node, after, front, child, back, rfl, hfree, rfl, -, hnode, -, hsome⟩
  · exact Or.inl ⟨hnone, find?_of_free hfree⟩
  · exact Or.inr ⟨front.length, node, child, hsome, Guard.getElem?_middle rfl, find?_middle hfree,
      List.mem_append_right _ (List.mem_cons_self ..), hnode⟩

namespace RawNode

/-- Whether one slash more would end a route: by the child of the slash, or the catch-all there. -/
def slashEnds? (n : RawNode α) : Option Bool :=
  match n.indices.findIdx? (· = slash) with
  | none => some false
  | some i => do
    let child ← n.children[i]?
    return child.label.length = 1 && child.handler.isSome ||
      child.kind.isCatchAll && child.children.head?.any (·.handler.isSome)

/-- Whether a route ends with the slash that a parameter is followed by. -/
def loneSlash? (n : RawNode α) : Option Bool :=
  if n.children.length = 1 then do
    let next ← n.children[0]?
    return next.label = [slash] && next.handler.isSome
  else some false

end RawNode

theorem Stored.endsSlash (stored : Stored false node child) :
    (child.label.length = 1 && child.handler.isSome ||
      child.kind.isCatchAll && child.children.head?.any (·.handler.isSome)) = node.endsSlash := by
  cases stored with
  | static below => simp [Node.endsSlash]
  | catchAll => simp [Node.endsSlash, RawNode.slot, RawNode.leaf, Kind.isCatchAll]

theorem slashEnds?_eq {n : RawNode α}
    (stored : StoredBelow below n.indices n.wildChild n.children) :
    n.slashEnds? = some below.offersSlash := by
  obtain ⟨label, indices, wildChild, kind, priority, children, handler⟩ := n
  cases stored with
  | last => rfl
  | next => rfl
  | @edges es _ hchildren =>
      rw [RawNode.slashEnds?, Below.offersSlash]
      dsimp only
      rcases child_of_index hchildren slash with
        ⟨hnone, hfind⟩ | ⟨i, node, child, hsome, hchild, hfind, -, hnode⟩
      · rw [hnone, hfind]
      · rw [hsome, hfind]
        dsimp only
        rw [hchild, ← hnode.endsSlash]
        rfl

theorem loneSlash?_last (name indices : List UInt8) (hits : CounterId) (priority : Nat)
    (handler : Option α) :
    (RawNode.value name indices hits priority [] handler).loneSlash? = some false := rfl

theorem loneSlash?_next (stored : Stored false node child) (name indices : List UInt8)
    (hits : CounterId) (priority : Nat) (handler : Option α) :
    (RawNode.value name indices hits priority [child] handler).loneSlash? =
      some (node.label = [slash] && node.endsSlash) := by
  cases stored with
  | @static _ label =>
      by_cases hlabel : label = [slash] <;>
        simp [RawNode.loneSlash?, RawNode.value, Node.label, Node.endsSlash, hlabel]
  | catchAll => rfl

end RadixRouter
