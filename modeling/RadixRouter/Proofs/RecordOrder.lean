/-
# The order of records

Children lie by falling count, and their index bytes beside them.  `RawNode.raise?` counts one
more route at a child and moves it, with its index byte, in front of the siblings that count
fewer.  `RawNode.recount?` counts every record afresh from the handlers and sorts the children of
each.  Every access and every sum is guarded.

No guard fails as long as the routes of a tree can be counted in 32 bits, and records are moved
as the edges of the nodes that they stand for.
-/

import Mathlib.Data.List.Sort
import RadixRouter.Proofs.Records

namespace RadixRouter

open Guard

variable {α : Type}

namespace RawNode

/-- Counts one route more. -/
def bump? (n : RawNode α) : Option (RawNode α) := do
  return { n with priority := ← plus? n.priority 1 }

/-- Moves the child at a position in front of the siblings before it that count fewer; the answer
tells where it stops. -/
def sift? (priority : Nat) : (pos : Nat) → List (RawNode α) → Option (Nat × List (RawNode α))
  | 0, children => some (0, children)
  | pos + 1, children => do
    let before ← children[pos]?
    if before.priority < priority then sift? priority pos (← swap? children pos (pos + 1))
    else return (pos + 1, children)

/-- Counts one route more at a child and moves it in front; the answer tells where it stops. -/
def raise? (n : RawNode α) (pos : Nat) : Option (RawNode α × Nat) := do
  let child ← (← n.children[pos]?).bump?
  let (place, children) ← sift? child.priority pos (n.children.set pos child)
  if place = pos then return ({ n with children }, place)
  let (index, indices) ← remove? n.indices pos
  return ({ n with indices := ← insertAt? indices place index, children }, place)

/-- Children with their index bytes by falling count, equals in the order they had; a wildcard
and what follows a parameter are only children. -/
def sorted (indices : List UInt8) (children : List (RawNode α)) : List UInt8 × List (RawNode α) :=
  if 1 < children.length ∧ indices.length = children.length then
    let pairs := (indices.zip children).insertionSort fun a b => b.2.priority ≤ a.2.priority
    (pairs.map (·.1), pairs.map (·.2))
  else (indices, children)

mutual

/-- Counts the handlers at and below every record and sorts the children. -/
def recount? : RawNode α → Option (RawNode α)
  | ⟨label, indices, wildChild, kind, _, children, handler⟩ => do
    let (priority, children) ← recountAll? (if handler.isSome then 1 else 0) children
    let (indices, children) := sorted indices children
    return ⟨label, indices, wildChild, kind, priority, children, handler⟩

/-- Counts every child afresh and adds up their counts. -/
def recountAll? : (priority : Nat) → List (RawNode α) → Option (Nat × List (RawNode α))
  | priority, [] => some (priority, [])
  | priority, child :: children => do
    let child ← child.recount?
    let (priority, children) ← recountAll? (← plus? priority child.priority) children
    return (priority, child :: children)

end

end RawNode

section Raise

variable {child n : RawNode α} {b : UInt8}

theorem bump?_eq (fits : n.priority + 1 < 2 ^ 32) :
    n.bump? = some { n with priority := n.priority + 1 } := by
  rw [RawNode.bump?, plus?_of_lt fits]
  rfl

/-- The siblings that count fewer are passed, the nearest first. -/
theorem sift?_eq (priority : Nat) (child : RawNode α) (behind back : List (RawNode α)) :
    RawNode.sift? priority behind.length (behind.reverse ++ child :: back) =
      some ((behind.dropWhile (·.priority < priority)).length,
        (behind.dropWhile (·.priority < priority)).reverse ++
          child :: ((behind.takeWhile (·.priority < priority)).reverse ++ back)) := by
  induction behind generalizing back with
  | nil => rfl
  | cons sibling behind ih =>
      rw [List.reverse_cons, List.append_assoc, List.singleton_append, List.length_cons,
        RawNode.sift?, getElem?_middle List.length_reverse, Option.bind_eq_bind, Option.bind_some]
      by_cases fewer : sibling.priority < priority
      · rw [if_pos fewer, swap?_middle List.length_reverse, Option.bind_eq_bind,
          Option.bind_some, ih]
        simp [fewer]
      · rw [if_neg fewer]
        simp [fewer]

/-- Edges and their children are passed alike. -/
theorem storedEdges_dropWhile {es : List (Edge α)} {children : List (RawNode α)}
    (stored : StoredEdges es children) (priority : Nat) :
    StoredEdges (es.dropWhile (·.2.priority < priority))
        (children.dropWhile (·.priority < priority)) ∧
      StoredEdges (es.takeWhile (·.2.priority < priority))
        (children.takeWhile (·.priority < priority)) := by
  induction stored with
  | nil => exact ⟨.nil, .nil⟩
  | @cons edge child es children hchild hchildren ih =>
      have hpriority := hchild.priority_eq
      by_cases fewer : edge.2.priority < priority
      · simp only [List.dropWhile_cons, List.takeWhile_cons, hpriority, fewer, decide_true, if_true]
        exact ⟨ih.1, .cons hchild ih.2⟩
      · simp only [List.dropWhile_cons, List.takeWhile_cons, hpriority, fewer, decide_false,
          Bool.false_eq_true, if_false]
        exact ⟨.cons hchild hchildren, .nil⟩

/-- A child that counts so many passes as many siblings as the edge that it stands for. -/
theorem exists_passed {before : List (Edge α)} {front : List (RawNode α)}
    (stored : StoredEdges before front) (priority : Nat) :
    ∃ ahead passed front' back', before = ahead ++ passed ∧ StoredEdges ahead front' ∧
      StoredEdges passed back' ∧
      (∀ child back, RawNode.sift? priority front.length (front ++ child :: back) =
        some (front'.length, front' ++ child :: (back' ++ back))) ∧
      ∀ b node after, b ∉ before.map (·.1) → node.priority = priority →
        raise b (before ++ (b, node) :: after) = ahead ++ (b, node) :: (passed ++ after) := by
  obtain ⟨hkept, hpassed⟩ :=
    storedEdges_dropWhile (List.forall₂_reverse_iff.mpr stored) priority
  have hedges := dropWhile_append_takeWhile_reverse
    (fun sibling : Edge α => sibling.2.priority < priority) before
  refine ⟨_, _, _, _, hedges.symm, List.forall₂_reverse_iff.mpr hkept,
    List.forall₂_reverse_iff.mpr hpassed, fun child back => ?_, fun b node after free count => ?_⟩
  · have hsift := sift?_eq priority child front.reverse back
    rw [List.reverse_reverse, List.length_reverse] at hsift
    rw [hsift, List.length_reverse]
  · rw [← count]
    exact raise_middle before after (b, node) free

/-- The index byte is moved as far as the child. -/
theorem raise?_of_sift {front back children : List (RawNode α)} {ahead passed indices : List UInt8}
    (hindices : n.indices = (ahead ++ passed) ++ b :: indices)
    (hchildren : n.children = front ++ child :: back)
    (here : front.length = (ahead ++ passed).length) (fits : child.priority + 1 < 2 ^ 32)
    (hsift : RawNode.sift? (child.priority + 1) front.length
      (front ++ { child with priority := child.priority + 1 } :: back) =
        some (ahead.length, children)) :
    n.raise? front.length =
      some ({ n with indices := ahead ++ b :: (passed ++ indices), children }, ahead.length) := by
  rw [RawNode.raise?, hchildren, getElem?_middle rfl, Option.bind_eq_bind, Option.bind_some,
    bump?_eq fits]
  simp only [Option.bind_eq_bind, Option.bind_some, pure, set_middle rfl, hsift]
  by_cases stays : ahead.length = front.length
  · have hpassed : passed = [] := by
      rw [here, List.length_append] at stays
      exact List.length_eq_zero_iff.mp (by omega)
    subst hpassed
    rw [if_pos stays]
    rw [List.append_nil] at hindices
    rw [List.nil_append, ← hindices]
  · rw [if_neg stays, hindices, remove?_middle here.symm]
    simp only [Option.bind_some, List.append_assoc, insertAt?_middle rfl]

/-- A child that gains a route stops behind those of its siblings that count as many, and so does
the edge that it stands for. -/
theorem raise?_eq {before : List (Edge α)} {front back : List (RawNode α)} {indices : List UInt8}
    (free : b ∉ before.map (·.1)) (stored : StoredEdges before front)
    (hindices : n.indices = before.map (·.1) ++ b :: indices)
    (hchildren : n.children = front ++ child :: back) (fits : child.priority + 1 < 2 ^ 32) :
    ∃ ahead passed front' back', before = ahead ++ passed ∧ StoredEdges ahead front' ∧
      StoredEdges passed back' ∧
      n.raise? front.length = some ({ n with
        indices := ahead.map (·.1) ++ b :: (passed.map (·.1) ++ indices)
        children := front' ++ { child with priority := child.priority + 1 } :: (back' ++ back) },
        front'.length) ∧
      ∀ node after, node.priority = child.priority + 1 →
        raise b (before ++ (b, node) :: after) = ahead ++ (b, node) :: (passed ++ after) := by
  obtain ⟨ahead, passed, front', back', rfl, hahead, hpassed, hsift, hraise⟩ :=
    exists_passed stored (child.priority + 1)
  refine ⟨ahead, passed, front', back', rfl, hahead, hpassed, ?_,
    fun node after => hraise b node after free⟩
  have hplace : front'.length = (ahead.map (·.1)).length := by
    rw [List.length_map, hahead.length_eq]
  rw [hplace] at hsift ⊢
  refine raise?_of_sift ?_ hchildren ?_ fits (hsift _ back)
  · rw [hindices, List.map_append]
  · rw [← List.map_append, List.length_map, stored.length_eq]

end Raise

/-- An edge and the index byte and child that stand for it. -/
def PairedWith (edge : Edge α) (pair : UInt8 × RawNode α) : Prop :=
  pair.1 = edge.1 ∧ Stored false edge.2 pair.2

theorem paired_zip {es : List (Edge α)} {children : List (RawNode α)}
    (stored : StoredEdges es children) :
    List.Forall₂ PairedWith es ((es.map (·.1)).zip children) := by
  induction stored with
  | nil => exact .nil
  | cons hchild hchildren ih => exact .cons ⟨rfl, hchild⟩ ih

theorem stored_of_paired {es : List (Edge α)} {pairs : List (UInt8 × RawNode α)}
    (paired : List.Forall₂ PairedWith es pairs) :
    StoredBelow (.edges es) (pairs.map (·.1)) false (pairs.map (·.2)) := by
  have hindices : pairs.map (·.1) = es.map (·.1) := by
    induction paired with
    | nil => rfl
    | cons hpair hpairs ih => rw [List.map_cons, List.map_cons, hpair.1, ih]
  have hchildren : StoredEdges es (pairs.map (·.2)) :=
    List.forall₂_map_right_iff.mpr (paired.imp fun _ _ hpair => hpair.2)
  rw [hindices]
  exact .edges hchildren

theorem paired_orderedInsert {es : List (Edge α)} {pairs : List (UInt8 × RawNode α)}
    {edge : Edge α} {pair : UInt8 × RawNode α} (hpair : PairedWith edge pair)
    (paired : List.Forall₂ PairedWith es pairs) :
    List.Forall₂ PairedWith (place edge es)
      (pairs.orderedInsert (fun a b => b.2.priority ≤ a.2.priority) pair) := by
  induction paired with
  | nil => exact .cons hpair .nil
  | @cons other otherPair es pairs hother hpairs ih =>
      have hcount := hpair.2.priority_eq
      have hcount' := hother.2.priority_eq
      rw [place, List.orderedInsert_cons, hcount, hcount']
      split
      · exact .cons hpair (.cons hother hpairs)
      · exact .cons hother ih

theorem paired_insertionSort {es : List (Edge α)} {pairs : List (UInt8 × RawNode α)}
    (paired : List.Forall₂ PairedWith es pairs) :
    List.Forall₂ PairedWith (rank es)
      (pairs.insertionSort fun a b => b.2.priority ≤ a.2.priority) := by
  induction paired with
  | nil => exact .nil
  | cons hpair hpairs ih => exact paired_orderedInsert hpair ih

theorem sorted_of_single (indices : List UInt8) {children : List (RawNode α)}
    (single : children.length ≤ 1) : RawNode.sorted indices children = (indices, children) :=
  if_neg fun h => absurd h.1 (Nat.not_lt_of_le single)

/-- Children are sorted as their edges are ranked. -/
theorem stored_sorted {es : List (Edge α)} {children : List (RawNode α)}
    (stored : StoredEdges es children) :
    StoredBelow (.edges (rank es)) (RawNode.sorted (es.map (·.1)) children).1 false
      (RawNode.sorted (es.map (·.1)) children).2 := by
  have hlength : (es.map (·.1)).length = children.length := by
    rw [List.length_map, stored.length_eq]
  by_cases several : 1 < children.length
  · rw [RawNode.sorted, if_pos ⟨several, hlength⟩]
    exact stored_of_paired (paired_insertionSort (paired_zip stored))
  · rw [sorted_of_single _ (Nat.le_of_not_lt several)]
    have hrank : rank es = es := by
      refine rank_of_falling ?_
      rw [List.length_map] at hlength
      match es, hlength with
      | [], _ => exact .nil
      | [edge], _ => exact List.pairwise_singleton _ _
      | _ :: _ :: _, hlength =>
          simp only [List.length_cons] at hlength
          omega
    rw [hrank]
    exact .edges stored

/-- Counted afresh, the record of a node stands for the node counted afresh. -/
def Node.RecountedAlike (node : Node α) : Prop :=
  ∀ top record, Stored top node record → node.listing.length < 2 ^ 32 →
    ∃ record', record.recount? = some record' ∧ Stored top node.recount record'

/-- The same below a label. -/
def Below.RecountedAlike (below : Below α) : Prop :=
  ∀ indices wildChild children priority, StoredBelow below indices wildChild children →
    priority + below.listing.length < 2 ^ 32 →
      ∃ children', RawNode.recountAll? priority children =
          some (priority + below.listing.length, children') ∧
        StoredBelow below.recount (RawNode.sorted indices children').1 wildChild
          (RawNode.sorted indices children').2

theorem weight_recount (below : Below α) : below.recount.weight = below.listing.length := by
  rw [(tallied_recount.2 below).weight_eq, (listing_recount.2 below).length_eq]

theorem priority_recount (node : Node α) : node.recount.priority = node.listing.length := by
  rw [(tallied_recount.1 node).priority_eq, (listing_recount.1 node).length_eq]

theorem length_toList_handler (handler : Option α) :
    (if handler.isSome then 1 else 0) = handler.toList.length := by
  cases handler <;> rfl

theorem recountedAlike_static {below : Below α} (ih : below.RecountedAlike) (label : List UInt8)
    (priority : Nat) (handler : Option α) :
    (Node.static label priority handler below).RecountedAlike := by
  intro top record stored fits
  obtain ⟨_, indices, wildChild, _, _, children, _⟩ := record
  cases stored with
  | static stored =>
      rw [length_listing_static] at fits
      obtain ⟨children', hcount, hstored⟩ := ih _ _ _ _ stored fits
      rw [RawNode.recount?, length_toList_handler, hcount, Node.recount, weight_recount]
      exact ⟨_, rfl, .static hstored⟩

/-- The counts of children are added up one after the other. -/
theorem recountAll?_eq {es : List (Edge α)} {children : List (RawNode α)}
    (stored : StoredEdges es children) (ih : ∀ edge ∈ es, edge.2.RecountedAlike) (priority : Nat)
    (fits : priority + (listingEdges es).length < 2 ^ 32) :
    ∃ children', RawNode.recountAll? priority children =
        some (priority + (listingEdges es).length, children') ∧
      StoredEdges (recountEdges es) children' := by
  induction stored generalizing priority with
  | nil => exact ⟨[], rfl, .nil⟩
  | @cons edge child es children hchild hchildren ih' =>
      rw [List.forall_mem_cons] at ih
      have hlength : (listingEdges (edge :: es)).length =
          edge.2.listing.length + (listingEdges es).length := by
        rw [listingEdges, List.length_append]
      rw [hlength] at fits ⊢
      obtain ⟨child', hchild', hstored⟩ := ih.1 _ _ hchild (by omega)
      have hcount : child'.priority = edge.2.listing.length := by
        rw [hstored.priority_eq, priority_recount]
      obtain ⟨children', hchildren', hstored'⟩ :=
        ih' ih.2 (priority + edge.2.listing.length) (by omega)
      refine ⟨child' :: children', ?_, .cons hstored hstored'⟩
      rw [RawNode.recountAll?, hchild', Option.bind_eq_bind, Option.bind_some, hcount,
        plus?_of_lt (by omega), Option.bind_eq_bind, Option.bind_some, hchildren', Nat.add_assoc]
      rfl

theorem recountedAlike_edges {es : List (Edge α)} (ih : ∀ edge ∈ es, edge.2.RecountedAlike) :
    (Below.edges es).RecountedAlike := by
  intro indices wildChild children priority stored fits
  cases stored with
  | edges stored =>
      obtain ⟨children', hcount, hstored⟩ := recountAll?_eq stored ih priority fits
      have hindices : es.map (·.1) = (recountEdges es).map (·.1) := by
        rw [recountEdges_eq_map, List.map_map]
        rfl
      refine ⟨children', hcount, ?_⟩
      rw [hindices]
      exact stored_sorted hstored

theorem recountAll?_single {child child' : RawNode α} (counted : child.recount? = some child')
    {priority : Nat} (fits : priority + child'.priority < 2 ^ 32) :
    RawNode.recountAll? priority [child] = some (priority + child'.priority, [child']) := by
  rw [RawNode.recountAll?, counted, Option.bind_eq_bind, Option.bind_some, plus?_of_lt fits]
  rfl

theorem recount?_value {name indices : List UInt8} {hits priority count : Nat}
    {children children' : List (RawNode α)} {handler : Option α}
    (counted : RawNode.recountAll? handler.toList.length children = some (count, children'))
    (single : children'.length ≤ 1) :
    (RawNode.value name indices hits priority children handler).recount? =
      some (.value name indices hits count children' handler) := by
  rw [RawNode.value, RawNode.recount?, length_toList_handler, counted, Option.bind_eq_bind,
    Option.bind_some]
  dsimp only
  rw [sorted_of_single _ single]
  rfl

theorem recountedAlike_param {next : Option (Node α)}
    (ih : ∀ node, next = some node → node.RecountedAlike) (name : List UInt8) (hits : CounterId)
    (priority : Nat) (handler : Option α) :
    (Below.param name hits priority handler next).RecountedAlike := by
  intro indices wildChild children count stored fits
  rw [length_listing_param] at fits ⊢
  cases stored with
  | last =>
      have hvalue : (RawNode.value name [] hits priority [] handler).recount? = some _ :=
        recount?_value rfl (Nat.zero_le 1)
      exact ⟨_, recountAll?_single hvalue fits, .last⟩
  | @next _ indices _ _ _ node child stored =>
      have hnext : (listingNext (some node)).length = node.recount.priority :=
        (priority_recount node).symm
      rw [hnext] at fits ⊢
      obtain ⟨child', hchild, hstored⟩ := ih node rfl _ _ stored (by rw [← priority_recount]; omega)
      rw [← hstored.priority_eq] at fits ⊢
      have hvalue : (RawNode.value name indices hits priority [child] handler).recount? = some _ :=
        recount?_value (recountAll?_single hchild (by omega)) (Nat.le_refl 1)
      refine ⟨_, recountAll?_single hvalue fits, ?_⟩
      rw [hstored.priority_eq]
      exact .next hstored

/-- Counting afresh, no sum is too large, and the record of a node stays the record of it. -/
theorem recount?_eq :
    (∀ node : Node α, node.RecountedAlike) ∧ ∀ below : Below α, below.RecountedAlike := by
  refine tree_induction ?static ?catchAll ?edges ?param
  case static =>
    intro label priority handler below ih
    exact recountedAlike_static ih label priority handler
  case catchAll =>
    intro name hits priority handler top record stored _
    cases stored with
    | catchAll => exact ⟨_, rfl, .catchAll⟩
  case edges =>
    intro es ih
    exact recountedAlike_edges ih
  case param =>
    intro name hits priority handler next ih
    exact recountedAlike_param ih name hits priority handler

end RadixRouter
