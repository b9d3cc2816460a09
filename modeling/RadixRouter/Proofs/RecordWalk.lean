/-
# Walking records

`RawNode.walk` is the walk of a path as a loop over records: it cuts labels off the path by their
length, selects children by position, and carries the captures and the counter of the last
wildcard along.  Every cut and every selection is guarded.

On the records of a tree no guard fails, and the walk gives what `Node.search` gives.
-/

import Mathlib.Data.List.TakeWhile
import RadixRouter.Proofs.Records
import RadixRouter.Proofs.TreeSearch

namespace RadixRouter

open Guard

variable {α : Type}

namespace RawNode

/-- Where a walk ends inside a label, or beside it. -/
def missed? (n : RawNode α) (path : List UInt8) (above : Bool) : Option (Search α) := do
  if path = [slash] ∧ above then return .missed true
  if n.label.length = path.length + 1 then
    if (← n.label[path.length]?) = slash then
      let front ← takeTo? n.label path.length
      return .missed (path = front && n.handler.isSome)
  return .missed false

mutual

/-- Walks a path from a record on; `above` tells whether a route ends with the record above. -/
def walk (n : RawNode α) (path : List UInt8) (above : Bool)
    (captures : List (List UInt8 × List UInt8)) (deepest : Option CounterId) :
    Option (Search α) := do
  if n.label.length < path.length then
    if n.label.isPrefixOf path then
      n |>.walkBelow (← dropFrom? path n.label.length) captures deepest
    else n.missed? path above
  else if path = n.label then
    match n.handler with
    | some handler => return .found handler captures deepest
    | none =>
      if path = [slash] ∧ !n.kind.isRoot then return .missed above
      return .missed (← n.slashEnds?)
  else n.missed? path above
partial_fixpoint

/-- Walks what is left of a path after the label of a record. -/
def walkBelow (n : RawNode α) (path : List UInt8)
    (captures : List (List UInt8 × List UInt8)) (deepest : Option CounterId) :
    Option (Search α) := do
  if n.wildChild then
    let child ← n.children[0]?
    match child.kind with
    | .param hits =>
      let stop := (path.findIdx? (· = slash)).getD path.length
      if stop = 0 then return .missed false
      let captures := captures ++ [(← dropFrom? child.label 1, ← takeTo? path stop)]
      if stop < path.length then
        match child.children.head? with
        | some next =>
          next |>.walk (← dropFrom? path stop) child.handler.isSome captures (some hits)
        | none => return .missed (path.length = stop + 1)
      else
        match child.handler with
        | some handler => return .found handler captures (some hits)
        | none => return .missed (← child.loneSlash?)
    | .catchAll hits =>
      let name ← dropFrom? child.label 2
      match child.handler with
      | some handler => return .found handler (captures ++ [(name, path)]) (some hits)
      | none => return .missed false
    -- a wildcard child is never literal
    | .static | .root => none
  else
    let b ← path[0]?
    match n.indices.findIdx? (· = b) with
    | some i =>
      let child ← n.children[i]?
      child |>.walk path n.handler.isSome captures deepest
    | none => return .missed (path = [slash] && n.handler.isSome)
partial_fixpoint

end

end RawNode

/-- A value ends at the first slash, or with the path. -/
theorem stop_eq (path : List UInt8) :
    (path.findIdx? (· = slash)).getD path.length = (untilSlash path).length := by
  induction path with
  | nil => rfl
  | cons b path ih =>
      rw [List.findIdx?_cons, untilSlash, List.takeWhile_cons]
      by_cases hslash : b = slash
      · simp [hslash]
      · simp only [hslash, decide_false, Bool.false_eq_true, if_false, ne_eq, not_false_eq_true,
          decide_true, if_true, List.length_cons]
        rw [← untilSlash, ← ih]
        cases path.findIdx? (· = slash) <;> rfl

theorem takeTo?_stop (path : List UInt8) :
    takeTo? path (untilSlash path).length = some (untilSlash path) := by
  conv_lhs => arg 1; rw [← Pattern.untilSlash_append_fromSlash path]
  exact takeTo?_append rfl

theorem dropFrom?_stop (path : List UInt8) :
    dropFrom? path (untilSlash path).length = some (fromSlash path) := by
  conv_lhs => arg 1; rw [← Pattern.untilSlash_append_fromSlash path]
  exact dropFrom?_append rfl

theorem length_stop (path : List UInt8) :
    path.length = (untilSlash path).length + (fromSlash path).length := by
  rw [← List.length_append, Pattern.untilSlash_append_fromSlash]

section Step

variable {n : RawNode α} {path rest : List UInt8} {above : Bool}
  {captures : List (List UInt8 × List UInt8)} {deepest : Option CounterId}

theorem missed?_eq (n : RawNode α) (path : List UInt8) (above : Bool) :
    n.missed? path above = some (.missed (path = [slash] && above ||
      n.label = path ++ [slash] && n.handler.isSome)) := by
  unfold RawNode.missed?
  by_cases hslash : path = [slash] ∧ above = true
  · simp [hslash]
  · have hno : (decide (path = [slash]) && above) = false := by simpa using hslash
    rw [if_neg hslash, hno, Bool.false_or]
    rcases List.eq_nil_or_concat n.label with hnil | ⟨front, last, hlabel⟩
    · simp [hnil]
    · rw [List.concat_eq_append] at hlabel
      by_cases hlength : n.label.length = path.length + 1
      · have hfront : front.length = path.length := by simpa [hlabel] using hlength
        rw [if_pos hlength, hlabel, getElem?_middle hfront, takeTo?_append hfront]
        by_cases hlast : last = slash
        · simp [hlast, eq_comm]
        · simp [hlast]
      · have hne : n.label ≠ path ++ [slash] := fun h => hlength (by simp [h])
        rw [if_neg hlength, decide_eq_false hne]
        rfl

/-- What is left of a path after the label is walked below it. -/
theorem walk_onward (more : rest ≠ []) :
    n.walk (n.label ++ rest) above captures deepest = n.walkBelow rest captures deepest := by
  have hlength : n.label.length < (n.label ++ rest).length := by
    simpa using List.length_pos_of_ne_nil more
  rw [RawNode.walk.eq_1, if_pos hlength, if_pos (by simp), dropFrom?_append rfl]
  rfl

/-- A path that ends with the label ends here. -/
theorem walk_here (ends? : n.slashEnds? = some ends) (captures : List (List UInt8 × List UInt8)) :
    n.walk n.label above captures deepest =
      some (match n.handler with
        | some handler => .found handler captures deepest
        | none => .missed (if n.label = [slash] ∧ n.kind.isRoot = false then above else ends)) := by
  rw [RawNode.walk.eq_1, if_neg (Nat.lt_irrefl _), if_pos rfl]
  cases n.handler with
  | some handler => rfl
  | none =>
      dsimp only
      by_cases hroot : n.label = [slash] ∧ n.kind.isRoot = false
      · simp [hroot]
      · simp [hroot, ends?]

/-- A path that does not start with the label ends beside it. -/
theorem walk_apart (apart : ∀ rest, path ≠ n.label ++ rest) :
    n.walk path above captures deepest = n.missed? path above := by
  have hprefix : n.label.isPrefixOf path = false := by
    rw [Bool.eq_false_iff, ne_eq, List.isPrefixOf_iff_prefix]
    rintro ⟨rest, rfl⟩
    exact apart rest rfl
  have hne : path ≠ n.label := fun h => apart [] (by rw [h, List.append_nil])
  rw [RawNode.walk.eq_1, hprefix, if_neg hne]
  exact ite_self _

/-- Without a wildcard child the next byte selects the child. -/
theorem walkBelow_indexed {b : UInt8} (literal : n.wildChild = false) :
    n.walkBelow (b :: rest) captures deepest =
      match n.indices.findIdx? (· = b) with
      | some i => n.children[i]?.bind fun child =>
        child.walk (b :: rest) n.handler.isSome captures deepest
      | none => some (.missed (b :: rest = [slash] && n.handler.isSome)) := by
  rw [RawNode.walkBelow.eq_1, literal]
  rfl

/-- A parameter takes the path up to the next slash, which must be more than nothing. -/
theorem walkBelow_value (label taken indices : List UInt8) (kind : Kind) (count : Nat)
    (ending : Option α) (name : List UInt8) (hits : CounterId) (priority : Nat)
    (next : List (RawNode α)) (handler : Option α) :
    (RawNode.mk label taken true kind count [.value name indices hits priority next handler]
        ending).walkBelow path captures deepest =
      let captures := captures ++ [(name, untilSlash path)]
      if untilSlash path = [] then some (.missed false)
      else if fromSlash path = [] then
        match handler with
        | some handler => some (.found handler captures (some hits))
        | none => (RawNode.value name indices hits priority next handler).loneSlash?.map .missed
      else
        match next.head? with
        | some next => next.walk (fromSlash path) handler.isSome captures (some hits)
        | none => some (.missed ((fromSlash path).length = 1)) := by
  rw [RawNode.walkBelow.eq_1]
  simp only [RawNode.value, List.getElem?_cons_zero, if_true, Option.bind_eq_bind, Option.bind_some,
    stop_eq, takeTo?_stop, dropFrom?_stop, List.length_eq_zero_iff, dropFrom?_cons_one]
  have hlength := length_stop path
  by_cases hvalue : untilSlash path = []
  · rw [if_pos hvalue, if_pos hvalue]
    rfl
  · rw [if_neg hvalue, if_neg hvalue]
    by_cases hrest : fromSlash path = []
    · rw [hrest, List.length_nil] at hlength
      rw [if_neg (by omega), if_pos hrest]
      cases handler with
      | some handler => rfl
      | none => exact Option.map_eq_bind.symm
    · have hpos := List.length_pos_of_ne_nil hrest
      rw [if_pos (by omega), if_neg hrest]
      cases next.head? with
      | some next => rfl
      | none =>
          have hone : path.length = (untilSlash path).length + 1 ↔
              (fromSlash path).length = 1 := by omega
          simp only [hone]
          rfl

end Step

/-- The result of a walk that had taken captures before, the last one counted there. -/
def Search.after (captures : List (List UInt8 × List UInt8)) (deepest : Option CounterId) :
    Search α → Search α
  | .found handler later last => .found handler (captures ++ later) (last.or deepest)
  | .missed hint => .missed hint

theorem Search.after_nil (result : Search α) : result.after [] none = result := by
  cases result <;> simp [Search.after]

theorem Search.after_under (result : Search α) (name value : List UInt8) (hits : CounterId)
    (captures : List (List UInt8 × List UInt8)) (deepest : Option CounterId) :
    (result.under name value hits).after captures deepest =
      result.after (captures ++ [(name, value)]) (some hits) := by
  cases result with
  | found handler later last => cases last <;> simp [Search.under, Search.after]
  | missed hint => rfl

/-- Records of a node are walked like the node; `parent` is `none` for the record on top. -/
def Node.WalkedAlike (node : Node α) : Prop :=
  ∀ (parent : Option Bool) (record : RawNode α) (path : List UInt8)
    (captures : List (List UInt8 × List UInt8)) (deepest : Option CounterId),
    Stored parent.isNone node record →
      (path ≠ [] ∨ ∀ name hits priority handler, node ≠ .catchAll name hits priority handler) →
        record.walk path (parent.getD false) captures deepest =
          some ((node.search parent path).after captures deepest)

/-- The records below a label are walked like what they stand for. -/
def Below.WalkedAlike (below : Below α) : Prop :=
  ∀ (n : RawNode α) (path : List UInt8) (captures : List (List UInt8 × List UInt8))
    (deepest : Option CounterId),
    StoredBelow below n.indices n.wildChild n.children → path ≠ [] →
      n.walkBelow path captures deepest =
        some ((below.search n.handler.isSome path).after captures deepest)

theorem walkedAlike_static {below : Below α} (ih : below.WalkedAlike) (label : List UInt8)
    (priority : Nat) (handler : Option α) :
    (Node.static label priority handler below).WalkedAlike := by
  intro parent record path captures deepest stored _
  obtain ⟨hbelow⟩ := stored
  rename_i indices wildChild children
  rw [Node.search.eq_def]
  dsimp only
  cases hleft : afterLabel label path with
  | none =>
      have apart : ∀ rest, path ≠ label ++ rest := by
        intro rest h
        rw [afterLabel_eq_some_iff.mpr h] at hleft
        cases hleft
      rw [walk_apart apart, missed?_eq]
      cases parent with
      | none => simp [Search.after]
      | some above => simp [Search.after]
  | some rest =>
      rw [afterLabel_eq_some_iff] at hleft
      subst hleft
      cases rest with
      | cons b rest =>
          have more : b :: rest ≠ [] := List.cons_ne_nil b rest
          exact (walk_onward more).trans (ih ⟨label, _, _, _, _, _, handler⟩ _ _ _ hbelow more)
      | nil =>
          rw [List.append_nil]
          have offered := slashEnds?_eq
            (n := ⟨label, indices, wildChild, .literal parent.isNone, priority, children, handler⟩)
            hbelow
          refine (walk_here offered captures).trans ?_
          cases handler with
          | some handler => simp [Search.after]
          | none =>
              cases parent with
              | none => simp [Search.after]
              | some above => by_cases hslash : label = [slash] <;> simp [Search.after, hslash]

theorem walkedAlike_catchAll (name : List UInt8) (hits : CounterId) (priority : Nat) (handler : α) :
    (Node.catchAll name hits priority handler).WalkedAlike := by
  intro parent record path captures deepest stored literal
  cases stored
  have more : path ≠ [] := literal.resolve_right fun h => h _ _ _ _ rfl
  refine (walk_onward (n := .slot name hits priority handler) more).trans ?_
  rw [RawNode.walkBelow.eq_1]
  rfl

/-- The edge of the next byte is followed, the first of them. -/
theorem searchEdges_eq_find? (ends : Bool) (es : List (Edge α)) (b : UInt8) (rest : List UInt8) :
    searchEdges ends es (b :: rest) =
      (es.find? (·.1 = b)).map fun edge => edge.2.search (some ends) (b :: rest) := by
  induction es with
  | nil => rfl
  | cons edge es ih =>
      obtain ⟨index, node⟩ := edge
      rw [searchEdges, List.find?_cons, ih]
      by_cases hindex : index = b
      · simp [hindex]
      · simp [hindex, Ne.symm hindex]

theorem walkedAlike_edges {es : List (Edge α)} (ih : ∀ edge ∈ es, edge.2.WalkedAlike) :
    (Below.edges es).WalkedAlike := by
  intro n path captures deepest stored more
  obtain ⟨b, rest, rfl⟩ := List.exists_cons_of_ne_nil more
  obtain ⟨label, indices, wildChild, kind, priority, children, handler⟩ := n
  obtain ⟨hchildren⟩ := stored
  rw [walkBelow_indexed rfl, Below.search.eq_def]
  dsimp only
  rw [searchEdges_eq_find?]
  rcases child_of_index hchildren b with
    ⟨hnone, hfind⟩ | ⟨i, node, child, hsome, hchild, hfind, inside, hnode⟩
  · rw [hnone, hfind]
    rfl
  · rw [hsome, hfind]
    dsimp only
    rw [hchild]
    exact ih _ inside (some handler.isSome) child _ captures deepest hnode
      (Or.inl (List.cons_ne_nil b rest))

theorem walkedAlike_param {next : Option (Node α)} (ih : ∀ node ∈ next, node.WalkedAlike)
    (name : List UInt8) (hits : CounterId) (priority : Nat) (handler : Option α) :
    (Below.param name hits priority handler next).WalkedAlike := by
  intro n path captures deepest stored _
  obtain ⟨label, indices, wildChild, kind, count, children, ending⟩ := n
  rw [Below.search.eq_def]
  dsimp only at stored ⊢
  by_cases hvalue : untilSlash path = []
  · cases stored <;> rw [walkBelow_value] <;> simp [hvalue, Search.after]
  · rw [if_neg hvalue]
    cases stored with
    | last =>
        rw [walkBelow_value, loneSlash?_last]
        dsimp only
        rw [if_neg hvalue]
        cases fromSlash path with
        | nil => cases handler <;> rfl
        | cons b rest => cases rest <;> rfl
    | next hnext =>
        rw [walkBelow_value, loneSlash?_next hnext]
        dsimp only
        rw [if_neg hvalue]
        cases fromSlash path with
        | nil => cases handler <;> rfl
        | cons b rest =>
            have hwalk := ih _ rfl (some handler.isSome) _ (b :: rest)
              (captures ++ [(name, untilSlash path)]) (some hits) hnext
              (Or.inl (List.cons_ne_nil b rest))
            rw [if_neg (List.cons_ne_nil b rest)]
            dsimp only [searchNext, List.head?_cons]
            rw [Search.after_under]
            exact hwalk

/-- Walking the records of a tree, no access is out of bounds, and the walk ends as it does in the
tree. -/
theorem walk_eq :
    (∀ node : Node α, node.WalkedAlike) ∧ ∀ below : Below α, below.WalkedAlike := by
  refine tree_induction ?static ?catchAll ?edges ?param
  case static =>
    intro label priority handler below ih
    exact walkedAlike_static ih label priority handler
  case catchAll => exact walkedAlike_catchAll
  case edges =>
    intro es ih
    exact walkedAlike_edges ih
  case param =>
    intro name hits priority handler next ih
    exact walkedAlike_param ih name hits priority handler

end RadixRouter
