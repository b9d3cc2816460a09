/-
# The order of edges after a refused insertion

A refused route leaves every count as it was, and so it might be expected to leave the order of
edges.  It does, except among siblings that count the same: on its way down, the attempt moves
each edge that it follows in front of the siblings that count no more than the edge did before,
and counting afresh, which keeps the order of equals, does not move it back.

`Node.favour` is that change without counts or cuts.  A tree is left as it was exactly when its
edges on the way count fewer routes than every sibling in front of them; then all registrations to
come are answered as if the refused one had never been attempted, down to the routes that their
conflicts name.
-/

import RadixRouter.Proofs.RefusedGraft
import RadixRouter.Proofs.SpreadLabels
import RadixRouter.Proofs.TreeGrowth

namespace RadixRouter

open Pattern (Proper)

variable {α : Type}

/-! ## Favoured ways -/

/-- Takes the edge of a byte out and puts it in front of the first sibling that counts no more. -/
def reseat (index : UInt8) (es : List (Edge α)) : List (Edge α) :=
  match es.find? (·.1 = index) with
  | some edge => place edge (es.filter (·.1 ≠ index))
  | none => es

/-- Whether no sibling in front of the edge of a byte counts as many routes. -/
def leads (index : UInt8) (es : List (Edge α)) : Bool :=
  match es.find? (·.1 = index) with
  | some edge => (es.takeWhile (·.1 ≠ index)).all (·.2.priority ≠ edge.2.priority)
  | none => true

mutual

/-- A node with the edges on the way of a route in front of the siblings that count the same. -/
def Node.favour : Node α → List Token → Node α
  | .static label priority handler below, rest =>
    match overlap label rest with
    | (_, [], token :: rest') => .static label priority handler (below.favour (token :: rest'))
    | _ => .static label priority handler below
  | .catchAll name hits priority handler, _ => .catchAll name hits priority handler

def Below.favour : Below α → List Token → Below α
  | .edges es, .byte b :: rest => .edges (reseat b (favourEdges es b (.byte b :: rest)))
  | .edges es, _ => .edges es
  | .param name hits priority handler next, .param name' :: rest =>
    .param name hits priority handler (if name' = name then favourNext next rest else next)
  | .param name hits priority handler next, _ => .param name hits priority handler next

def favourEdges : List (UInt8 × Node α) → UInt8 → List Token → List (UInt8 × Node α)
  | [], _, _ => []
  | (index, node) :: es, b, rest =>
    if index = b then (index, node.favour rest) :: es
    else (index, node) :: favourEdges es b rest

def favourNext : Option (Node α) → List Token → Option (Node α)
  | none, _ => none
  | some node, rest => some (node.favour rest)

end

mutual

/-- Whether every edge on the way of a route counts fewer routes than each sibling in front. -/
def Node.clearWay : Node α → List Token → Bool
  | .static label _ _ below, rest =>
    match overlap label rest with
    | (_, [], token :: rest') => below.clearWay (token :: rest')
    | _ => true
  | .catchAll .., _ => true

def Below.clearWay : Below α → List Token → Bool
  | .edges es, .byte b :: rest => leads b es && clearEdges es b (.byte b :: rest)
  | .edges _, _ => true
  | .param name _ _ _ next, .param name' :: rest =>
    if name' = name then clearNext next rest else true
  | .param .., _ => true

def clearEdges : List (UInt8 × Node α) → UInt8 → List Token → Bool
  | [], _, _ => true
  | (index, node) :: es, b, rest =>
    if index = b then node.clearWay rest else clearEdges es b rest

def clearNext : Option (Node α) → List Token → Bool
  | none, _ => true
  | some node, rest => node.clearWay rest

end

/-- In front of an edge that is in order stand siblings that count more, then those that count the
same. -/
theorem exists_ties {before after : List (Edge α)} {edge : Edge α}
    (falling : Falling (before ++ edge :: after)) :
    ∃ ahead ties, before = ahead ++ ties ∧
      (∀ sibling ∈ ahead, edge.2.priority < sibling.2.priority) ∧
        ∀ sibling ∈ ties, sibling.2.priority = edge.2.priority := by
  obtain ⟨hbefore, -, hacross⟩ := List.pairwise_append.mp falling
  refine ⟨_, _, (dropWhile_append_takeWhile_reverse
    (fun sibling => sibling.2.priority < edge.2.priority + 1) before).symm, ?_, ?_⟩
  · intro sibling hsibling
    exact le_of_mem_dropWhile _ (List.pairwise_reverse.mpr hbefore) sibling
      (List.mem_reverse.mp hsibling)
  · intro sibling hsibling
    have passed := List.mem_reverse.mp hsibling
    have fewer : sibling.2.priority < edge.2.priority + 1 :=
      of_decide_eq_true (List.mem_takeWhile_imp passed : _ = true)
    have inside := List.mem_reverse.mp ((List.takeWhile_sublist _).subset passed)
    exact Nat.le_antisymm (Nat.le_of_lt_succ fewer)
      (hacross sibling inside edge (List.mem_cons_self ..))

section Ties

variable {ahead ties after : List (Edge α)} {b : UInt8} {node : Node α}

/-- An edge that counts one more is raised in front of those that count as many as it did. -/
theorem raise_ties (free : b ∉ (ahead ++ ties).map (·.1)) {count : Nat}
    (counts : node.priority = count + 1) (more : ∀ sibling ∈ ahead, count < sibling.2.priority)
    (same : ∀ sibling ∈ ties, sibling.2.priority = count) :
    raise b (ahead ++ ties ++ (b, node) :: after) = ahead ++ (b, node) :: (ties ++ after) := by
  have passed : ∀ sibling ∈ ties.reverse, decide (sibling.2.priority < node.priority) = true := by
    intro sibling hsibling
    rw [same sibling (List.mem_reverse.mp hsibling), counts]
    exact decide_eq_true (Nat.lt_succ_self count)
  have stays : ∀ sibling ∈ ahead.reverse, decide (sibling.2.priority < node.priority) = false := by
    intro sibling hsibling
    rw [decide_eq_false_iff_not, counts, Nat.not_lt]
    exact more sibling (List.mem_reverse.mp hsibling)
  have kept : ahead.reverse.dropWhile (fun sibling => sibling.2.priority < node.priority) =
      ahead.reverse := by
    rw [List.dropWhile_eq_self_iff]
    intro hlong
    rw [Bool.not_eq_true]
    exact stays _ (List.getElem_mem hlong)
  have none_passed : ahead.reverse.takeWhile (fun sibling => sibling.2.priority < node.priority) =
      [] := by
    rw [List.takeWhile_eq_nil_iff]
    intro hlong
    rw [Bool.not_eq_true]
    exact stays _ (List.getElem_mem hlong)
  rw [raise_middle _ _ (b, node) free, List.reverse_append,
    List.dropWhile_append_of_pos passed, List.takeWhile_append_of_pos passed, kept, none_passed,
    List.append_nil, List.reverse_reverse, List.reverse_reverse]

theorem find?_of_free {es : List (Edge α)} (free : b ∉ es.map (·.1)) :
    es.find? (·.1 = b) = none := by
  rw [List.find?_eq_none]
  intro sibling hsibling hb
  exact free (List.mem_map.mpr ⟨sibling, hsibling, of_decide_eq_true hb⟩)

/-- The edge of a byte is found behind edges of other bytes. -/
theorem find?_middle {before : List (Edge α)} (free : b ∉ before.map (·.1)) :
    (before ++ (b, node) :: after).find? (·.1 = b) = some (b, node) := by
  rw [List.find?_append, find?_of_free free, Option.none_or]
  exact List.find?_cons_of_pos (decide_eq_true rfl)

theorem filter_of_free {es : List (Edge α)} (free : b ∉ es.map (·.1)) :
    es.filter (·.1 ≠ b) = es := by
  rw [List.filter_eq_self]
  intro sibling hsibling
  exact decide_eq_true fun hb => free (List.mem_map.mpr ⟨sibling, hsibling, hb⟩)

/-- An edge is taken out and put in front of those that count as many. -/
theorem reseat_ties (free : b ∉ (ahead ++ ties).map (·.1)) (free' : b ∉ after.map (·.1))
    (more : ∀ sibling ∈ ahead, node.priority < sibling.2.priority)
    (same : ∀ sibling ∈ ties, sibling.2.priority = node.priority)
    (least : ∀ sibling ∈ after, sibling.2.priority ≤ node.priority) :
    reseat b (ahead ++ ties ++ (b, node) :: after) = ahead ++ (b, node) :: (ties ++ after) := by
  have left : (ahead ++ ties ++ (b, node) :: after).filter (·.1 ≠ b) =
      ahead ++ (ties ++ after) := by
    rw [List.filter_append, filter_of_free free, List.filter_cons_of_neg (by simp),
      filter_of_free free', List.append_assoc]
  unfold reseat
  rw [find?_middle free, left]
  refine place_between more ?_
  intro sibling hsibling
  rcases List.mem_append.mp hsibling with h | h
  · exact Nat.le_of_eq (same sibling h)
  · exact least sibling h

/-- An edge leads when no sibling in front of it counts as many. -/
theorem leads_ties (free : b ∉ (ahead ++ ties).map (·.1))
    (more : ∀ sibling ∈ ahead, node.priority < sibling.2.priority)
    (same : ∀ sibling ∈ ties, sibling.2.priority = node.priority) :
    leads b (ahead ++ ties ++ (b, node) :: after) = true ↔ ties = [] := by
  have front : (ahead ++ ties ++ (b, node) :: after).takeWhile (·.1 ≠ b) = ahead ++ ties := by
    rw [List.takeWhile_append_of_pos, List.takeWhile_cons_of_neg (by simp), List.append_nil]
    intro sibling hsibling
    exact decide_eq_true fun hb => free (List.mem_map.mpr ⟨sibling, hsibling, hb⟩)
  unfold leads
  rw [find?_middle free, front]
  dsimp only
  rw [List.all_append, Bool.and_eq_true, List.all_eq_true, List.all_eq_true]
  constructor
  · intro h
    rw [List.eq_nil_iff_forall_not_mem]
    intro sibling hsibling
    exact of_decide_eq_true (h.2 sibling hsibling) (same sibling hsibling)
  · rintro rfl
    refine ⟨fun sibling hsibling => decide_eq_true ?_, nofun⟩
    exact Nat.ne_of_gt (more sibling hsibling)

end Ties

/-! ## One step on a favoured way -/

section Steps

variable {label common suffix : List UInt8} {priority : Nat} {existing : Option α}
  {below : Below α} {rest rest' : List Token} {b : UInt8} {token : Token}

theorem favour_below (met : overlap label rest = (common, [], token :: rest')) :
    (Node.static label priority existing below).favour rest =
        .static label priority existing (below.favour (token :: rest')) ∧
      (Node.static label priority existing below).clearWay rest =
        below.clearWay (token :: rest') := by
  rw [Node.favour.eq_def, Node.clearWay.eq_def]
  simp only [met, and_self]

theorem favour_here (met : overlap label rest = (common, [], [])) :
    (Node.static label priority existing below).favour rest =
        .static label priority existing below ∧
      (Node.static label priority existing below).clearWay rest = true := by
  rw [Node.favour.eq_def, Node.clearWay.eq_def]
  simp only [met, and_self]

theorem favour_cut (met : overlap label rest = (common, b :: suffix, rest')) :
    (Node.static label priority existing below).favour rest =
        .static label priority existing below ∧
      (Node.static label priority existing below).clearWay rest = true := by
  rw [Node.favour.eq_def, Node.clearWay.eq_def]
  simp only [met, and_self]

/-- A route that ends passes no edges. -/
theorem favour_nil (node : Node α) : node.favour [] = node := by
  cases node with
  | catchAll name hits priority existing => rfl
  | static label priority existing below => cases label <;> rfl

/-- A favoured node counts what it counted. -/
@[simp]
theorem Node.priority_favour (node : Node α) (rest : List Token) :
    (node.favour rest).priority = node.priority := by
  cases node with
  | catchAll name hits priority existing => rfl
  | static label priority existing below =>
      rcases hmet : overlap label rest with ⟨common, _ | ⟨b, suffix⟩, _ | ⟨token, rest'⟩⟩
      · rw [(favour_here hmet).1]
      · rw [(favour_below hmet).1]
        rfl
      all_goals rw [(favour_cut hmet).1]

theorem favourEdges_middle {before : List (Edge α)} (free : b ∉ before.map (·.1)) (node : Node α)
    (after : List (Edge α)) (rest : List Token) :
    favourEdges (before ++ (b, node) :: after) b rest =
        before ++ (b, node.favour rest) :: after ∧
      clearEdges (before ++ (b, node) :: after) b rest = node.clearWay rest := by
  induction before with
  | nil => exact ⟨if_pos rfl, if_pos rfl⟩
  | cons edge before ih =>
      obtain ⟨index, other⟩ := edge
      rw [List.map_cons, List.mem_cons, not_or] at free
      obtain ⟨hfavour, hclear⟩ := ih free.2
      rw [List.cons_append, favourEdges, clearEdges, if_neg (Ne.symm free.1),
        if_neg (Ne.symm free.1), hfavour]
      exact ⟨rfl, hclear⟩

/-- Among edges that are in order, the one that is followed passes those that count as many, and
leads exactly when there are none. -/
theorem favour_edges {before after : List (Edge α)} {node : Node α}
    (sound : (Below.edges (before ++ (b, node) :: after)).Sound)
    (falling : Falling (before ++ (b, node) :: after)) (rest : List Token) :
    ∃ ahead ties, before = ahead ++ ties ∧
      (∀ sibling ∈ ahead, node.priority < sibling.2.priority) ∧
      (∀ sibling ∈ ties, sibling.2.priority = node.priority) ∧
      (Below.edges (before ++ (b, node) :: after)).favour (.byte b :: rest) =
        .edges (ahead ++ (b, node.favour (.byte b :: rest)) :: (ties ++ after)) ∧
      ((Below.edges (before ++ (b, node) :: after)).clearWay (.byte b :: rest) = true ↔
        ties = [] ∧ node.clearWay (.byte b :: rest) = true) := by
  obtain ⟨ahead, ties, rfl, more, same⟩ := exists_ties falling
  obtain ⟨free, free'⟩ := free_of_nodup (Below.sound_edges_iff.mp sound).1
  have least := falling.middle.2
  obtain ⟨hfavour, hclear⟩ := favourEdges_middle free node after (.byte b :: rest)
  refine ⟨ahead, ties, rfl, more, same, ?_, ?_⟩
  · rw [Below.favour, hfavour]
    refine congrArg Below.edges (reseat_ties free free' ?_ ?_ ?_) <;>
      rwa [Node.priority_favour]
  · rw [Below.clearWay, hclear, Bool.and_eq_true, leads_ties free more same]

section Param

variable {name : List UInt8} {hits : CounterId} {next : Option (Node α)}

theorem favour_param_next (rest : List Token) :
    (Below.param name hits priority existing next).favour (.param name :: rest) =
        .param name hits priority existing (favourNext next rest) ∧
      (Below.param name hits priority existing next).clearWay (.param name :: rest) =
        clearNext next rest := by
  rw [Below.favour.eq_def, Below.clearWay.eq_def]
  exact ⟨congrArg _ (if_pos rfl), if_pos rfl⟩

theorem favour_param_other (different : token ≠ .param name) (rest : List Token) :
    (Below.param name hits priority existing next).favour (token :: rest) =
        .param name hits priority existing next ∧
      (Below.param name hits priority existing next).clearWay (token :: rest) = true := by
  rw [Below.favour.eq_def, Below.clearWay.eq_def]
  cases token with
  | byte b => exact ⟨rfl, rfl⟩
  | catchAll name' => exact ⟨rfl, rfl⟩
  | param name' =>
      have hname : name' ≠ name := fun h => different (congrArg Token.param h)
      exact ⟨congrArg _ (if_neg hname), if_neg hname⟩

end Param

end Steps

/-- Counting afresh keeps the place of an edge among tallied ones when its own count is right
there. -/
theorem recount_middle {ahead later : List (Edge α)} {b : UInt8} {node : Node α}
    (tallied : ∀ edge ∈ ahead ++ later, edge.2.Tallied) (falling : Falling (ahead ++ later))
    (more : ∀ sibling ∈ ahead, node.recount.priority < sibling.2.priority)
    (noMore : ∀ sibling ∈ later, sibling.2.priority ≤ node.recount.priority) :
    (Below.edges (ahead ++ (b, node) :: later)).recount =
      .edges (ahead ++ (b, node.recount) :: later) := by
  have kept {es : List (Edge α)} (h : ∀ edge ∈ es, edge.2.Tallied) :
      es.map (fun edge => (edge.1, edge.2.recount)) = es := by
    refine (List.map_congr_left fun edge hedge => ?_).trans (List.map_id es)
    exact congrArg (Prod.mk edge.1) (recount_of_tallied.1 edge.2 (h edge hedge))
  have placed : place (b, node.recount) (ahead ++ later) =
      ahead ++ (b, node.recount) :: later := place_between more noMore
  rw [List.forall_mem_append] at tallied
  rw [Below.recount, recountEdges_eq_map, List.map_append, List.map_cons, kept tallied.1,
    kept tallied.2, ← placed, rank_of_falling (falling_place falling)]

/-- A refused graft onto a node, counted afresh, favours the way and does nothing else but cut a
label. -/
def Node.RefusesFavouring (handler : α) (node : Node α) : Prop :=
  ∀ (index : UInt8) (fresh : CounterId) (rest : List Token) (slashed : Bool) (clash : Clash),
    node.Sound index → node.Tallied → Proper slashed rest → rest.head? = some (.byte index) →
      (node.graft handler fresh rest).verdict = .error clash →
        (node.graft handler fresh rest).tree.recount.spread = (node.favour rest).spread

/-- The same of a refused graft below a label. -/
def Below.RefusesFavouring (handler : α) (below : Below α) : Prop :=
  ∀ (fresh : CounterId) (rest : List Token) (slashed : Bool) (clash : Clash),
    below.Sound → below.Tallied → Proper slashed rest → rest ≠ [] →
      (below.graft handler fresh rest).verdict = .error clash →
        (below.graft handler fresh rest).tree.recount.spread = (below.favour rest).spread

section Refused

variable {handler : α}

/-- After a refused graft below a label, counting afresh counts what was there. -/
theorem weight_of_refused {below : Below α} {fresh : CounterId} {rest : List Token}
    {slashed : Bool} {clash : Clash} (proper : Proper slashed rest) (going : rest ≠ [])
    (refused : (below.graft handler fresh rest).verdict = .error clash) :
    (below.graft handler fresh rest).tree.recount.weight = below.listing.length := by
  have same := (listing_graft handler).2 below fresh rest slashed proper going
  rw [refused] at same
  rw [(tallied_recount.2 _).weight_eq, (listing_recount.2 _).length_eq]
  exact same.length_eq

theorem refusesFavouring_static {below : Below α} (ih : below.RefusesFavouring handler)
    (label : List UInt8) (priority : Nat) (existing : Option α) :
    (Node.static label priority existing below).RefusesFavouring handler := by
  intro index fresh rest slashed clash sound tallied proper hhead refused
  have counted := recount_of_tallied.1 _ tallied
  rcases hmet : overlap label rest with ⟨common, label', rest'⟩
  obtain ⟨hlabel, hrest, -⟩ := overlap_eq hmet
  cases label' with
  | cons b suffix =>
      cases rest' with
      | nil =>
          rw [graft_cut_end hmet] at refused
          cases refused
      | cons token rest' =>
          obtain ⟨common', rfl⟩ := List.head?_eq_some_iff.mp (head_common hmet sound hhead)
          rw [graft_cut_sprout hmet] at refused ⊢
          dsimp only at refused ⊢
          rw [sprout_of_error refused, (favour_cut hmet).1]
          calc (Node.static (index :: common') (priority + 1) none
                  (.edges [(b, .static (b :: suffix) priority existing below)])).recount.spread
              = (Node.static (index :: common') priority none
                  (.edges [(b, .static (b :: suffix) priority existing below)])).recount.spread := rfl
            _ = (Node.static label priority existing below).recount.spread := by
                rw [recount_spread.1, spread_cut index common' hlabel, recount_spread.1]
            _ = (Node.static label priority existing below).spread := by rw [counted]
  | nil =>
      cases rest' with
      | nil =>
          rw [graft_here hmet] at refused ⊢
          rw [(favour_here hmet).1]
          cases existing with
          | none => cases refused
          | some existing => exact congrArg Node.spread counted
      | cons token rest' =>
          rw [graft_below hmet] at refused ⊢
          rw [(favour_below hmet).1]
          rw [hrest] at proper
          obtain ⟨slashed', proper'⟩ := Proper.drop_literal proper
          have under := ih fresh _ slashed' clash sound.1 tallied.2 proper' (List.cons_ne_nil _ _)
            refused
          rw [Node.recount, Node.spread, Node.spread, under,
            weight_of_refused proper' (List.cons_ne_nil _ _) refused,
            ← length_listing_static label priority, ← tallied.1]

theorem refusesFavouring_edges {es : List (Edge α)}
    (ih : ∀ edge ∈ es, edge.2.RefusesFavouring handler) :
    (Below.edges es).RefusesFavouring handler := by
  intro fresh rest slashed clash sound tallied proper hrest refused
  rcases graft_edges handler fresh es rest with
    ⟨hsprout, -⟩ | ⟨before, b, node, after, hhead, rfl, hfollow⟩
  · rw [hsprout] at refused ⊢
    rw [sprout_of_error refused, recount_of_tallied.2 _ tallied]
    rcases rest with _ | ⟨b | name | name, rest⟩
    · exact absurd rfl hrest
    · cases refused
    · rfl
    · rfl
  · rw [hfollow] at refused ⊢
    obtain ⟨rest, rfl⟩ := List.head?_eq_some_iff.mp hhead
    obtain ⟨falling, hes⟩ := Below.tallied_edges_iff.mp tallied
    obtain ⟨hkeys, hsound⟩ := Below.sound_edges_iff.mp sound
    have hmem : (b, node) ∈ before ++ (b, node) :: after :=
      List.mem_append_right _ (List.mem_cons_self ..)
    have hnode := ih _ hmem b fresh _ slashed clash (hsound _ hmem) (hes _ hmem) proper rfl refused
    obtain ⟨ahead, ties, rfl, more, same, hfavour, -⟩ := favour_edges sound falling rest
    obtain ⟨others, least⟩ := falling.middle
    rw [List.append_assoc] at others
    have noMore : ∀ sibling ∈ ties ++ after, sibling.2.priority ≤ node.priority := by
      intro sibling hsibling
      rcases List.mem_append.mp hsibling with h | h
      · exact Nat.le_of_eq (same sibling h)
      · exact least sibling h
    have counts : (node.graft handler fresh (.byte b :: rest)).tree.recount.priority =
        node.priority := by
      rw [← Node.priority_spread, hnode, Node.priority_spread, Node.priority_favour]
    rw [raise_ties (free_of_nodup hkeys).1 (priority_graft ..) more same, hfavour,
      recount_middle ?tallied others ?more ?noMore, Below.spread, Below.spread, spreadEdges_append,
      spreadEdges_append, spreadEdges, spreadEdges, hnode]
    case more => rwa [counts]
    case noMore => rwa [counts]
    case tallied =>
      intro edge hedge
      refine hes edge ?_
      rw [← List.append_assoc] at hedge
      exact ((List.sublist_cons_self _ _).append_left _).subset hedge

theorem refusesFavouring_param {next : Option (Node α)}
    (ih : ∀ node, next = some node → node.RefusesFavouring handler) (name : List UInt8)
    (hits : CounterId) (priority : Nat) (existing : Option α) :
    (Below.param name hits priority existing next).RefusesFavouring handler := by
  intro fresh rest slashed clash sound tallied proper hrest refused
  have counted := recount_of_tallied.2 _ tallied
  obtain ⟨token, rest, rfl⟩ := List.exists_cons_of_ne_nil hrest
  by_cases htoken : token = .param name
  · subst htoken
    rw [(favour_param_next rest).1]
    cases rest with
    | nil =>
        rw [graft_param_here] at refused ⊢
        have stays : favourNext next [] = next := by
          cases next with
          | none => rfl
          | some node => exact congrArg some (favour_nil node)
        rw [stays]
        cases existing with
        | none => cases refused
        | some existing => exact congrArg Below.spread counted
    | cons token rest =>
        obtain ⟨-, hslash, hproper⟩ := proper
        obtain rfl : token = .byte slash := hslash token rfl
        rw [graft_param_next] at refused ⊢
        cases next with
        | none => cases refused
        | some node =>
            have hnode := ih node rfl slash fresh _ false clash sound.2 tallied.2 hproper rfl refused
            have counts : (node.graft handler fresh (.byte slash :: rest)).tree.recount.priority =
                node.priority := by
              rw [← Node.priority_spread, hnode, Node.priority_spread, Node.priority_favour]
            have whole : existing.toList.length + node.priority = priority := by
              rw [Node.Tallied.priority_eq tallied.2, tallied.1, length_listing_param]
              rfl
            rw [graftNext, favourNext, Below.recount, recountNext, Option.map_some,
              Option.getD_some, counts, whole, Below.spread, Below.spread, spreadNext, spreadNext,
              hnode]
  · rw [graft_param_other htoken, (favour_param_other htoken rest).1]
    exact congrArg Below.spread counted

/-- A refused graft, counted afresh, favours the way of the route and cuts at most a label. -/
theorem recount_graft_of_error (handler : α) :
    (∀ node : Node α, node.RefusesFavouring handler) ∧
      ∀ below : Below α, below.RefusesFavouring handler := by
  refine tree_induction ?static ?catchAll ?edges ?param
  case static =>
    intro label priority existing below ih
    exact refusesFavouring_static ih label priority existing
  case catchAll =>
    intro name hits priority existing index fresh rest slashed clash _ tallied _ _ _
    exact congrArg Node.spread (recount_of_tallied.1 _ tallied)
  case edges =>
    intro es ih
    exact refusesFavouring_edges ih
  case param =>
    intro name hits priority existing next ih
    exact refusesFavouring_param ih name hits priority existing

end Refused

theorem spreadLabel_inj {label : List UInt8} {priority : Nat} {existing : Option α}
    {below below' : Below α} :
    spreadLabel label priority existing below = spreadLabel label priority existing below' ↔
      below = below' := by
  refine ⟨fun h => ?_, fun h => by rw [h]⟩
  induction label with
  | nil => exact (Node.static.inj h).2.2.2
  | cons b label ih =>
      cases label with
      | nil => exact (Node.static.inj h).2.2.2
      | cons c label =>
          have chained := Below.edges.inj (Node.static.inj h).2.2.2
          exact ih (Prod.mk.inj (List.cons.inj chained).1).2

/-- Favouring the way of a route changes nothing but cuts exactly when the way is clear. -/
def Node.ClearsWay (node : Node α) : Prop :=
  ∀ (index : UInt8) (rest : List Token), node.Sound index → node.Tallied →
    ((node.favour rest).spread = node.spread ↔ node.clearWay rest = true)

/-- The same below a label. -/
def Below.ClearsWay (below : Below α) : Prop :=
  ∀ rest : List Token, below.Sound → below.Tallied →
    ((below.favour rest).spread = below.spread ↔ below.clearWay rest = true)

theorem clearsWay_static {below : Below α} (ih : below.ClearsWay) (label : List UInt8)
    (priority : Nat) (existing : Option α) :
    (Node.static label priority existing below).ClearsWay := by
  intro index rest sound tallied
  rcases hmet : overlap label rest with ⟨common, _ | ⟨b, suffix⟩, rest'⟩
  · cases rest' with
    | nil =>
        obtain ⟨hfavour, hclear⟩ := favour_here hmet
        exact iff_of_true (congrArg Node.spread hfavour) hclear
    | cons token rest' =>
        obtain ⟨hfavour, hclear⟩ := favour_below hmet
        rw [hfavour, hclear, Node.spread, Node.spread, spreadLabel_inj]
        exact ih (token :: rest') sound.1 tallied.2
  · obtain ⟨hfavour, hclear⟩ := favour_cut hmet
    exact iff_of_true (congrArg Node.spread hfavour) hclear

/-- Where no edge takes the next byte, there is nothing to favour. -/
theorem favour_of_free {es : List (Edge α)} {b : UInt8} (free : b ∉ es.map (·.1))
    (rest : List Token) :
    (Below.edges es).favour (.byte b :: rest) = .edges es ∧
      (Below.edges es).clearWay (.byte b :: rest) = true := by
  have untaken : favourEdges es b (.byte b :: rest) = es ∧
      clearEdges es b (.byte b :: rest) = true := by
    induction es with
    | nil => exact ⟨rfl, rfl⟩
    | cons edge es ih =>
        obtain ⟨index, node⟩ := edge
        rw [List.map_cons, List.mem_cons, not_or] at free
        obtain ⟨hfavour, hclear⟩ := ih free.2
        rw [favourEdges, clearEdges, if_neg (Ne.symm free.1), if_neg (Ne.symm free.1), hfavour]
        exact ⟨rfl, hclear⟩
  rw [Below.favour, Below.clearWay, untaken.1, untaken.2, reseat, leads, find?_of_free free]
  exact ⟨rfl, rfl⟩

theorem clearsWay_edges {es : List (Edge α)} (ih : ∀ edge ∈ es, edge.2.ClearsWay) :
    (Below.edges es).ClearsWay := by
  intro rest sound tallied
  rcases rest with _ | ⟨b | name | name, rest⟩
  case cons.byte =>
    by_cases hb : b ∈ es.map (·.1)
    · obtain ⟨⟨index, node⟩, hmem, hindex⟩ := List.mem_map.mp hb
      obtain rfl : index = b := hindex
      obtain ⟨before, after, rfl⟩ := List.append_of_mem hmem
      obtain ⟨hkeys, hsound⟩ := Below.sound_edges_iff.mp sound
      obtain ⟨falling, hes⟩ := Below.tallied_edges_iff.mp tallied
      obtain ⟨ahead, ties, rfl, -, -, hfavour, hclear⟩ := favour_edges sound falling rest
      have hnode := ih _ hmem index (.byte index :: rest) (hsound _ hmem) (hes _ hmem)
      rw [hfavour, hclear, ← hnode, Below.spread, Below.spread, Below.edges.injEq,
        List.append_assoc, spreadEdges_append, spreadEdges_append, List.append_cancel_left_eq]
      cases ties with
      | nil =>
          rw [List.nil_append, List.nil_append, spreadEdges, spreadEdges, List.cons.injEq,
            Prod.mk.injEq]
          exact ⟨fun h => ⟨rfl, h.1.2⟩, fun h => ⟨⟨rfl, h.2⟩, rfl⟩⟩
      | cons first ties =>
          -- the edge would stand where a sibling stood
          refine iff_of_false (fun h => ?_) (fun h => List.cons_ne_nil _ _ h.1)
          have moved : index = first.1 := (Prod.mk.inj (List.cons.inj h).1).1
          refine (free_of_nodup hkeys).1 (List.mem_map.mpr ⟨first, ?_, moved.symm⟩)
          exact List.mem_append_right _ (List.mem_cons_self ..)
    · obtain ⟨hfavour, hclear⟩ := favour_of_free hb rest
      exact iff_of_true (congrArg Below.spread hfavour) hclear
  all_goals exact iff_of_true rfl rfl

theorem clearsWay_param {next : Option (Node α)}
    (ih : ∀ node, next = some node → node.ClearsWay) (name : List UInt8) (hits : CounterId)
    (priority : Nat) (existing : Option α) :
    (Below.param name hits priority existing next).ClearsWay := by
  intro rest sound tallied
  rcases rest with _ | ⟨token, rest⟩
  · exact iff_of_true rfl rfl
  · by_cases htoken : token = .param name
    · subst htoken
      rw [(favour_param_next rest).1, (favour_param_next rest).2]
      cases next with
      | none => exact iff_of_true rfl rfl
      | some node =>
          rw [favourNext, clearNext, ← ih node rfl slash rest sound.2 tallied.2, Below.spread,
            Below.spread, spreadNext, spreadNext, Below.param.injEq, Option.some.injEq]
          exact ⟨fun h => h.2.2.2.2, fun h => ⟨rfl, rfl, rfl, rfl, h⟩⟩
    · obtain ⟨hfavour, hclear⟩ := favour_param_other htoken rest
      exact iff_of_true (congrArg Below.spread hfavour) hclear

/-- Exactly on a clear way there is nothing to favour. -/
theorem spread_favour_eq_iff :
    (∀ node : Node α, node.ClearsWay) ∧ ∀ below : Below α, below.ClearsWay := by
  refine tree_induction ?static ?catchAll ?edges ?param
  case static =>
    intro label priority existing below ih
    exact clearsWay_static ih label priority existing
  case catchAll =>
    intro name hits priority existing index rest _ _
    exact iff_of_true rfl rfl
  case edges =>
    intro es ih
    exact clearsWay_edges ih
  case param =>
    intro name hits priority existing next ih
    exact clearsWay_param ih name hits priority existing

/-! ## Registrations that are refused -/

/-- The tree of a method with the way of a pattern favoured.  A faulty pattern has no way. -/
def favoured (tree : Option (Node α)) (pattern : String) : Option (Node α) :=
  match Pattern.fault? (Utf8.encode pattern) with
  | some _ => tree
  | none => tree.map (·.favour (Pattern.route pattern))

/-- Whether nothing is to be favoured on the way of a pattern. -/
def wayClear (tree : Option (Node α)) (pattern : String) : Bool :=
  match Pattern.fault? (Utf8.encode pattern) with
  | some _ => true
  | none => tree.all (·.clearWay (Pattern.route pattern))

/-- What an attempt is answered. -/
def Grown.verdict (grown : Grown α) (attempt : Attempt α) : Except RouteError CounterId :=
  (Router.insertRoute grown.tree attempt.pattern attempt.handler attempt.fresh).2

theorem Grown.tree_insert (grown : Grown α) (attempt : Attempt α) :
    (grown.insert attempt).tree =
      (Router.insertRoute grown.tree attempt.pattern attempt.handler attempt.fresh).1 := by
  unfold Grown.insert
  dsimp only
  split <;> rfl

/-- From the root, a refused insertion favours the way of the route. -/
theorem Node.Rooted.insert_of_error {tree : Node α} (rooted : tree.Rooted) (tallied : tree.Tallied)
    {handler : α} {fresh : CounterId} {rest : List Token} (proper : Proper true rest)
    {clash : Clash}
    (refused : (tree.insert handler fresh (.byte slash :: rest)).verdict = .error clash) :
    (tree.insert handler fresh (.byte slash :: rest)).tree.spread =
      (tree.favour (.byte slash :: rest)).spread := by
  rw [(insert_eq tree handler fresh _).1] at refused
  have counted := (recount_graft_of_error handler).1 tree slash fresh (.byte slash :: rest) false
    clash rooted.sound tallied ⟨rfl, proper⟩ rfl refused
  unfold Node.insert
  dsimp only
  rw [refused]
  exact counted

section Branches

variable {tree : Option (Node α)} {listing : List (List Token × α)} {pattern : String}

/-- A refused registration favours the way of its pattern and does nothing else but cut a label. -/
theorem branches_of_refused (holds : Holds tree listing) (tallied : ∀ node ∈ tree, node.Tallied)
    {handler : α} {fresh : CounterId} {error : RouteError}
    (refused : (Router.insertRoute tree pattern handler fresh).2 = .error error) :
    SameBranches (Router.insertRoute tree pattern handler fresh).1 (favoured tree pattern) := by
  unfold Router.insertRoute at refused ⊢
  unfold favoured
  dsimp only at refused ⊢
  cases hfault : Pattern.fault? (Utf8.encode pattern) with
  | some fault => exact rfl
  | none =>
      obtain ⟨rest, hroute, hproper⟩ := Pattern.proper_tokens hfault
      rw [hfault] at refused
      cases tree with
      | none => cases refused
      | some node =>
          dsimp only at refused ⊢
          rw [hroute] at refused
          rw [Pattern.route, hroute]
          cases hverdict : (node.insert handler fresh (.byte slash :: rest)).verdict with
          | ok used =>
              rw [hverdict] at refused
              cases refused
          | error clash =>
              exact congrArg some (holds.1.insert_of_error (tallied node rfl) hproper hverdict)

/-- Favouring the way of a pattern changes nothing but cuts exactly when the way is clear. -/
theorem branches_favoured_iff (holds : Holds tree listing) (tallied : ∀ node ∈ tree, node.Tallied) :
    SameBranches (favoured tree pattern) tree ↔ wayClear tree pattern = true := by
  unfold favoured wayClear
  cases Pattern.fault? (Utf8.encode pattern) with
  | some fault => exact iff_of_true rfl rfl
  | none =>
      cases tree with
      | none => exact iff_of_true rfl rfl
      | some node =>
          have clears := spread_favour_eq_iff.1 node slash (Pattern.route pattern) holds.1.sound
            (tallied node rfl)
          rw [Option.all_some, ← clears, SameBranches, Option.map_some, Option.map_some,
            Option.map_some, Option.some.injEq]

end Branches

/-- Trees that differ in nothing but cuts do so after any further attempts. -/
theorem SameBranches.foldl_insert {grown grown' : Grown α}
    (same : SameBranches grown.tree grown'.tree) (attempts : List (Attempt α)) :
    SameBranches (attempts.foldl Grown.insert grown).tree
      (attempts.foldl Grown.insert grown').tree := by
  induction attempts generalizing grown grown' with
  | nil => exact same
  | cons attempt attempts ih =>
      refine ih ?_
      rw [Grown.tree_insert, Grown.tree_insert]
      exact (same.insertRoute attempt.pattern attempt.handler attempt.fresh).2

/-- A refused attempt leaves the tree as it was, apart from cuts and from one thing: each edge that
the pattern follows now stands in front of the siblings that count as many routes.  The order of
edges is kept exactly when there are no such siblings in front, and then every later attempt is
answered as if the refused one had never been made, down to the route that a conflict names. -/
theorem refused_insert_order (attempts : List (Attempt α)) (attempt : Attempt α)
    (error : RouteError) (refused : (grow attempts).verdict attempt = .error error) :
    SameBranches (grow (attempts ++ [attempt])).tree
        (favoured (grow attempts).tree attempt.pattern) ∧
      (SameBranches (grow (attempts ++ [attempt])).tree (grow attempts).tree ↔
        wayClear (grow attempts).tree attempt.pattern = true) ∧
      (wayClear (grow attempts).tree attempt.pattern = true →
        ∀ (further : List (Attempt α)) (next : Attempt α),
          (grow (attempts ++ attempt :: further)).verdict next =
            (grow (attempts ++ further)).verdict next) := by
  obtain ⟨holds, tallied, -⟩ := intact_grow attempts
  have grown : (grow (attempts ++ [attempt])) = (grow attempts).insert attempt := by
    rw [grow, List.foldl_append]
    rfl
  have left : SameBranches (grow (attempts ++ [attempt])).tree
      (favoured (grow attempts).tree attempt.pattern) := by
    rw [grown, Grown.tree_insert]
    exact branches_of_refused holds tallied refused
  have kept : SameBranches (grow (attempts ++ [attempt])).tree (grow attempts).tree ↔
      wayClear (grow attempts).tree attempt.pattern = true := by
    rw [← branches_favoured_iff holds tallied, SameBranches, left]
    exact Iff.rfl
  refine ⟨left, kept, fun clear further next => ?_⟩
  have same := (kept.mpr clear).foldl_insert further
  rw [grow, grow, ← List.foldl_append, ← List.foldl_append, List.append_assoc] at same
  exact (same.insertRoute next.pattern next.handler next.fresh).1

/-- The edge of `b` counts more than the one the refused pattern follows, so it stays in front, and
a parameter is refused because of the same route as before. -/
theorem refused_insert_order_kept :
    let attempts : List (Attempt Nat) := [⟨"/a/:id", 0, 0⟩, ⟨"/b/1", 1, 1⟩, ⟨"/b/2", 2, 1⟩]
    let attempt : Attempt Nat := ⟨"/a/new", 3, 1⟩
    let next : Attempt Nat := ⟨"/:any", 4, 1⟩
    (grow attempts).verdict attempt = .error (.conflictingWildcard "/a/new" "new" "/a/:id") ∧
      SameBranches (grow (attempts ++ [attempt])).tree (grow attempts).tree ∧
      (grow (attempts ++ [attempt])).verdict next =
        .error (.conflictingWildcard "/:any" ":any" "/b/1") := by
  intro attempts attempt next
  have refused : (grow attempts).verdict attempt =
      .error (.conflictingWildcard "/a/new" "new" "/a/:id") := by
    decide +kernel
  have clear : wayClear (grow attempts).tree attempt.pattern = true := by decide +kernel
  have answer : (grow attempts).verdict next =
      .error (.conflictingWildcard "/:any" ":any" "/b/1") := by
    decide +kernel
  obtain ⟨-, kept, later⟩ := refused_insert_order attempts attempt _ refused
  exact ⟨refused, kept.mpr clear, (later clear [] next).trans answer⟩

/-- The bytes that lead on below a label, in the order of their edges. -/
def Below.branches : Below α → List UInt8
  | .edges es => es.map (·.1)
  | .param .. => []

/-- The edges of `b` and `c` count the same.  A refused pattern that follows the second moves it to
the front, and from then on a parameter is refused because of another route. -/
theorem refused_insert_reorders :
    let attempts : List (Attempt Nat) := [⟨"/b", 0, 0⟩, ⟨"/c:x", 1, 0⟩]
    let attempt : Attempt Nat := ⟨"/c:y", 2, 1⟩
    let next : Attempt Nat := ⟨"/:z", 3, 1⟩
    (grow attempts).verdict attempt = .error (.conflictingWildcard "/c:y" ":y" "/c:x") ∧
      (grow attempts).tree.map (·.under.branches) = some (Utf8.encode "bc") ∧
      (grow (attempts ++ [attempt])).tree.map (·.under.branches) = some (Utf8.encode "cb") ∧
      (grow attempts).verdict next = .error (.conflictingWildcard "/:z" ":z" "/b") ∧
      (grow (attempts ++ [attempt])).verdict next =
        .error (.conflictingWildcard "/:z" ":z" "/c:x") := by
  decide +kernel

end RadixRouter
