/-
# The counters that an insertion creates

An insertion that is accepted adds wildcard nodes for the part of the route that the tree did not
have, and numbers them in order from the first unused counter on.  Cuts, the order of edges and
the counts of routes leave every other node where it was, with its counter, and so does an
insertion that is refused.
-/

import RadixRouter.Proofs.Insertion
import RadixRouter.Proofs.WildcardNodes

namespace RadixRouter

variable {α : Type}

/-- Wildcard nodes that are numbered in order, from one counter up to another. -/
structure Numbered (added : List (List Token × CounterId)) (fresh used : Nat) : Prop where
  le : fresh ≤ used
  counters : added.map (·.2) = List.range' fresh (used - fresh)

namespace Numbered

variable {added : List (List Token × CounterId)} {fresh used : Nat}

theorem nil (fresh : Nat) : Numbered [] fresh fresh := ⟨Nat.le_refl _, by simp⟩

/-- One more node in front, with the number before. -/
theorem cons (way : List Token) (numbered : Numbered added (fresh + 1) used) :
    Numbered ((way, fresh) :: added) fresh used := by
  obtain ⟨hle, hcounters⟩ := numbered
  refine ⟨by omega, ?_⟩
  have hlength : used - fresh = used - (fresh + 1) + 1 := by omega
  rw [List.map_cons, hcounters, hlength, List.range'_succ]

theorem prependTokens (numbered : Numbered added fresh used) (tokens : List Token) :
    Numbered (prependTokens tokens added) fresh used := by
  refine ⟨numbered.le, ?_⟩
  rw [← numbered.counters, RadixRouter.prependTokens, List.map_map]
  rfl

/-- The numbers lie between the two counters. -/
theorem bounds (numbered : Numbered added fresh used) {way : List Token} {counter : Nat}
    (inside : (way, counter) ∈ added) : fresh ≤ counter ∧ counter < used := by
  have hmem : counter ∈ added.map (·.2) := List.mem_map.mpr ⟨_, inside, rfl⟩
  rw [numbered.counters, List.mem_range'_1] at hmem
  have := numbered.le
  omega

/-- No two nodes have one number. -/
theorem way_unique (numbered : Numbered added fresh used) {way way' : List Token}
    {counter : CounterId} (inside : (way, counter) ∈ added) (inside' : (way', counter) ∈ added) :
    way = way' := by
  have hnodup : (added.map (·.2)).Nodup := by
    rw [numbered.counters]
    exact List.nodup_range'
  exact congrArg Prod.fst (List.inj_on_of_nodup_map hnodup inside inside' rfl)

end Numbered

/-- The first counter that is unused after an attempt to add a route. -/
def nextCounter (fresh : CounterId) : Except Clash CounterId → CounterId
  | .ok used => used
  | .error _ => fresh

/-- Wildcard nodes after an attempt: those before, and the ones that the attempt created. -/
def Adds (fresh : CounterId) (verdict : Except Clash CounterId)
    (before after : List (List Token × CounterId)) : Prop :=
  ∃ added, after.Perm (added ++ before) ∧ Numbered added fresh (nextCounter fresh verdict)

namespace Adds

variable {fresh : CounterId} {verdict : Except Clash CounterId}
  {before after : List (List Token × CounterId)}

theorem accepted (fresh : CounterId) (same : after.Perm before) :
    Adds fresh (.ok fresh) before after := ⟨[], same, Numbered.nil fresh⟩

theorem refused (fresh : CounterId) (clash : Clash) (same : after.Perm before) :
    Adds fresh (.error clash) before after := ⟨[], same, Numbered.nil fresh⟩

theorem of_perm {after' : List (List Token × CounterId)} (adds : Adds fresh verdict before after)
    (same : after'.Perm after) : Adds fresh verdict before after' := by
  obtain ⟨added, hperm, numbered⟩ := adds
  exact ⟨added, same.trans hperm, numbered⟩

theorem prependTokens (adds : Adds fresh verdict before after) (tokens : List Token) :
    Adds fresh verdict (prependTokens tokens before) (prependTokens tokens after) := by
  obtain ⟨added, hperm, numbered⟩ := adds
  refine ⟨RadixRouter.prependTokens tokens added, ?_, numbered.prependTokens tokens⟩
  rw [← prependTokens_append]
  exact prependTokens_perm tokens hperm

/-- What stands beside stays. -/
theorem append_left (adds : Adds fresh verdict before after)
    (others : List (List Token × CounterId)) :
    Adds fresh verdict (others ++ before) (others ++ after) := by
  obtain ⟨added, hperm, numbered⟩ := adds
  refine ⟨added, (hperm.append_left others).trans ?_, numbered⟩
  exact List.perm_append_comm_assoc others added before

theorem append_right (adds : Adds fresh verdict before after)
    (others : List (List Token × CounterId)) :
    Adds fresh verdict (before ++ others) (after ++ others) := by
  obtain ⟨added, hperm, numbered⟩ := adds
  refine ⟨added, ?_, numbered⟩
  rw [← List.append_assoc]
  exact hperm.append_right others

end Adds

theorem wildcards_prepend (b : UInt8) {label : List UInt8} {priority : Nat} {handler : Option α}
    {below : Below α} :
    ((Node.static label priority handler below).prepend b).wildcards =
      prependTokens [.byte b] (Node.static label priority handler below).wildcards := by
  rw [Node.prepend, Node.wildcards, Node.wildcards, prependTokens_prependTokens]
  rfl

/-- The wildcards of a new chain of nodes are numbered in order. -/
theorem numbered_ofTokens (handler : α) (rest : List Token) (fresh : CounterId) :
    Numbered (Node.ofTokens handler rest fresh).1.wildcards fresh
      (Node.ofTokens handler rest fresh).2 := by
  fun_induction Node.ofTokens handler rest fresh with
  | case1 fresh => exact Numbered.nil fresh
  | case2 name rest fresh => exact (Numbered.nil (fresh + 1)).cons _
  | case3 name fresh => exact (Numbered.nil (fresh + 1)).cons _
  | case4 name rest fresh _ next fresh' heq ih =>
      rw [heq] at ih
      have numbered := (ih.prependTokens [.param name]).cons [.param name]
      dsimp only [Node.wildcards, Below.wildcards, wildcardsNext]
      exact numbered.prependTokens _
  | case5 b name rest fresh ih => exact ih
  | case6 b rest fresh _ node fresh' heq ih =>
      obtain ⟨label, existing, below, hshape⟩ := exists_ofTokens_eq handler rest fresh
      rw [heq] at ih hshape
      dsimp only at ih hshape ⊢
      rw [hshape] at ih ⊢
      rw [wildcards_prepend]
      exact ih.prependTokens _

/-- A sprout numbers the wildcards that it creates. -/
theorem adds_sprout (handler : α) (fresh : CounterId) (es : List (Edge α)) (rest : List Token) :
    Adds fresh (sprout handler fresh es rest).verdict (wildcardsEdges es)
      (sprout handler fresh es rest).tree.wildcards := by
  have numbered := numbered_ofTokens handler rest fresh
  cases rest with
  | nil => exact Adds.accepted fresh (List.Perm.refl _)
  | cons token rest =>
      cases token with
      | catchAll name => exact Adds.refused fresh _ (List.Perm.refl _)
      | byte b =>
          refine ⟨_, (wildcardsEdges_perm (raise_perm b _)).trans ?_, numbered⟩
          rw [wildcardsEdges_append, wildcardsEdges, wildcardsEdges, List.append_nil]
          exact List.perm_append_comm
      | param name =>
          cases es with
          | cons edge es => exact Adds.refused fresh _ (List.Perm.refl _)
          | nil =>
              obtain ⟨hits, existing, next, hshape⟩ := ofTokens_param handler name rest fresh
              refine ⟨_, List.Perm.of_eq ?_, numbered⟩
              show (Node.ofTokens handler (.param name :: rest) fresh).1.under.wildcards = _
              rw [hshape, wildcardsEdges, List.append_nil, Node.wildcards, List.map_nil]
              exact (prependTokens_nil _).symm

/-- The wildcards of a node are those of its two halves when its label is cut. -/
theorem wildcards_cut (common : List UInt8) (b : UInt8) (suffix : List UInt8) (priority : Nat)
    (existing : Option α) (below : Below α) :
    (Node.static (common ++ b :: suffix) priority existing below).wildcards =
      prependTokens (common.map .byte)
        (wildcardsEdges [(b, .static (b :: suffix) priority existing below)]) := by
  rw [wildcardsEdges, wildcardsEdges, List.append_nil, Node.wildcards, Node.wildcards,
    prependTokens_prependTokens, List.map_append]

/-- A graft onto a node numbers the wildcards that it creates. -/
def Node.Numbers (handler : α) (node : Node α) : Prop :=
  ∀ (fresh : CounterId) (rest : List Token),
    Adds fresh (node.graft handler fresh rest).verdict node.wildcards
      (node.graft handler fresh rest).tree.wildcards

/-- A graft below a label numbers the wildcards that it creates. -/
def Below.Numbers (handler : α) (below : Below α) : Prop :=
  ∀ (fresh : CounterId) (token : Token) (rest : List Token),
    Adds fresh (below.graft handler fresh (token :: rest)).verdict below.wildcards
      (below.graft handler fresh (token :: rest)).tree.wildcards

theorem numbers_static {handler : α} {below : Below α} (ih : below.Numbers handler)
    (label : List UInt8) (priority : Nat) (existing : Option α) :
    (Node.static label priority existing below).Numbers handler := by
  intro fresh rest
  rcases hmet : overlap label rest with ⟨common, label', rest'⟩
  obtain ⟨hlabel, -, -⟩ := overlap_eq hmet
  cases label' with
  | cons b suffix =>
      subst hlabel
      rw [wildcards_cut]
      cases rest' with
      | nil =>
          rw [graft_cut_end hmet]
          exact Adds.accepted fresh (List.Perm.refl _)
      | cons token rest' =>
          rw [graft_cut_sprout hmet]
          exact (adds_sprout handler fresh _ (token :: rest')).prependTokens _
  | nil =>
      cases rest' with
      | nil =>
          rw [graft_here hmet]
          cases existing with
          | some existing => exact Adds.refused fresh _ (List.Perm.refl _)
          | none => exact Adds.accepted fresh (List.Perm.refl _)
      | cons token rest' =>
          rw [graft_below hmet]
          exact (ih fresh token rest').prependTokens _

theorem numbers_edges {handler : α} {es : List (Edge α)}
    (ih : ∀ edge ∈ es, edge.2.Numbers handler) : (Below.edges es).Numbers handler := by
  intro fresh token rest
  rcases graft_edges handler fresh es (token :: rest) with
    ⟨hsprout, -⟩ | ⟨before, b, node, after, -, rfl, hfollow⟩
  · rw [hsprout]
    exact adds_sprout handler fresh es (token :: rest)
  · rw [hfollow]
    have hnode := ih (b, node) (List.mem_append_right _ (List.mem_cons_self ..)) fresh
      (token :: rest)
    refine Adds.of_perm ?_ (wildcardsEdges_perm (raise_perm b _))
    rw [Below.wildcards, wildcardsEdges_append, wildcardsEdges_append, wildcardsEdges,
      wildcardsEdges]
    exact (hnode.append_right _).append_left _

theorem numbers_param {handler : α} {next : Option (Node α)}
    (ih : ∀ node, next = some node → node.Numbers handler) (name : List UInt8)
    (hits : CounterId) (priority : Nat) (existing : Option α) :
    (Below.param name hits priority existing next).Numbers handler := by
  intro fresh token rest
  by_cases htoken : token = .param name
  · subst htoken
    cases rest with
    | nil =>
        rw [graft_param_here]
        cases existing with
        | some existing => exact Adds.refused fresh _ (List.Perm.refl _)
        | none => exact Adds.accepted fresh (List.Perm.refl _)
    | cons token rest =>
        rw [graft_param_next]
        have hnext : Adds fresh (graftNext handler fresh next (token :: rest)).verdict
            (wildcardsNext next)
            (graftNext handler fresh next (token :: rest)).tree.wildcards := by
          cases next with
          | some node => exact ih node rfl fresh (token :: rest)
          | none =>
              refine ⟨_, List.Perm.of_eq (List.append_nil _).symm, ?_⟩
              exact numbered_ofTokens handler (token :: rest) fresh
        exact (hnext.prependTokens [.param name]).append_left [([.param name], hits)]
  · obtain ⟨clash, hclash, -⟩ := graft_param_clash htoken
    rw [hclash]
    exact Adds.refused fresh clash (List.Perm.refl _)

/-- An attempt to add a route numbers the wildcards that it creates and keeps all others. -/
theorem adds_graft (handler : α) :
    (∀ node : Node α, node.Numbers handler) ∧ ∀ below : Below α, below.Numbers handler := by
  refine tree_induction ?static ?catchAll ?edges ?param
  case static =>
    intro label priority existing below ih
    exact numbers_static ih label priority existing
  case catchAll =>
    intro name hits priority existing fresh rest
    exact Adds.refused fresh _ (List.Perm.refl _)
  case edges =>
    intro es ih
    exact numbers_edges ih
  case param =>
    intro name hits priority existing next ih
    exact numbers_param ih name hits priority existing

/-- Counting afresh keeps the wildcards. -/
theorem wildcards_recount :
    (∀ node : Node α, node.recount.wildcards.Perm node.wildcards) ∧
      ∀ below : Below α, below.recount.wildcards.Perm below.wildcards := by
  refine tree_induction ?static ?catchAll ?edges ?param
  case static =>
    intro label priority handler below ih
    exact prependTokens_perm _ ih
  case catchAll =>
    intro name hits priority handler
    exact List.Perm.refl _
  case edges =>
    intro es ih
    apply (wildcardsEdges_perm (rank_perm _)).trans
    rw [Below.wildcards, wildcardsEdges_eq_flatMap, wildcardsEdges_eq_flatMap,
      recountEdges_eq_map, List.flatMap_map]
    exact List.Perm.flatMap_left es ih
  case param =>
    intro name hits priority handler next ih
    refine (prependTokens_perm _ ?_).cons _
    cases next with
    | none => exact List.Perm.refl _
    | some node => exact ih node rfl

/-- Insertion numbers the wildcards that it creates and keeps all others. -/
theorem adds_insert (tree : Node α) (handler : α) (fresh : CounterId) (route : List Token) :
    Adds fresh (tree.insert handler fresh route).verdict tree.wildcards
      (tree.insert handler fresh route).tree.wildcards := by
  have hgraft := (adds_graft handler).1 tree fresh route
  obtain ⟨hverdict, htree⟩ := insert_eq tree handler fresh route
  rw [hverdict]
  rcases htree with h | h
  · rw [h]
    exact hgraft
  · rw [h]
    exact hgraft.of_perm (wildcards_recount.1 _)

end RadixRouter
