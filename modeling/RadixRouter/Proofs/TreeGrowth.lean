/-
# Trees grown from nothing

A tree grows by attempts to add a route, each with the next unused counter; some are accepted and
some are refused.  `Grown` keeps the tree beside the patterns that were accepted on the way to it.
Whatever is attempted, the tree holds exactly the accepted routes, it counts them, and no pattern
was accepted twice.
-/

import RadixRouter.Proofs.Conflict
import RadixRouter.Proofs.RouteCounts

namespace RadixRouter

variable {α : Type}

/-- One attempt to add a route to a tree, with the next unused counter. -/
structure Attempt (α : Type) where
  pattern : String
  handler : α
  fresh : CounterId

/-- A tree and the patterns that were accepted on the way to it, with their handlers. -/
structure Grown (α : Type) where
  tree : Option (Node α)
  accepted : List (String × α)

/-- What one attempt leads to. -/
def Grown.insert (grown : Grown α) (attempt : Attempt α) : Grown α :=
  let (tree, verdict) :=
    Router.insertRoute grown.tree attempt.pattern attempt.handler attempt.fresh
  match verdict with
  | .ok _ => ⟨tree, grown.accepted ++ [(attempt.pattern, attempt.handler)]⟩
  | .error _ => ⟨tree, grown.accepted⟩

/-- What attempts lead to, one after the other, from an empty tree. -/
def grow (attempts : List (Attempt α)) : Grown α := attempts.foldl Grown.insert ⟨none, []⟩

/-- The routes that were accepted. -/
def Grown.listing (grown : Grown α) : List (List Token × α) :=
  grown.accepted.map fun (pattern, handler) => (Pattern.route pattern, handler)

/-- What every attempt keeps. -/
structure Grown.Intact (grown : Grown α) : Prop where
  holds : Holds grown.tree grown.listing
  tallied : ∀ tree ∈ grown.tree, tree.Tallied
  faultless : ∀ entry ∈ grown.accepted, Pattern.Faultless entry.1
  distinct : (grown.accepted.map (·.1)).Nodup

theorem tallied_insertRoute {tree : Option (Node α)} {listing : List (List Token × α)}
    (holds : Holds tree listing) (tallied : ∀ node ∈ tree, node.Tallied) (pattern : String)
    (handler : α) (fresh : CounterId) :
    ∀ node ∈ (Router.insertRoute tree pattern handler fresh).1, node.Tallied := by
  unfold Router.insertRoute
  dsimp only
  cases hfault : Pattern.fault? (Utf8.encode pattern) with
  | some fault => exact tallied
  | none =>
      obtain ⟨rest, hroute, hproper⟩ := Pattern.proper_tokens hfault
      rw [hroute]
      intro node hnode
      cases tree with
      | none =>
          obtain rfl := Option.some.inj hnode
          exact tallied_ofTokens handler _ fresh
      | some tree =>
          obtain rfl := Option.some.inj hnode
          exact (tallied tree rfl).insert holds.1 handler fresh hproper

/-- A pattern that is accepted was not accepted before. -/
theorem not_mem_of_accepted {grown : Grown α} {pattern : String}
    (accepted : verdictCode? grown.listing pattern = none) :
    pattern ∉ grown.accepted.map (·.1) := by
  intro before
  obtain ⟨⟨old, handler⟩, hmem, rfl⟩ := List.mem_map.mp before
  have hstanding := (verdictCode?_eq_none_iff.mp accepted).2
  have hnone := standing_eq_none_iff.mp hstanding (Pattern.route old, handler)
    (List.mem_map.mpr ⟨_, hmem, rfl⟩)
  rw [Pattern.rivalry_eq_duplicate_iff.mpr rfl] at hnone
  cases hnone

theorem intact_start : (⟨none, []⟩ : Grown α).Intact where
  holds := rfl
  tallied := nofun
  faultless := List.forall_mem_nil _
  distinct := List.nodup_nil

theorem Grown.Intact.insert {grown : Grown α} (intact : grown.Intact) (attempt : Attempt α) :
    (grown.insert attempt).Intact := by
  obtain ⟨pattern, handler, fresh⟩ := attempt
  have holds := holds_insertRoute intact.holds pattern handler fresh
  have code := code?_insertRoute intact.holds pattern handler fresh
  have tallied := tallied_insertRoute intact.holds intact.tallied pattern handler fresh
  unfold Grown.insert
  dsimp only
  generalize Router.insertRoute grown.tree pattern handler fresh = answer at holds code tallied ⊢
  obtain ⟨tree, error | used⟩ := answer
  · exact ⟨holds, tallied, intact.faultless, intact.distinct⟩
  · refine ⟨?_, tallied, ?_, ?_⟩
    · rw [Grown.listing, List.map_append]
      exact holds
    · have faultless := (verdictCode?_eq_none_iff.mp code.symm).1
      exact List.forall_mem_append.mpr ⟨intact.faultless, List.forall_mem_singleton.mpr faultless⟩
    · dsimp only
      rw [List.map_append]
      refine intact.distinct.append (List.nodup_singleton _) ?_
      rw [List.map_singleton, List.disjoint_singleton]
      exact not_mem_of_accepted code.symm

theorem intact_grow (attempts : List (Attempt α)) : (grow attempts).Intact := by
  suffices run : ∀ grown : Grown α, grown.Intact → (attempts.foldl Grown.insert grown).Intact from
    run _ intact_start
  induction attempts with
  | nil => exact fun _ intact => intact
  | cons attempt attempts ih => exact fun grown intact => ih _ (intact.insert attempt)

end RadixRouter
