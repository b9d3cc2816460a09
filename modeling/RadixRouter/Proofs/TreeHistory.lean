/-
# What registrations make of a tree

Only a call to `Router.handle` touches a tree, and only the tree of its method.  So a law of one
tree and the routes that it was given, in their order, is a law of every reachable router as soon
as it holds before the first registration and every registration keeps it.
-/

import RadixRouter.Proofs.Coherence

namespace RadixRouter

variable {α γ : Type}

/-- The routes of a method after a call to `Router.handle`. -/
theorem routesOf_logged {router : Router α γ} {log : List (Registration α)}
    {method pattern other : String} {handler : α} :
    routesOf other (log ++ router.logged method pattern handler) =
      if method = other then
        extended (code? (router.handle method pattern handler).answer)
          (Pattern.route pattern, handler) (routesOf other log)
      else routesOf other log := by
  rw [routesOf_append, Router.logged_eq, extended]
  by_cases hmethod : method = other
  · rw [if_pos hmethod]
    split <;> simp [routesOf, hmethod]
  · rw [if_neg hmethod]
    split <;> simp [routesOf, hmethod]

namespace Router

variable [Handler α γ] [ParamSink γ]

/-- Only registrations change the trees and create counters. -/
theorem trees_perform (router : Router α γ) (operation : Operation α γ) :
    (∃ method pattern handler, operation = .handle method pattern handler) ∨
      router.acceptedBy operation = [] ∧
        (router.perform operation).state.trees = router.trees ∧
        (router.perform operation).state.cache.counters.length =
          router.cache.counters.length := by
  have undisturbed {after : Router α γ} (h : router.Undisturbed after) :
      after.trees = router.trees ∧
        after.cache.counters.length = router.cache.counters.length := ⟨h.trees, h.counters⟩
  cases operation with
  | handle method pattern handler => exact Or.inl ⟨method, pattern, handler, rfl⟩
  | lookup method path =>
      exact Or.inr ⟨rfl, undisturbed (quiet_lookup router method path).undisturbed⟩
  | resolve method path =>
      exact Or.inr ⟨rfl, undisturbed (quiet_resolve router method path).undisturbed⟩
  | serve method path context =>
      exact Or.inr ⟨rfl, undisturbed (undisturbed_serve router method path context)⟩
  | allowed path exclude =>
      exact Or.inr ⟨rfl, undisturbed (quiet_allowed router path exclude).undisturbed⟩
  | respell method path fix => exact Or.inr ⟨rfl, rfl, rfl⟩
  | clearCache => exact Or.inr ⟨rfl, undisturbed (quiet_clearCache router).undisturbed⟩
  | startSweeper runtime =>
      refine Or.inr ⟨rfl, ?_⟩
      show (router.startSweeper runtime).state.trees = router.trees ∧
        (router.startSweeper runtime).state.cache.counters.length = router.cache.counters.length
      obtain ⟨⟨sweeper, hstate⟩, -⟩ := router.startSweeper_effect runtime
      rw [hstate]
      exact ⟨rfl, rfl⟩
  | shutdown =>
      refine Or.inr ⟨rfl, ?_⟩
      show router.shutdown.state.trees = router.trees ∧
        router.shutdown.state.cache.counters.length = router.cache.counters.length
      rw [shutdown_eq]
      exact ⟨rfl, rfl⟩
  | advance ms => exact Or.inr ⟨rfl, undisturbed (quiet_advance router ms).undisturbed⟩
  | install fallback =>
      refine Or.inr ⟨rfl, ?_⟩
      cases fallback <;> exact ⟨rfl, rfl⟩

section Law

variable {method : String} {law : Option (Node α) → List (List Token × α) → Prop}

/-- A run keeps a law of one tree that its registrations keep. -/
theorem law_run {router : Router α γ} {log : List (Registration α)} (keeps : router.Keeps log)
    (operations : List (Operation α γ))
    (start : law (router.trees.get? method) (routesOf method log))
    (step : ∀ pattern handler, .handle method pattern handler ∈ operations →
      ∀ tree listing fresh, Holds tree listing → law tree listing →
        law (insertRoute tree pattern handler fresh).1
          (extended (code? (insertRoute tree pattern handler fresh).2)
            (Pattern.route pattern, handler) listing)) :
    law ((router.run operations).state.trees.get? method)
      (routesOf method (log ++ router.accepted operations)) := by
  induction operations generalizing router log with
  | nil =>
      rw [accepted, List.append_nil]
      exact start
  | cons operation operations ih =>
      rw [accepted, ← List.append_assoc]
      refine ih (keeps.perform operation) ?_ fun pattern handler inside =>
        step pattern handler (List.mem_cons_of_mem _ inside)
      rcases router.trees_perform operation with
        ⟨method', pattern, handler, rfl⟩ | ⟨hnone, htrees, -⟩
      · show law ((router.handle method' pattern handler).state.trees.get? method)
          (routesOf method (log ++ router.logged method' pattern handler))
        rw [get?_handle, routesOf_logged]
        by_cases hmethod : method' = method
        · subst hmethod
          rw [if_pos rfl, if_pos rfl, code?_handle]
          exact step pattern handler (List.mem_cons_self ..) _ _ _
            (keeps.registers.holds method') start
        · rw [if_neg hmethod, if_neg hmethod]
          exact start
      · rw [hnone, htrees, List.append_nil]
        exact start

/-- A law of one tree that registrations keep holds in every reachable router. -/
theorem law_run_new (config : RouterConfig) (operations : List (Operation α γ))
    (start : law none [])
    (step : ∀ pattern handler, .handle method pattern handler ∈ operations →
      ∀ tree listing fresh, Holds tree listing → law tree listing →
        law (insertRoute tree pattern handler fresh).1
          (extended (code? (insertRoute tree pattern handler fresh).2)
            (Pattern.route pattern, handler) listing)) :
    law (((Router.new config : Router α γ).run operations).state.trees.get? method)
      (routesOf method ((Router.new config : Router α γ).accepted operations)) :=
  law_run (keeps_new config) operations start step

end Law

end Router

end RadixRouter
