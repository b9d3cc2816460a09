/-
# The cache stores what the trees say

A stored result is what a walk finds, at the time it is stored and ever after: routes are only
added, and a path fits at most one.  So a look-up answers what the walk answers, whether it
comes from the cache or not.

`Undisturbed` is what all operations share that register nothing: they touch the cache and the
clock, and keep the cache coherent.
-/

import RadixRouter.Proofs.Session
import RadixRouter.Proofs.TimedWipes

namespace RadixRouter

variable {α γ : Type}

/-- The answer of a look-up that ends with this walk. -/
def Search.answer : Search α → Lookup α
  | .found handler captures _ => ⟨some handler, false, false, Params.ofCaptures captures⟩
  | .missed hint => Lookup.miss hint

/-- An answer without the note of where it came from. -/
def Lookup.uncached (lookup : Lookup α) : Lookup α := { lookup with cached := false }

theorem Lookup.uncached_eq_iff {lookup lookup' : Lookup α} :
    lookup.uncached = lookup'.uncached ↔
      lookup.handler = lookup'.handler ∧
        lookup.trailingSlashRedirect = lookup'.trailingSlashRedirect ∧
          lookup.params = lookup'.params := by
  simp [uncached]

/-- Every stored result is what the walk finds. -/
def Coherent (trees : StringMap (Node α)) (cache : ResultCache α) : Prop :=
  ∀ method path entry, cache.get? method path = some entry →
    ∃ handler captures, (walk trees method path).result? = some (handler, captures) ∧
      entry = ⟨some handler, false, Params.ofCaptures captures⟩

theorem coherent_empty (trees : StringMap (Node α)) : Coherent trees ResultCache.empty := nofun

theorem coherent_wipe (trees : StringMap (Node α)) (cache : ResultCache α) :
    Coherent trees cache.wipe.1 := nofun

/-- What is found stays found, so what is stored stays right. -/
theorem Coherent.mono {trees trees' : StringMap (Node α)} {cache : ResultCache α}
    (coherent : Coherent trees cache)
    (kept : ∀ method path found, (walk trees method path).result? = some found →
      (walk trees' method path).result? = some found) : Coherent trees' cache := by
  intro method path entry hentry
  obtain ⟨handler, captures, hwalk, heq⟩ := coherent method path entry hentry
  exact ⟨handler, captures, kept method path _ hwalk, heq⟩

theorem get?_put (cache : ResultCache α) (method path : String) (entry : CacheEntry α)
    (method' path' : String) :
    (cache.put method path entry).get? method' path' =
      if method = method' ∧ path = path' then some entry else cache.get? method' path' := by
  unfold ResultCache.put ResultCache.get?
  dsimp only
  rw [StringMap.get?_insert]
  by_cases hmethod : method = method'
  · subst hmethod
    rw [if_pos rfl, Option.bind_some, StringMap.get?_insert]
    by_cases hpath : path = path'
    · rw [if_pos hpath, if_pos ⟨rfl, hpath⟩]
    · rw [if_neg hpath, if_neg (fun h => hpath h.2)]
      cases cache.entries.get? method <;> rfl
  · rw [if_neg hmethod, if_neg (fun h => hmethod h.1)]

/-- Storing what the walk finds keeps the cache coherent. -/
theorem Coherent.put {trees : StringMap (Node α)} {cache : ResultCache α}
    (coherent : Coherent trees cache) {method path : String} {handler : α}
    {captures : List (List UInt8 × List UInt8)}
    (found : (walk trees method path).result? = some (handler, captures)) :
    Coherent trees
      (cache.put method path ⟨some handler, false, Params.ofCaptures captures⟩) := by
  intro method' path' entry hentry
  rw [get?_put] at hentry
  split at hentry
  · next h =>
      obtain ⟨rfl, rfl⟩ := h
      exact ⟨handler, captures, found, (Option.some.inj hentry).symm⟩
  · exact coherent method' path' entry hentry

/-- Events that are about the cache. -/
def Event.aboutCache : Event → Bool
  | .cachePromoted .. => true
  | .cacheSwept _ => true
  | .sweeperStarted _ => true
  | _ => false

namespace Router

/-- Two routers that differ in their caches and clocks only; the later cache is coherent if the
earlier was. -/
structure Undisturbed (before after : Router α γ) : Prop where
  trees : after.trees = before.trees
  config : after.config = before.config
  notFound : after.notFound = before.notFound
  methodNotAllowed : after.methodNotAllowed = before.methodNotAllowed
  globalOptions : after.globalOptions = before.globalOptions
  panicHandler : after.panicHandler = before.panicHandler
  sweeping : after.sweeper.isSome = before.sweeper.isSome
  counters : after.cache.counters.length = before.cache.counters.length
  coherent : Coherent before.trees before.cache → Coherent before.trees after.cache

theorem Undisturbed.refl (router : Router α γ) : router.Undisturbed router :=
  ⟨rfl, rfl, rfl, rfl, rfl, rfl, rfl, rfl, id⟩

theorem Undisturbed.trans {first second third : Router α γ} (earlier : first.Undisturbed second)
    (later : second.Undisturbed third) : first.Undisturbed third where
  trees := later.trees.trans earlier.trees
  config := later.config.trans earlier.config
  notFound := later.notFound.trans earlier.notFound
  methodNotAllowed := later.methodNotAllowed.trans earlier.methodNotAllowed
  globalOptions := later.globalOptions.trans earlier.globalOptions
  panicHandler := later.panicHandler.trans earlier.panicHandler
  sweeping := later.sweeping.trans earlier.sweeping
  counters := later.counters.trans earlier.counters
  coherent := by
    intro h
    have hlater := later.coherent
    rw [earlier.trees] at hlater
    exact hlater (earlier.coherent h)

/-- A router with another cache of as many counters. -/
theorem Undisturbed.of_cache (router : Router α γ) {cache : ResultCache α}
    (counters : cache.counters.length = router.cache.counters.length)
    (coherent : Coherent router.trees router.cache → Coherent router.trees cache) :
    router.Undisturbed { router with cache } :=
  ⟨rfl, rfl, rfl, rfl, rfl, rfl, rfl, counters, coherent⟩

/-- A step that registers nothing and reports on nothing but the cache. -/
structure Quiet {β : Type} (router : Router α γ) (step : Step (Router α γ) β) : Prop where
  undisturbed : router.Undisturbed step.state
  events : ∀ event ∈ step.events, event.aboutCache = true

variable {router : Router α γ} {method path : String}

theorem counters_bump (cache : ResultCache α) (counter : CounterId) :
    (cache.bump counter).counters.length = cache.counters.length := by
  simp [ResultCache.bump]

theorem undisturbed_countHit {handler : α} {captures : List (List UInt8 × List UInt8)}
    (found : (walk router.trees method path).result? = some (handler, captures))
    (counter : CounterId) :
    router.Undisturbed
      (router.countHit method path handler (Params.ofCaptures captures) counter).1 := by
  unfold countHit
  dsimp only
  split
  · exact Undisturbed.of_cache router (counters_bump _ _) fun h => Coherent.put h found
  · exact Undisturbed.of_cache router (counters_bump _ _) fun h => h

theorem events_countHit (handler : α) (params : Params) (counter : CounterId) :
    ∀ event ∈ (router.countHit method path handler params counter).2,
      event.aboutCache = true := by
  unfold countHit
  dsimp only
  split
  · intro event hevent
    rw [List.mem_singleton.mp hevent]
    rfl
  · exact nofun

/-- A look-up that is not answered from the cache is a walk. -/
theorem lookup_eq_of_uncached (uncached : router.cached? method path = none) :
    router.lookup method path =
      match walk router.trees method path with
      | .missed hint => ⟨Lookup.miss hint, router, []⟩
      | .found handler captures none =>
        ⟨⟨some handler, false, false, Params.ofCaptures captures⟩, router, []⟩
      | .found handler captures (some counter) =>
        let counted := router.countHit method path handler (Params.ofCaptures captures) counter
        ⟨⟨some handler, false, false, Params.ofCaptures captures⟩, counted.1, counted.2⟩ := by
  rw [lookup_eq, walk, uncached]
  dsimp only
  cases router.trees.get? method with
  | none => rfl
  | some tree =>
      dsimp only
      rcases tree.find (Utf8.encode path) with ⟨handler, captures, _ | counter⟩ | hint <;> rfl

theorem get?_of_cached? {entry : CacheEntry α} (stored : router.cached? method path = some entry) :
    router.cache.get? method path = some entry := by
  unfold cached? at stored
  split at stored
  · exact stored
  · cases stored

/-- A look-up answers what the walk answers. -/
theorem lookup_answer (coherent : Coherent router.trees router.cache) :
    (router.lookup method path).answer.uncached = (walk router.trees method path).answer := by
  cases hcached : router.cached? method path with
  | some entry =>
      obtain ⟨handler, captures, hwalk, rfl⟩ := coherent method path entry (get?_of_cached? hcached)
      cases hresult : walk router.trees method path with
      | missed hint =>
          rw [hresult] at hwalk
          cases hwalk
      | found handler' captures' deepest =>
          rw [hresult] at hwalk
          cases hwalk
          rw [lookup_eq, hcached]
          rfl
  | none =>
      rw [lookup_eq_of_uncached hcached]
      rcases walk router.trees method path with ⟨handler, captures, _ | counter⟩ | hint <;> rfl

/-- A look-up and a walk agree in handler, hint and parameters. -/
theorem lookup_fields (coherent : Coherent router.trees router.cache) (method path : String) :
    (router.lookup method path).answer.handler = (walk router.trees method path).answer.handler ∧
      (router.lookup method path).answer.trailingSlashRedirect =
        (walk router.trees method path).answer.trailingSlashRedirect ∧
      (router.lookup method path).answer.params =
        (walk router.trees method path).answer.params := by
  rw [← Lookup.uncached_eq_iff, lookup_answer coherent]
  cases walk router.trees method path <;> rfl

/-- What a look-up does to the router: nothing, or it counts a hit of the route that its walk
finds. -/
inductive LookupEffect (router : Router α γ) (method path : String)
    (looked : Step (Router α γ) (Lookup α)) : Prop where
  | idle (state : looked.state = router) (events : looked.events = [])
  | counted (handler : α) (captures : List (List UInt8 × List UInt8)) (counter : CounterId)
      (found : (walk router.trees method path).result? = some (handler, captures))
      (state : looked.state =
        (router.countHit method path handler (Params.ofCaptures captures) counter).1)
      (events : looked.events =
        (router.countHit method path handler (Params.ofCaptures captures) counter).2)

theorem lookup_effect (router : Router α γ) (method path : String) :
    router.LookupEffect method path (router.lookup method path) := by
  cases hcached : router.cached? method path with
  | some entry =>
      rw [lookup_eq, hcached]
      exact .idle rfl rfl
  | none =>
      rw [lookup_eq_of_uncached hcached]
      cases hwalk : walk router.trees method path with
      | missed hint => exact .idle rfl rfl
      | found handler captures deepest =>
          cases deepest with
          | none => exact .idle rfl rfl
          | some counter =>
              have hfound : (walk router.trees method path).result? = some (handler, captures) := by
                rw [hwalk]
                rfl
              exact .counted handler captures counter hfound rfl rfl

theorem quiet_lookup (router : Router α γ) (method path : String) :
    router.Quiet (router.lookup method path) := by
  cases lookup_effect router method path with
  | idle state events =>
      constructor
      · rw [state]
        exact Undisturbed.refl router
      · rw [events]
        exact nofun
  | counted handler captures counter found state events =>
      constructor
      · rw [state]
        exact undisturbed_countHit found counter
      · rw [events]
        exact events_countHit handler _ counter

/-- Steps in sequence are quiet if each is. -/
theorem Quiet.append {β δ : Type} {first : Step (Router α γ) β} {second : Step (Router α γ) δ}
    {answer : δ} (earlier : router.Quiet first) (later : first.state.Quiet second) :
    router.Quiet ⟨answer, second.state, first.events ++ second.events⟩ where
  undisturbed := earlier.undisturbed.trans later.undisturbed
  events := by
    intro event hevent
    rcases List.mem_append.mp hevent with h | h
    · exact earlier.events event h
    · exact later.events event h

theorem quiet_matchingMethods (router : Router α γ) (path : String) (methods : List String) :
    router.Quiet (router.matchingMethods path methods) := by
  induction methods generalizing router with
  | nil => exact ⟨Undisturbed.refl router, nofun⟩
  | cons method methods ih => exact (quiet_lookup router method path).append (ih _)

theorem quiet_allowed (router : Router α γ) (path exclude : String) :
    router.Quiet (router.allowed path exclude) := by
  unfold allowed
  dsimp only
  split
  · exact ⟨Undisturbed.refl router, nofun⟩
  · have h := quiet_matchingMethods router path
      (router.methods.filter fun method => method ≠ exclude && method ≠ "OPTIONS")
    exact ⟨h.undisturbed, h.events⟩

theorem quiet_fallback (router : Router α γ) (method path : String) :
    router.Quiet (router.fallback method path) := by
  have listed := quiet_allowed router path method
  unfold fallback
  dsimp only
  generalize (if method = "OPTIONS" then router.config.handleOptions
    else router.config.handleMethodNotAllowed) = wanted
  cases wanted with
  | true => exact ⟨listed.undisturbed, listed.events⟩
  | false => exact ⟨Undisturbed.refl router, nofun⟩

theorem quiet_resolve (router : Router α γ) (method path : String) :
    router.Quiet (router.resolve method path) := by
  rw [resolve_eq]
  have looked := quiet_lookup router method path
  split
  · dsimp only
    split
    · exact ⟨looked.undisturbed, looked.events⟩
    · split
      · exact ⟨looked.undisturbed, looked.events⟩
      · exact looked.append (quiet_fallback _ method path)
  · exact quiet_fallback router method path

theorem quiet_clearCache (router : Router α γ) : router.Quiet router.clearCache where
  undisturbed := Undisturbed.of_cache router (List.length_map _) fun _ => coherent_wipe _ _
  events := nofun

theorem counters_wipeTimes (cache : ResultCache α) (n : Nat) :
    (cache.wipeTimes n).counters.length = cache.counters.length := by
  induction n generalizing cache with
  | zero => rfl
  | succ n ih => exact (ih cache.wipe.1).trans (List.length_map _)

theorem coherent_wipeTimes {trees : StringMap (Node α)} {cache : ResultCache α}
    (coherent : Coherent trees cache) (n : Nat) : Coherent trees (cache.wipeTimes n) := by
  induction n generalizing cache with
  | zero => exact coherent
  | succ n ih => exact ih (coherent_wipe trees cache)

theorem quiet_advance (router : Router α γ) (ms : Nat) : router.Quiet (router.advance ms) where
  undisturbed := by
    rw [advance_state]
    exact ⟨rfl, rfl, rfl, rfl, rfl, rfl, Option.isSome_map, counters_wipeTimes _ _,
      fun h => coherent_wipeTimes h _⟩
  events := by
    intro event hevent
    obtain ⟨cleared, rfl⟩ := (router.events_advance ms).2 event hevent
    rfl

/-- What holds of a router after the registrations of a log, whatever else was done with it. -/
structure Keeps (router : Router α γ) (log : List (Registration α)) : Prop where
  registers : Registers router.trees log
  coherent : Coherent router.trees router.cache

theorem keeps_new (config : RouterConfig) : (Router.new config : Router α γ).Keeps [] where
  registers := registers_empty
  coherent := coherent_empty _

theorem Keeps.of_undisturbed {before after : Router α γ} {log : List (Registration α)}
    (keeps : before.Keeps log) (undisturbed : before.Undisturbed after) : after.Keeps log where
  registers := by
    rw [undisturbed.trees]
    exact keeps.registers
  coherent := by
    rw [undisturbed.trees]
    exact undisturbed.coherent keeps.coherent

/-- A longer log finds all that a shorter one finds. -/
theorem walk_mono {trees trees' : StringMap (Node α)} {log more : List (Registration α)}
    (registers : Registers trees log) (registers' : Registers trees' (log ++ more))
    {method path : String} {found : α × List (List UInt8 × List UInt8)}
    (result : (walk trees method path).result? = some found) :
    (walk trees' method path).result? = some found := by
  obtain ⟨registration, hlogged, hmethod, hhandler, fits⟩ := registers.walk_result.mp result
  exact registers'.walk_result.mpr
    ⟨registration, List.mem_append_left _ hlogged, hmethod, hhandler, fits⟩

theorem get?_handle_cache (router : Router α γ) (method pattern : String) (handler : α) :
    (router.handle method pattern handler).state.cache.get? = router.cache.get? := by
  rw [handle_eq]
  split <;> rfl

/-- Registering keeps the cache coherent, accepted or not. -/
theorem Keeps.handle {log : List (Registration α)} (keeps : router.Keeps log)
    (method pattern : String) (handler : α) :
    (router.handle method pattern handler).state.Keeps
      (log ++ router.logged method pattern handler) where
  registers := registers_handle keeps.registers
  coherent := by
    have kept : Coherent (router.handle method pattern handler).state.trees router.cache :=
      keeps.coherent.mono fun _ _ _ =>
        walk_mono keeps.registers (registers_handle keeps.registers)
    intro method' path' entry hentry
    rw [get?_handle_cache] at hentry
    exact kept method' path' entry hentry

theorem Keeps.append_nil {log : List (Registration α)} (keeps : router.Keeps log) :
    router.Keeps (log ++ []) := by
  rw [List.append_nil]
  exact keeps

variable [Handler α γ] [ParamSink γ]

theorem undisturbed_serve (router : Router α γ) (method path : String) (context : γ) :
    router.Undisturbed (router.serve method path context).state := by
  rw [serve_state]
  exact (quiet_resolve router method path).undisturbed

theorem Keeps.perform {log : List (Registration α)} (keeps : router.Keeps log)
    (operation : Operation α γ) :
    (router.perform operation).state.Keeps (log ++ router.acceptedBy operation) := by
  cases operation with
  | handle method pattern handler => exact keeps.handle method pattern handler
  | lookup method path =>
      exact (keeps.of_undisturbed (quiet_lookup router method path).undisturbed).append_nil
  | resolve method path =>
      exact (keeps.of_undisturbed (quiet_resolve router method path).undisturbed).append_nil
  | serve method path context =>
      exact (keeps.of_undisturbed (undisturbed_serve router method path context)).append_nil
  | allowed path exclude =>
      exact (keeps.of_undisturbed (quiet_allowed router path exclude).undisturbed).append_nil
  | respell method path fix => exact keeps.append_nil
  | clearCache => exact (keeps.of_undisturbed (quiet_clearCache router).undisturbed).append_nil
  | startSweeper runtime =>
      apply Keeps.append_nil
      obtain ⟨⟨sweeper, hstate⟩, -⟩ := router.startSweeper_effect runtime
      show (router.startSweeper runtime).state.Keeps log
      rw [hstate]
      exact ⟨keeps.registers, keeps.coherent⟩
  | shutdown =>
      apply Keeps.append_nil
      show router.shutdown.state.Keeps log
      rw [shutdown_eq]
      exact ⟨keeps.registers, keeps.coherent⟩
  | advance ms => exact (keeps.of_undisturbed (quiet_advance router ms).undisturbed).append_nil
  | install fallback =>
      apply Keeps.append_nil
      cases fallback <;> exact ⟨keeps.registers, keeps.coherent⟩

/-- A run extends the log by what it accepts. -/
theorem Keeps.run {log : List (Registration α)} (keeps : router.Keeps log)
    (operations : List (Operation α γ)) :
    (router.run operations).state.Keeps (log ++ router.accepted operations) := by
  induction operations generalizing router log with
  | nil =>
      rw [accepted, List.append_nil]
      exact keeps
  | cons operation operations ih =>
      rw [accepted, ← List.append_assoc]
      exact ih (keeps.perform operation)

/-- Every reachable router holds what was accepted on the way to it. -/
theorem keeps_run_new (config : RouterConfig) (operations : List (Operation α γ)) :
    ((Router.new config : Router α γ).run operations).state.Keeps
      ((Router.new config : Router α γ).accepted operations) :=
  (keeps_new config).run operations

end Router

end RadixRouter
