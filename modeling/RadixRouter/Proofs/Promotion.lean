/-
# Promotion past the threshold

A walk that finds a route with a wildcard counts on the node of its last wildcard, and its result
is stored once that count is past the threshold.  From then until the next wipe, the request is
answered from the cache.
-/

import RadixRouter.Proofs.Tallies

namespace RadixRouter

variable {α γ : Type}

namespace Router

variable {router : Router α γ} {log : List (Registration α)} {history : List (Moment α)}

theorem tally_le_length (accepted : List (Registration α)) (method : String) (way : List Token)
    (moments : List (Moment α)) : tally accepted method way moments ≤ moments.length :=
  List.countP_le_length

/-- A counter that did not run over is the number of look-ups that count on its node. -/
theorem Tallies.toNat_hitsOf (tallies : router.Tallies log history)
    (few : (Moment.recent history).length < 2 ^ 32) {method : String} {way : List Token}
    {counter : CounterId} (counts : Counts router.trees method way counter) :
    (router.cache.hitsOf counter).toNat = tally log method way (Moment.recent history) := by
  rw [tallies.counted counts]
  exact UInt32.toNat_ofNat_of_lt' (lt_of_le_of_lt (tally_le_length _ _ _ _) few)

/-- One more hit is counted without running over, if there is room for it. -/
theorem Tallies.toNat_hitsOf_succ (tallies : router.Tallies log history)
    (few : (Moment.recent history).length + 1 < 2 ^ 32) {method : String} {way : List Token}
    {counter : CounterId} (counts : Counts router.trees method way counter) :
    (router.cache.hitsOf counter + 1).toNat = tally log method way (Moment.recent history) + 1 := by
  have hle := tally_le_length log method way (Moment.recent history)
  rw [UInt32.toNat_add, tallies.toNat_hitsOf (Nat.lt_of_succ_lt few) counts]
  exact Nat.mod_eq_of_lt (lt_of_le_of_lt (Nat.succ_le_succ hle) few)

/-- What is stored is answered from the cache, and nothing else is. -/
theorem Tallies.cached_iff (tallies : router.Tallies log history) (method path : String) :
    (router.lookup method path).answer.cached = true ↔
      Promoted (Moment.recent history) method path := by
  rw [← tallies.stored]
  cases tallies.keeps.lookupEnds tallies.enabled method path with
  | stored entry present cached => simp [present, cached]
  | missed absent uncached => simp [absent, uncached]
  | plain absent uncached => simp [absent, uncached]
  | counted absent uncached => simp [absent, uncached]

/-- A walk that finds a route with a wildcard is counted, and its result is stored and reported if
the new count is past the threshold. -/
theorem Tallies.lookup_counted (tallies : router.Tallies log history)
    {registration : Registration α} {method path : String} (logged : registration ∈ log)
    (takes : registration.Takes method path)
    (uncached : (router.lookup method path).answer.cached = false)
    (wild : registration.way ≠ []) :
    let looked := router.lookup method path
    ∃ counter, Counts router.trees method registration.way counter ∧
      let hits := router.cache.hitsOf counter + 1
      looked.state.cache.hitsOf counter = hits ∧
      (router.config.cache.promotionThreshold < hits →
        looked.events = [.cachePromoted method path hits] ∧
        looked.state.cache.get? method path =
          some ⟨looked.answer.handler, false, looked.answer.params⟩) ∧
      (¬ router.config.cache.promotionThreshold < hits →
        looked.events = [] ∧ looked.state.cache.get? method path = none) := by
  have hmatching := matching_iff_takes.mpr ⟨registration, logged, takes⟩
  have hfound := (tallies.keeps.lookup_isSome_iff method path).mpr hmatching
  dsimp only
  cases tallies.keeps.lookupEnds tallies.enabled method path with
  | stored entry present cached =>
      rw [cached] at uncached
      cases uncached
  | missed absent _ nothing =>
      rw [nothing] at hfound
      cases hfound
  | plain absent _ registration' logged' takes' plain =>
      rw [tallies.keeps.registers.taker_unique logged' logged takes' takes] at plain
      exact absurd plain wild
  | counted absent _ registration' logged' takes' counter counts handler found counted =>
      rw [tallies.keeps.registers.taker_unique logged' logged takes' takes] at counts
      have tracked := tallies.allotted.tracked counts
      rw [countHit_eq tallies.enabled tracked] at counted
      generalize (router.lookup method path).answer = answer at *
      generalize (router.lookup method path).events = events at *
      generalize (router.lookup method path).state = state at *
      refine ⟨counter, counts, ?_⟩
      split at counted
      · next hot =>
          cases counted
          refine ⟨hitsOf_bump_self tracked, fun _ => ⟨rfl, ?_⟩, fun cold => absurd hot cold⟩
          rw [get?_put, if_pos ⟨rfl, rfl⟩, found]
      · next cold =>
          cases counted
          exact ⟨hitsOf_bump_self tracked, fun hot => absurd hot cold, fun _ => ⟨rfl, absent⟩⟩

/-- A look-up that the cache answers, or that finds no route with a wildcard, leaves the router as
it is. -/
theorem Tallies.lookup_idle (tallies : router.Tallies log history) {method path : String}
    (idle : ∀ registration ∈ log, registration.Takes method path →
      Promoted (Moment.recent history) method path ∨ registration.way = []) :
    (router.lookup method path).state = router ∧ (router.lookup method path).events = [] := by
  cases tallies.keeps.lookupEnds tallies.enabled method path with
  | stored entry present cached state events => exact ⟨state, events⟩
  | missed absent uncached nothing state events => exact ⟨state, events⟩
  | plain absent uncached registration logged takes plain state events => exact ⟨state, events⟩
  | counted absent uncached registration logged takes counter counts =>
      rcases idle registration logged takes with promoted | plain
      · rw [← tallies.stored, absent] at promoted
        cases promoted
      · exact absurd plain counts.way_ne_nil

/-- For a request that a route without a wildcard takes, nothing is stored. -/
theorem Tallies.plain_absent (tallies : router.Tallies log history)
    {registration : Registration α} {method path : String} (logged : registration ∈ log)
    (takes : registration.Takes method path) (plain : registration.way = []) :
    router.cache.get? method path = none := by
  rw [← Option.not_isSome_iff_eq_none]
  intro present
  obtain ⟨registration', logged', takes', wild⟩ := tallies.wild method path present
  rw [tallies.keeps.registers.taker_unique logged' logged takes' takes] at wild
  exact wild plain

variable [Handler α γ] [ParamSink γ]

/-- Promotion happens exactly past the threshold.  In every router that a run reaches with the
cache on, the counter of a wildcard node is the number of look-ups since the last wipe that count
on it, as long as there are fewer than the counter can hold.  A look-up is answered from the cache
exactly if a result was stored for it since the last wipe; where a walk finds it a route with a
wildcard, the counter of the last one goes up by one, and the result is stored, and reported with
the new count, exactly if that is past the threshold; every other look-up changes nothing.  There
are as many entries as there were such reports, and no route without a wildcard is stored.

The look-ups are those of the history, which lists the ones inside other operations too: each is
made by a router that a run with the history before it reaches, the history reports what the run
does, and its wipes are those in the statistics, which count them in 64 bits. -/
theorem promotes_past_threshold (config : RouterConfig) (operations : List (Operation α γ))
    (enabled : config.cache.enabled = true) :
    let start : Router α γ := Router.new config
    let router := (start.run operations).state
    let accepted := start.accepted operations
    let history := start.history operations
    let recent := Moment.recent history
    (recent.length < 2 ^ 32 → ∀ method way counter, Counts router.trees method way counter →
      (router.cache.hitsOf counter).toNat = tally accepted method way recent) ∧
    (∀ method path,
      let looked := router.lookup method path
      (looked.answer.cached = true ↔ Promoted recent method path) ∧
      (∀ registration ∈ accepted, registration.Takes method path →
        looked.answer.cached = false → registration.way ≠ [] →
        ∃ counter hits, Counts router.trees method registration.way counter ∧
          looked.state.cache.hitsOf counter = hits ∧
          (recent.length + 1 < 2 ^ 32 →
            hits.toNat = tally accepted method registration.way recent + 1) ∧
          (config.cache.promotionThreshold < hits →
            looked.events = [.cachePromoted method path hits] ∧
            looked.state.cache.get? method path =
              some ⟨looked.answer.handler, false, looked.answer.params⟩) ∧
          (¬ config.cache.promotionThreshold < hits →
            looked.events = [] ∧ looked.state.cache.get? method path = none)) ∧
      ((∀ registration ∈ accepted, registration.Takes method path →
          looked.answer.cached = true ∨ registration.way = []) →
        looked.state = router ∧ looked.events = [])) ∧
    router.cacheStats.entries = (recent.flatMap Moment.events).countP Event.isPromotion ∧
    (∀ registration ∈ accepted, registration.way = [] → ∀ method path,
      registration.Takes method path → router.cache.get? method path = none) ∧
    (∀ before method path answer events after,
      history = before ++ .lookup method path answer events :: after →
      ∃ earlier, start.history earlier = before ∧
        answer = ((start.run earlier).state.lookup method path).answer ∧
        events = ((start.run earlier).state.lookup method path).events) ∧
    (start.run operations).events.filter Event.isPromotion = history.flatMap Moment.events ∧
    router.cacheStats.sweeps = UInt64.ofNat (history.countP (!·.isLookup)) := by
  intro start router accepted history recent
  have tallies : router.Tallies accepted history := (tallies_new enabled).run operations
  have hconfig : router.config = config := config_run start operations
  refine ⟨?_, ?_, tallies.size, ?_, ?_, promotions_run start operations, ?_⟩
  · intro few method way counter counts
    exact tallies.toNat_hitsOf few counts
  · intro method path looked
    refine ⟨tallies.cached_iff method path, ?_, ?_⟩
    · intro registration logged takes uncached wild
      obtain ⟨counter, counts, hhits, hot, cold⟩ :=
        tallies.lookup_counted logged takes uncached wild
      rw [hconfig] at hot cold
      exact ⟨counter, _, counts, hhits, fun few => tallies.toNat_hitsOf_succ few counts, hot, cold⟩
    · intro idle
      apply tallies.lookup_idle
      intro registration logged takes
      rw [← tallies.cached_iff]
      exact idle registration logged takes
  · intro registration logged plain method path takes
    exact tallies.plain_absent logged takes plain
  · intro before method path answer events after split
    exact lookup_of_history split
  · exact (sweeps_history start operations).trans (UInt64.zero_add _)

/-- Two users are looked up, one of them by resolving a request. -/
def userSession : List (Operation Scripted Record) :=
  [.handle "GET" "/users/:id" ⟨"user", none⟩, .lookup "GET" "/users/1",
    .resolve "GET" "/users/2"]

/-- Where one hit is not enough, the second user is stored and the first is not. -/
theorem promotes_past_threshold_users :
    let config : RouterConfig := { cache := { promotionThreshold := 1 } }
    let router := ((Router.new config : Router Scripted Record).run userSession).state
    config.cache.enabled = true ∧ (router.lookup "GET" "/users/2").answer.cached = true ∧
      (router.lookup "GET" "/users/1").answer.cached = false ∧
        router.cacheStats.entries = 1 := by
  intro config router
  have hreports : (Moment.recent ((Router.new config : Router Scripted Record).history
      userSession)).flatMap Moment.events = [.cachePromoted "GET" "/users/2" 2] := by
    decide +kernel
  obtain ⟨-, hlookups, hentries, -⟩ := promotes_past_threshold config userSession rfl
  refine ⟨rfl, ?_, ?_, ?_⟩
  · rw [(hlookups "GET" "/users/2").1]
    exact ⟨2, by rw [hreports]; exact List.mem_singleton.mpr rfl⟩
  · rw [← Bool.not_eq_true, (hlookups "GET" "/users/1").1]
    rintro ⟨hits, inside⟩
    rw [hreports, List.mem_singleton, Event.cachePromoted.injEq] at inside
    exact absurd inside.2.1 (by decide)
  · exact hentries.trans (by rw [hreports]; rfl)

end Router

end RadixRouter
