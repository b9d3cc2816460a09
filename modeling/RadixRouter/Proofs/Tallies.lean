/-
# Counters and entries as tallies of the look-ups

`Tallies` ties the counters and the stored results of a router to the look-ups since the last
wipe: every counter is the number of look-ups that count on its node, modulo the width of a
counter, and what is stored is what was reported.  Look-ups, wipes and registrations keep the tie,
and so does every run.
-/

import RadixRouter.Proofs.HitCounters
import RadixRouter.Proofs.SweepSchedule

namespace RadixRouter

open Pattern (Matches matches_iff_fits)

variable {α γ : Type}

/-- A registration takes a request: it is for its method, and the path matches its pattern. -/
def Registration.Takes (registration : Registration α) (method path : String) : Prop :=
  registration.method = method ∧ ∃ params, Matches registration.pattern path params

/-- The way to the last wildcard of a registration; empty where there is none. -/
def Registration.way (registration : Registration α) : List Token :=
  upToWildcard (Pattern.route registration.pattern)

theorem matching_iff_takes {log : List (Registration α)} {method path : String} :
    Matching log method path ↔ ∃ registration ∈ log, registration.Takes method path := by
  constructor
  · rintro ⟨pattern, inside, params, hmatches⟩
    obtain ⟨registration, hlogged, hmethod, rfl⟩ := mem_patternsOf.mp inside
    exact ⟨registration, hlogged, hmethod, params, hmatches⟩
  · rintro ⟨registration, hlogged, hmethod, params, hmatches⟩
    exact ⟨registration.pattern, mem_patternsOf.mpr ⟨registration, hlogged, hmethod, rfl⟩,
      params, hmatches⟩

/-- At most one accepted registration takes a request. -/
theorem Registers.taker_unique {trees : StringMap (Node α)} {log : List (Registration α)}
    (registers : Registers trees log) {first second : Registration α} {method path : String}
    (hfirst : first ∈ log) (hsecond : second ∈ log) (takes : first.Takes method path)
    (takes' : second.Takes method path) : first = second := by
  obtain ⟨hmethod, params, hmatches⟩ := takes
  obtain ⟨hmethod', params', hmatches'⟩ := takes'
  exact (registers.matches_unique hfirst hsecond (hmethod.trans hmethod'.symm) hmatches
    hmatches').1

/-- A look-up counts on a wildcard node: it was answered by a walk, with a route whose last
wildcard is there. -/
def Moment.Credits (accepted : List (Registration α)) (method : String) (way : List Token) :
    Moment α → Prop
  | .lookup asked path answer _ =>
    asked = method ∧ answer.cached = false ∧ answer.handler.isSome = true ∧
      ∃ registration ∈ accepted, registration.Takes method path ∧ registration.way = way
  | .wipe => False

section Tally

open Classical

/-- The number of look-ups that count on a wildcard node. -/
noncomputable def tally (accepted : List (Registration α)) (method : String) (way : List Token)
    (moments : List (Moment α)) : Nat :=
  moments.countP fun moment => decide (moment.Credits accepted method way)

variable {accepted : List (Registration α)} {method : String} {way : List Token}
  {moments : List (Moment α)} {moment : Moment α}

theorem tally_append_credited (credited : moment.Credits accepted method way) :
    tally accepted method way (moments ++ [moment]) = tally accepted method way moments + 1 := by
  rw [tally, List.countP_append, List.countP_singleton, if_pos (decide_eq_true credited)]
  rfl

theorem tally_append_other (other : ¬ moment.Credits accepted method way) :
    tally accepted method way (moments ++ [moment]) = tally accepted method way moments := by
  rw [tally, List.countP_append, List.countP_singleton, decide_eq_false other]
  rfl

theorem tally_eq_zero (none : ∀ moment ∈ moments, ¬ moment.Credits accepted method way) :
    tally accepted method way moments = 0 := by
  rw [tally, List.countP_eq_zero]
  intro moment hmoment
  rw [decide_eq_false (none moment hmoment)]
  exact Bool.false_ne_true

theorem tally_congr {accepted' : List (Registration α)}
    (same : ∀ moment ∈ moments,
      moment.Credits accepted method way ↔ moment.Credits accepted' method way) :
    tally accepted method way moments = tally accepted' method way moments := by
  refine List.countP_congr fun moment hmoment => ?_
  rw [decide_eq_true_iff, decide_eq_true_iff]
  exact same moment hmoment

end Tally

/-- Every request that was answered with a route still has one. -/
def Answered (accepted : List (Registration α)) (moments : List (Moment α)) : Prop :=
  ∀ method path answer events, .lookup method path answer events ∈ moments →
    answer.handler.isSome = true → Matching accepted method path

theorem Answered.append {accepted : List (Registration α)} {moments : List (Moment α)}
    (answered : Answered accepted moments) {method path : String} {answer : Lookup α}
    (found : answer.handler.isSome = true → Matching accepted method path)
    (events : List Event) :
    Answered accepted (moments ++ [.lookup method path answer events]) := by
  intro method' path' answer' events' inside
  rcases List.mem_append.mp inside with h | h
  · exact answered method' path' answer' events' h
  · cases List.mem_singleton.mp h
    exact found

/-- A result was stored for a request by one of these look-ups. -/
def Promoted (moments : List (Moment α)) (method path : String) : Prop :=
  ∃ hits, .cachePromoted method path hits ∈ moments.flatMap Moment.events

theorem promoted_append_lookup {moments : List (Moment α)} {method path asked path' : String}
    {answer : Lookup α} {events : List Event} :
    Promoted (moments ++ [.lookup asked path' answer events]) method path ↔
      Promoted moments method path ∨ ∃ hits, .cachePromoted method path hits ∈ events := by
  simp [Promoted, Moment.events, exists_or]

namespace Router

/-- The ends of a look-up: the cache, no route, a route without a wildcard, or one with a
wildcard, which is counted. -/
inductive LookupEnds (router : Router α γ) (log : List (Registration α)) (method path : String)
    (looked : Step (Router α γ) (Lookup α)) : Prop where
  | stored (entry : CacheEntry α) (present : router.cache.get? method path = some entry)
      (cached : looked.answer.cached = true) (state : looked.state = router)
      (events : looked.events = [])
  | missed (absent : router.cache.get? method path = none)
      (uncached : looked.answer.cached = false) (nothing : looked.answer.handler = none)
      (state : looked.state = router) (events : looked.events = [])
  | plain (absent : router.cache.get? method path = none) (uncached : looked.answer.cached = false)
      (registration : Registration α) (logged : registration ∈ log)
      (takes : registration.Takes method path) (plain : registration.way = [])
      (state : looked.state = router) (events : looked.events = [])
  | counted (absent : router.cache.get? method path = none)
      (uncached : looked.answer.cached = false)
      (registration : Registration α) (logged : registration ∈ log)
      (takes : registration.Takes method path) (counter : CounterId)
      (counts : Counts router.trees method registration.way counter) (handler : α)
      (found : looked.answer.handler = some handler)
      (counted : (looked.state, looked.events) =
        router.countHit method path handler looked.answer.params counter)

variable {router : Router α γ} {log : List (Registration α)}

theorem Keeps.lookupEnds (keeps : router.Keeps log) (enabled : router.config.cache.enabled = true)
    (method path : String) : router.LookupEnds log method path (router.lookup method path) := by
  have hcached : router.cached? method path = router.cache.get? method path := if_pos enabled
  cases hget : router.cache.get? method path with
  | some entry =>
      rw [hget] at hcached
      rw [lookup_eq, hcached]
      exact .stored entry hget rfl rfl rfl
  | none =>
      rw [hget] at hcached
      rw [lookup_eq_of_uncached hcached]
      cases hwalk : walk router.trees method path with
      | missed hint => exact .missed hget rfl rfl rfl rfl
      | found handler captures deepest =>
          obtain ⟨registration, hlogged, hmethod, fits, due⟩ := keeps.registers.walk_due hwalk
          have takes : registration.Takes method path :=
            ⟨hmethod, _, matches_iff_fits.mpr ⟨captures, fits, rfl⟩⟩
          cases deepest with
          | none => exact .plain hget rfl registration hlogged takes due rfl rfl
          | some counter =>
              exact .counted hget rfl registration hlogged takes counter due handler rfl rfl

/-- What counting a hit does where the cache is on. -/
theorem countHit_eq (enabled : router.config.cache.enabled = true) {counter : CounterId}
    (tracked : counter < router.cache.counters.length) (method path : String) (handler : α)
    (params : Params) :
    router.countHit method path handler params counter =
      if router.config.cache.promotionThreshold < router.cache.hitsOf counter + 1 then
        ({ router with
            cache := (router.cache.bump counter).put method path ⟨some handler, false, params⟩ },
          [.cachePromoted method path (router.cache.hitsOf counter + 1)])
      else ({ router with cache := router.cache.bump counter }, []) := by
  unfold countHit
  dsimp only
  rw [enabled, Bool.true_and, hitsOf_bump_self tracked]
  simp only [decide_eq_true_eq]

/-- The counters and the stored results of a router are those of the look-ups since the last
wipe. -/
structure Tallies (router : Router α γ) (log : List (Registration α))
    (history : List (Moment α)) : Prop where
  keeps : router.Keeps log
  enabled : router.config.cache.enabled = true
  allotted : Allotted router.trees router.cache.counters.length
  counted : ∀ {method way counter}, Counts router.trees method way counter →
    router.cache.hitsOf counter = UInt32.ofNat (tally log method way (Moment.recent history))
  ordered : router.cache.entries.Ordered
  size : router.cache.size =
    ((Moment.recent history).flatMap Moment.events).countP Event.isPromotion
  stored : ∀ method path, (router.cache.get? method path).isSome = true ↔
    Promoted (Moment.recent history) method path
  wild : ∀ method path, (router.cache.get? method path).isSome = true →
    ∃ registration ∈ log, registration.Takes method path ∧ registration.way ≠ []
  answered : Answered log (Moment.recent history)

theorem tallies_new {config : RouterConfig} (enabled : config.cache.enabled = true) :
    (Router.new config : Router α γ).Tallies [] [] where
  keeps := keeps_new config
  enabled := enabled
  allotted := allotted_empty 0
  counted := nofun
  ordered := StringMap.ordered_empty
  size := rfl
  stored := by
    intro method path
    constructor
    · exact nofun
    · rintro ⟨hits, inside⟩
      cases inside
  wild := nofun
  answered := nofun

variable {history : List (Moment α)}

/-- The tie depends on the routes, the cache and the configuration only. -/
theorem Tallies.of_same {state : Router α γ} (tallies : router.Tallies log history)
    (trees : state.trees = router.trees) (cache : state.cache = router.cache)
    (config : state.config = router.config) : state.Tallies log history := by
  obtain ⟨keeps, enabled, allotted, counted, ordered, size, stored, wild, answered⟩ := tallies
  refine ⟨⟨?_, ?_⟩, ?_, ?_, ?_, ?_, ?_, ?_, ?_, answered⟩
  · rw [trees]
    exact keeps.registers
  · rw [trees, cache]
    exact keeps.coherent
  · rw [config]
    exact enabled
  · rw [trees, cache]
    exact allotted
  · rw [trees, cache]
    exact counted
  all_goals
    rw [cache]
    assumption

/-- A look-up that a route takes counts on the node of that route, and on no other. -/
theorem Keeps.credits_iff (keeps : router.Keeps log) {registration : Registration α}
    {method path : String} (logged : registration ∈ log)
    (takes : registration.Takes method path) {answer : Lookup α}
    (uncached : answer.cached = false) {handler : α} (found : answer.handler = some handler)
    (events : List Event) (other : String) (way : List Token) :
    (Moment.lookup method path answer events).Credits log other way ↔
      method = other ∧ registration.way = way := by
  constructor
  · rintro ⟨rfl, -, -, registration', logged', takes', rfl⟩
    rw [keeps.registers.taker_unique logged logged' takes takes']
    exact ⟨rfl, rfl⟩
  · rintro ⟨rfl, rfl⟩
    exact ⟨rfl, uncached, by rw [found]; rfl, registration, logged, takes, rfl⟩

/-- A look-up that changes and reports nothing counts on no node. -/
theorem Tallies.idle {method path : String} {answer : Lookup α}
    (tallies : router.Tallies log history)
    (found : answer.handler.isSome = true → Matching log method path)
    (uncounted : ∀ {other way counter}, Counts router.trees other way counter →
      ¬ (Moment.lookup method path answer []).Credits log other way) :
    router.Tallies log (history ++ [.lookup method path answer []]) := by
  have hevents : (Moment.recent history ++ [Moment.lookup method path answer []]).flatMap
      Moment.events = (Moment.recent history).flatMap Moment.events := by
    rw [List.flatMap_append]
    exact List.append_nil _
  refine ⟨tallies.keeps, tallies.enabled, tallies.allotted, ?_, tallies.ordered, ?_, ?_,
    tallies.wild, ?_⟩
  · intro other way counter counts
    rw [Moment.recent_append_lookup, tally_append_other (uncounted counts)]
    exact tallies.counted counts
  · rw [Moment.recent_append_lookup, hevents]
    exact tallies.size
  · intro other path'
    rw [Moment.recent_append_lookup, Promoted, hevents]
    exact tallies.stored other path'
  · rw [Moment.recent_append_lookup]
    exact tallies.answered.append found []

/-- The counters after a look-up that a route with a wildcard takes. -/
theorem Tallies.counted_bump (tallies : router.Tallies log history)
    {registration : Registration α} {method path : String} (logged : registration ∈ log)
    (takes : registration.Takes method path) {counter : CounterId}
    (counts : Counts router.trees method registration.way counter) {answer : Lookup α}
    (uncached : answer.cached = false) {handler : α} (found : answer.handler = some handler)
    (events : List Event) {other : String} {way : List Token} {counter' : CounterId}
    (counts' : Counts router.trees other way counter') :
    (router.cache.bump counter).hitsOf counter' = UInt32.ofNat (tally log other way
      (Moment.recent history ++ [.lookup method path answer events])) := by
  have credits := tallies.keeps.credits_iff logged takes uncached found events other way
  by_cases hcounter : counter = counter'
  · subst hcounter
    rw [hitsOf_bump_self (tallies.allotted.tracked counts),
      tally_append_credited (credits.mpr (tallies.allotted.apart counts counts')),
      tallies.counted counts', UInt32.ofNat_add]
    rfl
  · have hother : ¬ (Moment.lookup method path answer events).Credits log other way := by
      rw [credits]
      rintro ⟨rfl, rfl⟩
      exact hcounter (tallies.keeps.registers.counter_unique counts counts')
    rw [hitsOf_bump_other hcounter, tally_append_other hother]
    exact tallies.counted counts'

/-- A look-up that counts keeps the tie, if it reports what it stores. -/
theorem Tallies.hit (tallies : router.Tallies log history) {registration : Registration α}
    {method path : String} (logged : registration ∈ log)
    (takes : registration.Takes method path) {counter : CounterId}
    (counts : Counts router.trees method registration.way counter) {answer : Lookup α}
    (uncached : answer.cached = false) {handler : α} (found : answer.handler = some handler)
    {events : List Event} (own : ∀ event ∈ events, ∃ hits, event = .cachePromoted method path hits)
    (cache : ResultCache α) (counters : cache.counters = (router.cache.bump counter).counters)
    (coherent : Coherent router.trees cache) (ordered : cache.entries.Ordered)
    (size : cache.size = router.cache.size + events.countP Event.isPromotion)
    (stored : ∀ other path', (cache.get? other path').isSome = true ↔
      (router.cache.get? other path').isSome = true ∨
        ∃ hits, .cachePromoted other path' hits ∈ events) :
    ({ router with cache } : Router α γ).Tallies log
      (history ++ [.lookup method path answer events]) := by
  refine ⟨⟨tallies.keeps.registers, coherent⟩, tallies.enabled, ?_, ?_, ordered, ?_, ?_, ?_, ?_⟩
  · show Allotted router.trees cache.counters.length
    rw [counters, counters_bump]
    exact tallies.allotted
  · intro other way counter' counts'
    show cache.hitsOf counter' = _
    rw [Moment.recent_append_lookup, ResultCache.hitsOf, counters]
    exact tallies.counted_bump logged takes counts uncached found events counts'
  · have hevents : [Moment.lookup method path answer events].flatMap Moment.events = events :=
      List.append_nil events
    rw [Moment.recent_append_lookup, List.flatMap_append, List.countP_append, hevents,
      ← tallies.size]
    exact size
  · intro other path'
    rw [Moment.recent_append_lookup, promoted_append_lookup, ← tallies.stored]
    exact stored other path'
  · intro other path' present
    rcases (stored other path').mp present with before | ⟨hits, inside⟩
    · exact tallies.wild other path' before
    · obtain ⟨hits', heq⟩ := own _ inside
      cases heq
      exact ⟨registration, logged, takes, counts.way_ne_nil⟩
  · rw [Moment.recent_append_lookup]
    exact tallies.answered.append (fun _ => matching_iff_takes.mpr ⟨_, logged, takes⟩) events

/-- What counting a hit stores is what it reports. -/
theorem isSome_get?_put_iff (cache : ResultCache α) (method path : String)
    (entry : CacheEntry α) (hits : UInt32) (other path' : String) :
    ((cache.put method path entry).get? other path').isSome = true ↔
      (cache.get? other path').isSome = true ∨
        ∃ hits', Event.cachePromoted other path' hits' ∈ [.cachePromoted method path hits] := by
  rw [get?_put]
  split
  · next h =>
      obtain ⟨rfl, rfl⟩ := h
      exact iff_of_true rfl (Or.inr ⟨hits, List.mem_singleton.mpr rfl⟩)
  · next h =>
      constructor
      · exact Or.inl
      · rintro (present | ⟨hits', inside⟩)
        · exact present
        · cases List.mem_singleton.mp inside
          exact absurd ⟨rfl, rfl⟩ h

/-- Every look-up keeps the tie. -/
theorem Tallies.lookup (tallies : router.Tallies log history) (method path : String) :
    (router.lookup method path).state.Tallies log
      (history ++ [.lookup method path (router.lookup method path).answer
        (router.lookup method path).events]) := by
  have hfound := (tallies.keeps.lookup_isSome_iff method path).mp
  have own := events_lookup router method path
  have coherent := (quiet_lookup router method path).undisturbed.coherent tallies.keeps.coherent
  cases tallies.keeps.lookupEnds tallies.enabled method path with
  | stored entry present cached state events =>
      rw [state, events]
      refine tallies.idle hfound ?_
      rintro other way counter - ⟨-, uncached, -⟩
      rw [cached] at uncached
      cases uncached
  | missed absent uncached nothing state events =>
      rw [state, events]
      refine tallies.idle hfound ?_
      rintro other way counter - ⟨-, -, found, -⟩
      rw [nothing] at found
      cases found
  | plain absent uncached registration logged takes plain state events =>
      rw [state, events]
      refine tallies.idle hfound ?_
      rintro other way counter counts ⟨rfl, -, -, registration', logged', takes', rfl⟩
      rw [tallies.keeps.registers.taker_unique logged' logged takes' takes] at counts
      exact counts.way_ne_nil plain
  | counted absent uncached registration logged takes counter counts handler found counted =>
      have hit := tallies.hit logged takes counts uncached found own
      rw [countHit_eq tallies.enabled (tallies.allotted.tracked counts)] at counted
      generalize (router.lookup method path).answer = answer at *
      generalize (router.lookup method path).events = events at *
      generalize (router.lookup method path).state = state at *
      split at counted
      · -- the result is stored
        cases counted
        exact hit _ rfl coherent (tallies.ordered.insert _ _)
          (size_put tallies.ordered absent _)
          (isSome_get?_put_iff (router.cache.bump counter) method path _ _)
      · -- the count is not past the threshold
        cases counted
        refine hit _ rfl coherent tallies.ordered rfl fun other path' => ?_
        constructor
        · exact Or.inl
        · rintro (present | ⟨hits, inside⟩)
          · exact present
          · cases inside

theorem Tallies.lookUpAll (tallies : router.Tallies log history)
    (requests : List (String × String)) :
    (router.lookUpAll requests).state.Tallies log
      (history ++ (router.lookUpAll requests).answer) := by
  induction requests generalizing router history with
  | nil =>
      rw [Router.lookUpAll, List.append_nil]
      exact tallies
  | cons request requests ih =>
      have later := ih (tallies.lookup request.1 request.2)
      rw [List.append_assoc] at later
      exact later

/-- A wipe begins anew. -/
theorem Tallies.wipe (tallies : router.Tallies log history) :
    ({ router with cache := router.cache.wipe.1 } : Router α γ).Tallies log
      (history ++ [.wipe]) := by
  have nothing (path : String) (method : String) :
      router.cache.wipe.1.get? method path = none := rfl
  refine ⟨⟨tallies.keeps.registers, coherent_wipe _ _⟩, tallies.enabled, ?_, ?_,
    StringMap.ordered_empty, ?_, ?_, ?_, ?_⟩
  · show Allotted router.trees (router.cache.counters.map _).length
    rw [List.length_map]
    exact tallies.allotted
  · intro method way counter counts
    rw [hitsOf_wipe, Moment.recent_append_wipe]
    rfl
  · rw [Moment.recent_append_wipe]
    rfl
  · intro method path
    rw [nothing, Moment.recent_append_wipe]
    refine iff_of_false Bool.false_ne_true ?_
    rintro ⟨hits, inside⟩
    cases inside
  · intro method path present
    cases present
  · rw [Moment.recent_append_wipe]
    exact nofun

theorem Tallies.wipeTimes (tallies : router.Tallies log history) (n : Nat) :
    ({ router with cache := router.cache.wipeTimes n } : Router α γ).Tallies log
      (history ++ List.replicate n .wipe) := by
  induction n generalizing router history with
  | zero =>
      rw [List.replicate_zero, List.append_nil]
      exact tallies
  | succ n ih =>
      have later := ih tallies.wipe
      rw [List.append_assoc] at later
      exact later

/-- More routes do not change on which node an answered look-up counts. -/
theorem tally_append_log {trees : StringMap (Node α)} {more : List (Registration α)}
    (registers : Registers trees (log ++ more)) {moments : List (Moment α)}
    (answered : Answered log moments) (method : String) (way : List Token) :
    tally log method way moments = tally (log ++ more) method way moments := by
  apply tally_congr
  rintro (⟨asked, path, answer, events⟩ | _) inside
  · constructor
    · rintro ⟨hmethod, uncached, found, registration, logged, takes⟩
      exact ⟨hmethod, uncached, found, registration, List.mem_append_left _ logged, takes⟩
    · rintro ⟨rfl, uncached, found, registration, logged, takes, hway⟩
      obtain ⟨old, hold, takes'⟩ := matching_iff_takes.mp (answered _ _ _ _ inside found)
      obtain rfl := registers.taker_unique (List.mem_append_left _ hold) logged takes' takes
      exact ⟨rfl, uncached, found, old, hold, takes', hway⟩
  · exact Iff.rfl

/-- No look-up so far counts on a new node: it would have had an old one. -/
theorem Tallies.tally_new (tallies : router.Tallies log history) {trees : StringMap (Node α)}
    {more : List (Registration α)} (registers : Registers trees (log ++ more))
    (kept : ∀ {method way counter}, Counts router.trees method way counter →
      Counts trees method way counter)
    {method : String} {way : List Token} {counter : CounterId}
    (counts : Counts trees method way counter)
    (new : router.cache.counters.length ≤ counter) :
    tally log method way (Moment.recent history) = 0 := by
  apply tally_eq_zero
  rintro (⟨asked, path, answer, events⟩ | _) -
  · rintro ⟨rfl, -, -, registration, logged, takes, rfl⟩
    obtain ⟨old, hold⟩ := tallies.keeps.registers.exists_counter logged counts.way_ne_nil
    rw [takes.1] at hold
    have htracked := tallies.allotted.tracked hold
    rw [registers.counter_unique (kept hold) counts] at htracked
    exact absurd htracked (not_lt.mpr new)
  · exact id

/-- Registering keeps the tie: new counters are at zero, and no look-up counts on new nodes. -/
theorem Tallies.handle (tallies : router.Tallies log history) (method pattern : String)
    (handler : α) :
    (router.handle method pattern handler).state.Tallies
      (log ++ router.logged method pattern handler) history := by
  have keeps := tallies.keeps.handle method pattern handler
  have hentries := router.entries_handle method pattern handler
  have hget (method' path : String) :
      (router.handle method pattern handler).state.cache.get? method' path =
        router.cache.get? method' path := by
    rw [get?_handle_cache]
  obtain ⟨added, numbered, hcounts⟩ := router.counts_handle method pattern handler
  refine ⟨keeps, ?_, allotted_handle tallies.allotted method pattern handler, ?_, ?_, ?_, ?_, ?_,
    ?_⟩
  · rw [handle_eq]
    split <;> exact tallies.enabled
  · intro other way counter counts
    rw [hitsOf_handle, ← tally_append_log keeps.registers tallies.answered]
    rcases (hcounts other way counter).mp counts with old | ⟨rfl, new⟩
    · exact tallies.counted old
    · have huntracked : router.cache.hitsOf counter = 0 := by
        unfold ResultCache.hitsOf
        rw [List.getElem?_eq_none (numbered.bounds new).1]
        rfl
      rw [huntracked, tallies.tally_new keeps.registers
        (fun old => (hcounts _ _ _).mpr (Or.inl old)) counts (numbered.bounds new).1]
      rfl
  · rw [hentries]
    exact tallies.ordered
  · rw [← tallies.size, ResultCache.size, hentries]
    rfl
  · intro method' path
    rw [hget]
    exact tallies.stored method' path
  · intro method' path present
    rw [hget] at present
    obtain ⟨registration, logged, wild⟩ := tallies.wild method' path present
    exact ⟨registration, List.mem_append_left _ logged, wild⟩
  · intro method' path answer events inside found
    exact (tallies.answered method' path answer events inside found).append _

section Run

variable [Handler α γ] [ParamSink γ]

theorem Tallies.perform (tallies : router.Tallies log history) (operation : Operation α γ) :
    (router.perform operation).state.Tallies (log ++ router.acceptedBy operation)
      (history ++ router.moments operation) := by
  have idle {state : Router α γ} (trees : state.trees = router.trees)
      (cache : state.cache = router.cache) (config : state.config = router.config) :
      state.Tallies (log ++ []) (history ++ []) := by
    rw [List.append_nil, List.append_nil]
    exact tallies.of_same trees cache config
  cases operation with
  | handle method pattern handler =>
      show (router.handle method pattern handler).state.Tallies _ (history ++ [])
      rw [List.append_nil]
      exact tallies.handle method pattern handler
  | lookup | resolve | serve | allowed =>
      rw [(router.looksUp_perform rfl).state]
      show (router.lookUpAll _).state.Tallies (log ++ []) _
      rw [List.append_nil]
      exact tallies.lookUpAll _
  | clearCache =>
      show router.clearCache.state.Tallies (log ++ []) _
      rw [List.append_nil]
      exact tallies.wipe
  | advance ms =>
      show (router.advance ms).state.Tallies (log ++ [])
        (history ++ List.replicate (router.wipesDue ms) .wipe)
      rw [List.append_nil]
      rw [advance_state]
      exact (tallies.wipeTimes _).of_same rfl rfl rfl
  | respell method path fix => exact idle rfl rfl rfl
  | startSweeper runtime =>
      obtain ⟨⟨sweeper, hstate⟩, -⟩ := router.startSweeper_effect runtime
      show (router.startSweeper runtime).state.Tallies (log ++ []) (history ++ [])
      rw [hstate]
      exact idle rfl rfl rfl
  | shutdown =>
      show router.shutdown.state.Tallies (log ++ []) (history ++ [])
      rw [shutdown_eq]
      exact idle rfl rfl rfl
  | install fallback => cases fallback <;> exact idle rfl rfl rfl

/-- Every run keeps the tie. -/
theorem Tallies.run (tallies : router.Tallies log history) (operations : List (Operation α γ)) :
    (router.run operations).state.Tallies (log ++ router.accepted operations)
      (history ++ router.history operations) := by
  induction operations generalizing router log history with
  | nil =>
      rw [accepted, Router.history, List.append_nil, List.append_nil]
      exact tallies
  | cons operation operations ih =>
      rw [accepted, Router.history, ← List.append_assoc, ← List.append_assoc]
      exact ih (tallies.perform operation)

end Run

end Router

end RadixRouter
