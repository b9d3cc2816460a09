/-
# The schedule of the wipes

On a runtime whose intervals keep their instants, a sweeper wipes the cache each time its period
has passed since it was started, until it is shut down.  `runningSpans` reads off a run from when to
when the sweeper was running, and the wipes of a run are counted from these spans alone: it does not
matter into which steps time is cut, what else is done in between, or how often a running sweeper
is started again.
-/

import RadixRouter.Proofs.LookupHistory

namespace RadixRouter

variable {α γ : Type}

/-- What is documented of the intervals of a runtime, for one that was made before its first
instant.  A tick that is due at the end of a span of time has happened by then. -/
structure Runtime.Punctual (runtime : Runtime) : Prop where
  on_schedule : ∀ {start period before after instant : Nat}, 0 < period →
    (instant ∈ runtime.ticks start period before after ↔
      before < instant ∧ instant ≤ after ∧ ∃ n, instant = start + period * n)
  in_order : ∀ {start period before after : Nat}, 0 < period →
    (runtime.ticks start period before after).Pairwise (· < ·)

/-- The instants of a schedule stand in their order. -/
theorem pairwise_instants (start : Nat) {period : Nat} (positive : 0 < period) (first n : Nat) :
    ((List.range' first n).map (start + period * ·)).Pairwise (· < ·) := by
  have ordered : (List.range' first n).Pairwise (· < ·) := List.pairwise_lt_range'
  refine List.pairwise_map.mpr (ordered.imp ?_)
  intro earlier later hlt
  exact Nat.add_lt_add_left (Nat.mul_lt_mul_of_pos_left hlt positive) start

/-- The ticks of an interval that was made some time ago and first ticks a period later. -/
theorem Runtime.Punctual.ticks_eq {runtime : Runtime} (punctual : runtime.Punctual) {period : Nat}
    (positive : 0 < period) (made elapsed ms : Nat) :
    runtime.ticks (made + period) period (made + elapsed) (made + elapsed + ms) =
      (List.range' (elapsed / period) ((elapsed + ms) / period - elapsed / period)).map
        (made + period + period * ·) := by
  have sorted : (runtime.ticks (made + period) period (made + elapsed)
      (made + elapsed + ms)).Pairwise (· < ·) := punctual.in_order positive
  have sorted' := pairwise_instants (made + period) positive (elapsed / period)
    ((elapsed + ms) / period - elapsed / period)
  refine List.Perm.eq_of_pairwise (fun _ _ _ _ hlt hgt => absurd hgt (lt_asymm hlt)) sorted sorted'
    ((List.perm_ext_iff_of_nodup (sorted.imp ne_of_lt) (sorted'.imp ne_of_lt)).mpr ?_)
  intro instant
  rw [punctual.on_schedule positive, List.mem_map]
  have within (n : Nat) : n ∈ List.range' (elapsed / period)
      ((elapsed + ms) / period - elapsed / period) ↔
        elapsed < period * (n + 1) ∧ period * (n + 1) ≤ elapsed + ms := by
    rw [List.mem_range'_1, Nat.mul_comm, ← Nat.div_lt_iff_lt_mul positive,
      ← Nat.le_div_iff_mul_le positive]
    omega
  have shifted (n : Nat) : made + period + period * n = made + period * (n + 1) := by
    rw [Nat.mul_succ]
    omega
  constructor
  · rintro ⟨hbefore, hafter, n, rfl⟩
    rw [shifted] at hbefore hafter
    exact ⟨n, (within n).mpr ⟨by omega, by omega⟩, rfl⟩
  · rintro ⟨n, inside, rfl⟩
    obtain ⟨hbefore, hafter⟩ := (within n).mp inside
    exact ⟨by rw [shifted]; omega, by rw [shifted]; omega, n, rfl⟩

namespace Sweeper

variable {sweeper : Sweeper} {period elapsed : Nat}

/-- A sweeper that was started on a punctual runtime some time ago. -/
structure Running (sweeper : Sweeper) (period elapsed : Nat) : Prop where
  punctual : sweeper.runtime.Punctual
  period_eq : sweeper.period = period
  timed : ∃ started, sweeper.start = started + period ∧ sweeper.now = started + elapsed

theorem Running.later (running : sweeper.Running period elapsed) (ms : Nat) :
    ({ sweeper with now := sweeper.now + ms } : Sweeper).Running period (elapsed + ms) := by
  obtain ⟨started, hstart, hnow⟩ := running.timed
  refine ⟨running.punctual, running.period_eq, started, hstart, ?_⟩
  show sweeper.now + ms = _
  rw [hnow, Nat.add_assoc]

/-- The ticks in a span of time and the periods that were full before it are the periods that are
full after it. -/
theorem Running.due (running : sweeper.Running period elapsed) (positive : 0 < period) (ms : Nat) :
    elapsed / period + sweeper.due ms = (elapsed + ms) / period := by
  obtain ⟨started, hstart, hnow⟩ := running.timed
  rw [Sweeper.due, hstart, hnow, running.period_eq, running.punctual.ticks_eq positive,
    List.length_map, List.length_range']
  exact Nat.add_sub_cancel' (Nat.div_le_div_right (Nat.le_add_right elapsed ms))

end Sweeper

theorem sweeps_wipeTimes (cache : ResultCache α) (n : Nat) :
    (cache.wipeTimes n).sweeps = cache.sweeps + UInt64.ofNat n := by
  induction n generalizing cache with
  | zero => exact (UInt64.add_zero _).symm
  | succ n ih =>
      have one : cache.wipe.1.sweeps = cache.sweeps + 1 := rfl
      rw [ResultCache.wipeTimes, ih, one, Nat.add_comm n 1, UInt64.ofNat_add, ← UInt64.add_assoc]
      rfl

/-- A wipe by the clock. -/
def Event.isSweep : Event → Bool
  | .cacheSwept _ => true
  | _ => false

theorem isSweep_of_aboutCache {event : Event} (other : event.aboutCache = false) :
    event.isSweep = false := by
  cases event <;> first | rfl | cases other

namespace Router

variable {router : Router α γ}

/-- Two routers with the same schedule, at the same point of it, and the same number of wipes. -/
structure Unswept (before after : Router α γ) : Prop where
  sweeper : after.sweeper = before.sweeper
  sweeps : after.cache.sweeps = before.cache.sweeps

theorem Unswept.refl (router : Router α γ) : router.Unswept router := ⟨rfl, rfl⟩

theorem Unswept.trans {first second third : Router α γ} (earlier : first.Unswept second)
    (later : second.Unswept third) : first.Unswept third :=
  ⟨later.sweeper.trans earlier.sweeper, later.sweeps.trans earlier.sweeps⟩

theorem unswept_countHit (router : Router α γ) (method path : String) (handler : α)
    (params : Params) (counter : CounterId) :
    router.Unswept (router.countHit method path handler params counter).1 := by
  unfold countHit
  dsimp only
  split <;> exact ⟨rfl, rfl⟩

theorem unswept_lookup (router : Router α γ) (method path : String) :
    router.Unswept (router.lookup method path).state := by
  cases lookup_effect router method path with
  | idle state events =>
      rw [state]
      exact Unswept.refl router
  | counted handler captures counter found state events =>
      rw [state]
      exact unswept_countHit router method path handler _ counter

theorem unswept_lookUpAll (router : Router α γ) (requests : List (String × String)) :
    router.Unswept (router.lookUpAll requests).state :=
  lookUpAll_induction (fun _ method path before => before.trans (unswept_lookup _ method path))
    (Unswept.refl router) requests

theorem unswept_handle (router : Router α γ) (method pattern : String) (handler : α) :
    router.Unswept (router.handle method pattern handler).state := by
  rw [handle_eq]
  split <;> exact ⟨rfl, rfl⟩

theorem isSweep_lookUpAll (router : Router α γ) (requests : List (String × String)) :
    ∀ event ∈ (router.lookUpAll requests).events, event.isSweep = false := by
  induction requests generalizing router with
  | nil => exact nofun
  | cons request requests ih =>
      intro event hevent
      rcases List.mem_append.mp hevent with h | h
      · obtain ⟨hits, rfl⟩ := events_lookup _ _ _ event h
        rfl
      · exact ih _ event h

theorem LooksUp.unswept {β : Type} {requests : List (String × String)}
    {step : Step (Router α γ) β} (looks : router.LooksUp requests step) :
    router.Unswept step.state ∧ ∀ event ∈ step.events, event.isSweep = false := by
  obtain ⟨hstate, others, hothers, hevents⟩ := looks
  rw [hstate, hevents]
  refine ⟨unswept_lookUpAll router requests, fun event hevent => ?_⟩
  rcases List.mem_append.mp hevent with h | h
  · exact isSweep_lookUpAll router requests event h
  · exact isSweep_of_aboutCache (hothers event h)

end Router

/-- Whether an operation is about wipes: a wipe by hand, or a start, a stop or the time of the
sweeper. -/
def Operation.aboutWipes : Operation α γ → Bool
  | .clearCache => true
  | .startSweeper _ => true
  | .shutdown => true
  | .advance _ => true
  | _ => false

/-- A wipe by hand. -/
def Operation.clears : Operation α γ → Bool
  | .clearCache => true
  | _ => false

namespace Router

/-- The sweeper runs at its period since a time, or does not run. -/
def Follows (router : Router α γ) (period now : Nat) : (since : Option Nat) → Prop
  | none => router.sweeper = none
  | some start => start ≤ now ∧ ∃ sweeper, router.sweeper = some sweeper ∧
      sweeper.Running period (now - start)

section Step

variable {router : Router α γ} {period now : Nat} {since : Option Nat}

end Step

/-- Letting time pass wipes as often as is due. -/
theorem sweeps_advance (router : Router α γ) (ms : Nat) :
    (router.advance ms).state.cache.sweeps =
      router.cache.sweeps + UInt64.ofNat (router.wipesDue ms) := by
  rw [advance_state]
  exact sweeps_wipeTimes _ _

/-- Look-ups are no wipes. -/
theorem wipes_lookUpAll (router : Router α γ) (requests : List (String × String)) :
    (router.lookUpAll requests).answer.countP (!·.isLookup) = 0 := by
  induction requests generalizing router with
  | nil => rfl
  | cons request requests ih =>
      rw [lookUpAll, List.countP_cons_of_neg Bool.false_ne_true]
      exact ih _

/-- An operation that is not about wipes makes none. -/
theorem moments_of_other (router : Router α γ) {operation : Operation α γ}
    (other : operation.aboutWipes = false) :
    router.moments operation = (router.lookUpAll (router.requests operation)).answer := by
  cases operation <;> first | rfl | cases other

variable [Handler α γ] [ParamSink γ]

theorem unswept_perform (router : Router α γ) {operation : Operation α γ}
    (other : operation.aboutWipes = false) :
    router.Unswept (router.perform operation).state ∧
      ∀ event ∈ (router.perform operation).events, event.isSweep = false := by
  cases operation with
  | handle method pattern handler =>
      refine ⟨unswept_handle router method pattern handler, ?_⟩
      show ∀ event ∈ (router.handle method pattern handler).events, _
      rw [handle_eq]
      split
      · intro event hevent
        rw [List.mem_singleton.mp hevent]
        rfl
      · exact nofun
  | lookup | resolve | serve | allowed => exact (router.looksUp_perform rfl).unswept
  | respell method path fix => exact ⟨Unswept.refl router, nofun⟩
  | install fallback => cases fallback <;> exact ⟨⟨rfl, rfl⟩, nofun⟩
  | clearCache => cases other
  | startSweeper runtime => cases other
  | shutdown => cases other
  | advance ms => cases other

/-- The wipes in the history of an operation are those that it makes. -/
theorem sweeps_perform (router : Router α γ) (operation : Operation α γ) :
    (router.perform operation).state.cache.sweeps =
      router.cache.sweeps + UInt64.ofNat ((router.moments operation).countP (!·.isLookup)) := by
  cases operation with
  | clearCache => rfl
  | advance ms =>
      show (router.advance ms).state.cache.sweeps = _
      rw [moments, List.countP_replicate, sweeps_advance]
      rfl
  | startSweeper runtime =>
      obtain ⟨⟨sweeper, hstate⟩, -⟩ := router.startSweeper_effect runtime
      exact (congrArg (·.cache.sweeps) hstate).trans (UInt64.add_zero _).symm
  | shutdown =>
      exact (congrArg (·.state.cache.sweeps) router.shutdown_eq).trans (UInt64.add_zero _).symm
  | _ =>
      rw [(router.unswept_perform rfl).1.sweeps, moments_of_other router rfl, wipes_lookUpAll]
      exact (UInt64.add_zero _).symm

/-- The wipes in a history are those that the run makes. -/
theorem sweeps_history (router : Router α γ) (operations : List (Operation α γ)) :
    (router.run operations).state.cache.sweeps =
      router.cache.sweeps + UInt64.ofNat ((router.history operations).countP (!·.isLookup)) := by
  induction operations generalizing router with
  | nil => exact (UInt64.add_zero _).symm
  | cons operation operations ih =>
      rw [run, history, List.countP_append, UInt64.ofNat_add, ← UInt64.add_assoc,
        ← sweeps_perform]
      exact ih _

end Router

end RadixRouter
