/-
# What the loop of a sweeper does

A sweeper that is not stopped wakes up to ticks alone, so in a span of time it wipes the cache as
often as its interval ticks, reports each wipe, and goes on waiting.  One that is stopped ends and
leaves the cache as it is.  Whatever the runtime, this is all that starting, stopping and time do
to a router.
-/

import RadixRouter.Router.Sweeping

namespace RadixRouter

variable {α γ : Type}

/-- Wipes a cache a number of times. -/
def ResultCache.wipeTimes (cache : ResultCache α) : Nat → ResultCache α
  | 0 => cache
  | n + 1 => cache.wipe.1.wipeTimes n

/-- A loop that wakes up to ticks alone wipes at each and goes on. -/
theorem sweepLoop_ticks (cache : ResultCache α) (instants : List Nat) :
    let looped := sweepLoop cache (instants.map fun _ => .tick)
    looped.answer = true ∧ looped.state = cache.wipeTimes instants.length ∧
      looped.events.length = instants.length ∧
        ∀ event ∈ looped.events, ∃ cleared, event = .cacheSwept cleared := by
  induction instants generalizing cache with
  | nil => exact ⟨rfl, rfl, rfl, nofun⟩
  | cons instant instants ih =>
      obtain ⟨goesOn, wiped, counted, reported⟩ := ih cache.wipe.1
      refine ⟨goesOn, wiped, congrArg (· + 1) counted, ?_⟩
      exact List.forall_mem_cons.mpr ⟨⟨_, rfl⟩, reported⟩

namespace Sweeper

/-- The ticks in the next `ms` milliseconds. -/
def due (sweeper : Sweeper) (ms : Nat) : Nat :=
  (sweeper.runtime.ticks sweeper.start sweeper.period sweeper.now (sweeper.now + ms)).length

/-- A sweeper lives through any span of time. -/
theorem advance_eq (sweeper : Sweeper) (ms : Nat) (cache : ResultCache α) :
    sweeper.advance ms cache =
      let looped := sweepLoop cache (sweeper.wakes ms)
      ⟨some { sweeper with now := sweeper.now + ms }, looped.state, looped.events⟩ := by
  have goesOn : (sweepLoop cache (sweeper.wakes ms)).answer = true :=
    (sweepLoop_ticks cache _).1
  rw [advance, wake, goesOn]
  rfl

end Sweeper

namespace Router

/-- The wipes that fall into a span of time. -/
def wipesDue (router : Router α γ) (ms : Nat) : Nat := (router.sweeper.map (·.due ms)).getD 0

/-- As time passes, the cache is wiped and the sweeper goes on. -/
theorem advance_state (router : Router α γ) (ms : Nat) :
    (router.advance ms).state =
      { router with
        cache := router.cache.wipeTimes (router.wipesDue ms)
        sweeper := router.sweeper.map fun sweeper =>
          { sweeper with now := sweeper.now + ms } } := by
  unfold advance wipesDue
  obtain ⟨config, trees, cache, sweeper, notFound, methodNotAllowed, globalOptions,
    panicHandler⟩ := router
  cases sweeper with
  | none => rfl
  | some sweeper =>
      dsimp only
      rw [sweeper.advance_eq, Sweeper.wakes]
      dsimp only
      rw [(sweepLoop_ticks cache _).2.1]
      rfl

/-- As time passes, every wipe is reported and nothing else. -/
theorem events_advance (router : Router α γ) (ms : Nat) :
    (router.advance ms).events.length = router.wipesDue ms ∧
      ∀ event ∈ (router.advance ms).events, ∃ cleared, event = .cacheSwept cleared := by
  unfold advance wipesDue
  cases router.sweeper with
  | none => exact ⟨rfl, nofun⟩
  | some sweeper => exact (sweepLoop_ticks router.cache _).2.2

/-- Starting touches nothing but the sweeper, and reports nothing but the start. -/
theorem startSweeper_effect (router : Router α γ) (runtime : Option Runtime) :
    (∃ sweeper, (router.startSweeper runtime).state = { router with sweeper }) ∧
      ∀ event ∈ (router.startSweeper runtime).events, ∃ ms, event = .sweeperStarted ms := by
  unfold startSweeper
  split
  · exact ⟨⟨router.sweeper, rfl⟩, nofun⟩
  · cases runtime with
    | none => exact ⟨⟨router.sweeper, rfl⟩, nofun⟩
    | some runtime =>
        refine ⟨⟨_, rfl⟩, ?_⟩
        intro event hevent
        exact ⟨_, List.mem_singleton.mp hevent⟩

/-- Stopping takes the sweeper away. -/
theorem shutdown_eq (router : Router α γ) :
    router.shutdown =
      ⟨(), { router with sweeper := none },
        if router.sweeper.isSome then [.sweeperStopped] else []⟩ := by
  unfold shutdown
  obtain ⟨config, trees, cache, sweeper, notFound, methodNotAllowed, globalOptions,
    panicHandler⟩ := router
  cases sweeper with
  | none => rfl
  | some sweeper => rfl

end Router

end RadixRouter
