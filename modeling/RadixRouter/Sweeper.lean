/-
# Periodic wipes

A sweeper is a task on an asynchronous runtime.  It waits for its shutdown flag and for the
ticks of an interval, whichever comes first, and wipes the cache at every tick.  At which
instants an interval ticks is up to the runtime, so a sweeper keeps the one on which it was
started.  The runtime lets every task run until it waits again before time moves on.  Instants
and spans of time are in milliseconds.
-/

import RadixRouter.Cache
import RadixRouter.Event

namespace RadixRouter

/-- What a runtime decides for a task. -/
structure Runtime where
  /-- The reading of the clock. -/
  now : Nat
  /-- The instants at which an interval with a first instant and a period ticks, as the clock
  moves on from one reading to another. -/
  ticks : (start period before after : Nat) → List Nat

/-- A runtime whose clock moves only when told to. -/
def Runtime.virtual (now : Nat) : Runtime where
  now
  ticks start period before after :=
    let ticked (instant : Nat) : Nat :=
      if instant < start then 0 else (instant - start) / period + 1
    (List.range' (ticked before) (ticked after - ticked before)).map (start + period * ·)

/-- What a waiting task wakes up to. -/
inductive Wake where
  /-- Its flag was written, or nobody is left to write it. -/
  | changed (abandoned flag : Bool)
  | tick

/-- The loop of a sweeper, for as long as something wakes it.  Answers whether it goes on
waiting. -/
def sweepLoop {α : Type} (cache : ResultCache α) : List Wake → Step (ResultCache α) Bool
  | [] => ⟨true, cache, []⟩
  | .changed abandoned flag :: wakes =>
    if abandoned || flag then ⟨false, cache, [.sweeperStopped]⟩ else sweepLoop cache wakes
  | .tick :: wakes =>
    let (cache, cleared) := cache.wipe
    let rest := sweepLoop cache wakes
    ⟨rest.answer, rest.state, .cacheSwept cleared :: rest.events⟩

/-- A task with its interval, and the reading of its clock. -/
structure Sweeper where
  runtime : Runtime
  /-- The first tick of the interval. -/
  start : Nat
  period : Nat
  now : Nat

namespace Sweeper

variable {α : Type}

/-- A task that starts now.  Its interval first ticks a period later. -/
def spawn (runtime : Runtime) (period : Nat) : Sweeper :=
  { runtime, start := runtime.now + period, period, now := runtime.now }

/-- What a task wakes up to in the next `ms` milliseconds if nobody stops it. -/
def wakes (sweeper : Sweeper) (ms : Nat) : List Wake :=
  (sweeper.runtime.ticks sweeper.start sweeper.period sweeper.now (sweeper.now + ms)).map
    fun _ => .tick

/-- Wakes a task.  Answers the task afterwards unless it ended. -/
def wake (sweeper : Sweeper) (cache : ResultCache α) (wakes : List Wake) :
    Step (ResultCache α) (Option Sweeper) :=
  let looped := sweepLoop cache wakes
  ⟨if looped.answer then some sweeper else none, looped.state, looped.events⟩

/-- Lets a task live through a span of time. -/
def advance (sweeper : Sweeper) (ms : Nat) (cache : ResultCache α) :
    Step (ResultCache α) (Option Sweeper) :=
  { sweeper with now := sweeper.now + ms }.wake cache (sweeper.wakes ms)

/-- Sets the flag of a task, which sees it before time moves on. -/
def stop (sweeper : Sweeper) (cache : ResultCache α) : Step (ResultCache α) (Option Sweeper) :=
  sweeper.wake cache [.changed false true]

end Sweeper

/-- There is nothing to run a timed task on. -/
inductive SweeperError where
  | noRuntime
deriving DecidableEq

/-- The text of a failure to start a sweeper. -/
def SweeperError.message : SweeperError → String
  | .noRuntime =>
    "cache sweeper requires a Tokio runtime: there is no reactor running, must be called " ++
      "from the context of a Tokio 1.x runtime"

/-- The handle of a free-standing sweeper, with its task unless that ended. -/
structure SweeperHandle where
  task : Option Sweeper
  dropped : Bool := false

/-- A cache with the sweepers that were ever started on it, in order. -/
structure SweptCache (α : Type) where
  cache : ResultCache α
  sweepers : List SweeperHandle

namespace SweptCache

variable {α : Type}

/-- A new cache without sweepers. -/
def empty : SweptCache α := ⟨ResultCache.empty, []⟩

/-- Starts one more sweeper, named by its position. -/
def spawn (swept : SweptCache α) (runtime : Runtime) (period : Nat) : SweptCache α :=
  { swept with sweepers := swept.sweepers ++ [{ task := some (Sweeper.spawn runtime period) }] }

/-- Lets one sweeper live through a span of time. -/
def advanceOne (ms : Nat) (cache : ResultCache α) (handle : SweeperHandle) :
    ResultCache α × SweeperHandle :=
  match handle.task with
  | none => (cache, handle)
  | some sweeper =>
    let advanced := sweeper.advance ms cache
    (advanced.state, { handle with task := advanced.answer })

/-- Lets all sweepers live through a span of time.  Their wipes commute. -/
def advance (ms : Nat) (swept : SweptCache α) : SweptCache α :=
  let (cache, sweepers) := swept.sweepers.foldl
    (fun (cache, done) handle =>
      let (cache, handle) := advanceOne ms cache handle
      (cache, done ++ [handle]))
    (swept.cache, [])
  ⟨cache, sweepers⟩

/-- Whether a sweeper has ended; `none` when there is none of that number or its handle was
dropped. -/
def finished? (swept : SweptCache α) (n : Nat) : Option Bool := do
  let handle ← swept.sweepers[n]?
  if handle.dropped then none else some handle.task.isNone

/-- Stops a sweeper, and drops its handle if asked to. -/
def halt (swept : SweptCache α) (n : Nat) (drop : Bool) : SweptCache α :=
  match swept.sweepers[n]? with
  | none => swept
  | some handle =>
    let handle := { handle with dropped := handle.dropped || drop }
    match handle.task with
    | none => { swept with sweepers := swept.sweepers.set n handle }
    | some sweeper =>
      let stopped := sweeper.stop swept.cache
      ⟨stopped.state, swept.sweepers.set n { handle with task := stopped.answer }⟩

/-- Stops a sweeper. -/
def stop (swept : SweptCache α) (n : Nat) : SweptCache α := swept.halt n false

/-- Drops the handle of a sweeper, which stops it too. -/
def drop (swept : SweptCache α) (n : Nat) : SweptCache α := swept.halt n true

end SweptCache

end RadixRouter
