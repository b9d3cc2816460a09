/-
# Periodic wipes of a router's cache

A router starts its sweeper on request, keeps at most one, and stops it on shutdown.
-/

import RadixRouter.Router.Basic

namespace RadixRouter.Router

variable {α γ : Type}

/-- Starts the periodic wipe unless it runs already.  Starting needs a runtime. -/
def startSweeper (router : Router α γ) (runtime : Option Runtime) :
    Step (Router α γ) (Except SweeperError Unit) :=
  if router.sweeper.isSome then ⟨.ok (), router, []⟩
  else
    match runtime with
    | none => ⟨.error .noRuntime, router, []⟩
    | some runtime =>
      let cache := router.config.cache
      ⟨.ok (), { router with sweeper := some (Sweeper.spawn runtime cache.sweepPeriod) },
        [.sweeperStarted cache.sweepIntervalMs]⟩

/-- Stops the periodic wipe if it runs. -/
def shutdown (router : Router α γ) : Step (Router α γ) Unit :=
  match router.sweeper with
  | none => ⟨(), router, []⟩
  | some sweeper =>
    let stopped := sweeper.stop router.cache
    ⟨(), { router with cache := stopped.state, sweeper := none }, stopped.events⟩

/-- Lets time pass. -/
def advance (router : Router α γ) (ms : Nat) : Step (Router α γ) Unit :=
  match router.sweeper with
  | none => ⟨(), router, []⟩
  | some sweeper =>
    let advanced := sweeper.advance ms router.cache
    ⟨(), { router with cache := advanced.state, sweeper := advanced.answer }, advanced.events⟩

end RadixRouter.Router
