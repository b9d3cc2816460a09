/-
# Sessions with a router

Whatever a caller does with a router is a sequence of operations.  `Router.run` performs them
one after the other and collects the replies; `Router.accepted` collects the registrations
that were accepted on the way.  A law of every reachable router is a law of every run.
-/

import RadixRouter.Proofs.Registration
import RadixRouter.Router.Serve
import RadixRouter.Router.Sweeping

namespace RadixRouter

variable {α γ : Type}

/-- A handler for requests that no route takes, or for panics. -/
inductive Fallback (α γ : Type) where
  | notFound (handler : α)
  | methodNotAllowed (handler : α)
  | globalOptions (handler : α)
  | panic (recover : PanicHandler γ)

/-- One operation on a router. -/
inductive Operation (α γ : Type) where
  | handle (method pattern : String) (handler : α)
  | lookup (method path : String)
  | resolve (method path : String)
  | serve (method path : String) (context : γ)
  | allowed (path exclude : String)
  | respell (method path : String) (fix : Bool)
  | clearCache
  | startSweeper (runtime : Option Runtime)
  | shutdown
  | advance (ms : Nat)
  | install (fallback : Fallback α γ)

/-- The answer to an operation. -/
inductive Reply (α γ : Type) where
  | handled (verdict : Except RouteError Unit)
  | lookedUp (lookup : Lookup α)
  | resolved (answer : RouteMatch α)
  | served (context : γ) (served : Served)
  | allow (value : String)
  | spelling (spelling : Option String)
  | cleared (entries : Nat)
  | sweeping (started : Except SweeperError Unit)
  | done

/-- A step with its answer read as a reply. -/
def Step.reply {σ β : Type} (step : Step σ β) (read : β → Reply α γ) : Step σ (Reply α γ) :=
  ⟨read step.answer, step.state, step.events⟩

namespace Router

/-- Sets one of the fallback handlers. -/
def install (router : Router α γ) : Fallback α γ → Router α γ
  | .notFound handler => { router with notFound := some handler }
  | .methodNotAllowed handler => { router with methodNotAllowed := some handler }
  | .globalOptions handler => { router with globalOptions := some handler }
  | .panic recover => { router with panicHandler := some recover }

/-- The registrations that an operation adds: its own, if it is one and is accepted. -/
def acceptedBy (router : Router α γ) : Operation α γ → List (Registration α)
  | .handle method pattern handler => router.logged method pattern handler
  | _ => []

variable [Handler α γ] [ParamSink γ]

/-- Performs one operation. -/
def perform (router : Router α γ) : Operation α γ → Step (Router α γ) (Reply α γ)
  | .handle method pattern handler => (router.handle method pattern handler).reply .handled
  | .lookup method path => (router.lookup method path).reply .lookedUp
  | .resolve method path => (router.resolve method path).reply .resolved
  | .serve method path context =>
    (router.serve method path context).reply fun answer => .served answer.1 answer.2
  | .allowed path exclude => (router.allowed path exclude).reply .allow
  | .respell method path fix => ⟨.spelling (router.respelling? method path fix), router, []⟩
  | .clearCache => router.clearCache.reply .cleared
  | .startSweeper runtime => (router.startSweeper runtime).reply .sweeping
  | .shutdown => router.shutdown.reply fun _ => .done
  | .advance ms => (router.advance ms).reply fun _ => .done
  | .install fallback => ⟨.done, router.install fallback, []⟩

/-- Performs operations in order. -/
def run (router : Router α γ) : List (Operation α γ) → Step (Router α γ) (List (Reply α γ))
  | [] => ⟨[], router, []⟩
  | operation :: operations =>
    let first := router.perform operation
    let rest := first.state.run operations
    ⟨first.answer :: rest.answer, rest.state, first.events ++ rest.events⟩

/-- The registrations that a run of operations adds, in order. -/
def accepted (router : Router α γ) : List (Operation α γ) → List (Registration α)
  | [] => []
  | operation :: operations =>
    router.acceptedBy operation ++ (router.perform operation).state.accepted operations

end Router

end RadixRouter
