/-
# Serving a request

A request is resolved, its parameters are written to the request context, and the handler
it leads to runs.  A panic of that handler goes to the panic handler if there is one, and is
otherwise reported; a panic of the panic handler passes through.  Nothing of this reaches
the router: its state is the one that resolving the request leaves.
-/

import RadixRouter.Router.Resolve

namespace RadixRouter

/-- What serving a request gives. -/
inductive Served where
  | done (outcome : Outcome)
  /-- The handler panicked, and nobody took over. -/
  | handlerPanicked (message : String)
  /-- The panic handler panicked. -/
  | escaped (payload : Payload)
deriving DecidableEq

/-- The text of a panic that nobody took over. -/
def Served.panicText (message : String) : String := "handler panicked: " ++ message

namespace Router

variable {α γ : Type}

/-- The outcome a resolved request has if nothing panics, and the handler to run. -/
def plan (router : Router α γ) : RouteMatch α → Outcome × Option α
  | .found handler _ _ => (.handled, some handler)
  | .redirect redirect => (.redirect redirect, none)
  | .options allow => (.options allow, router.globalOptions)
  | .methodNotAllowed allow => (.methodNotAllowed allow, router.methodNotAllowed)
  | .notFound => (.notFound, router.notFound)

/-- Runs a handler, and the panic handler if it panics. -/
def invoke [Handler α γ] (router : Router α γ) (handler : α) (method path : String)
    (context : γ) (outcome : Outcome) : γ × Served × List Event :=
  let run := Handler.call handler context
  match run.panic? with
  | none => (run.context, .done outcome, [])
  | some payload =>
    let message := payload.message
    let report := [Event.handlerPanicked message method path router.panicHandler.isSome]
    match router.panicHandler with
    | none => (run.context, .handlerPanicked message, report)
    | some recover =>
      let second := recover run.context payload
      match second.panic? with
      | none => (second.context, .done .recovered, report)
      | some payload => (second.context, .escaped payload, report)

/-- Serves a request: the context it leaves and how it ended. -/
def serve [Handler α γ] [ParamSink γ] (router : Router α γ) (method path : String)
    (context : γ) : Step (Router α γ) (γ × Served) :=
  let resolved := router.resolveInto method path context
  let (answer, context) := resolved.answer
  let (outcome, handler?) := router.plan answer
  let (context, served, report) := match handler? with
    | some handler => router.invoke handler method path context outcome
    | none => (context, .done outcome, [])
  let closing := match served with
    | .done outcome => [Event.requestResolved method path outcome.status.code]
    | _ => []
  ⟨(context, served), resolved.state, resolved.events ++ report ++ closing⟩

/-- Serving a request leaves the router that resolving it leaves. -/
theorem serve_state [Handler α γ] [ParamSink γ] (router : Router α γ) (method path : String)
    (context : γ) :
    (router.serve method path context).state = (router.resolve method path).state := by
  unfold serve
  rw [resolveInto_eq]

end Router

end RadixRouter
