/-
# A panic stays with its request

Serving a request writes the captured parameters to its context and runs at most one handler, and
the panic handler after it if that one panics.  A `Journal` is a context that notes all this as it
happens; keeping one changes nothing, so what a journal shows is what happens to any context.
`Course` lists the ways in which a request can go from there.

The router does not take part in any of them: it is left as resolving the request leaves it, however
the handlers end.
-/

import RadixRouter.Proofs.CacheTransparency
import RadixRouter.Proofs.Outcomes

namespace RadixRouter

variable {α γ δ : Type}

/-- Something that happens to the context of a request. -/
inductive Incident (α γ : Type) where
  | wrote (name value : String)
  /-- A handler was run on this context. -/
  | ran (handler : α) (context : γ)
  /-- The panic handler was run on this context, with this payload. -/
  | recovered (context : γ) (payload : Payload)

/-- A context together with what happened to it, oldest first. -/
structure Journal (α γ : Type) where
  context : γ
  incidents : List (Incident α γ)

/-- The journal with one more incident, which leaves this context. -/
def Journal.note (journal : Journal α γ) (incident : Incident α γ) (context : γ) : Journal α γ :=
  ⟨context, journal.incidents ++ [incident]⟩

instance [ParamSink γ] : ParamSink (Journal α γ) :=
  ⟨fun journal name value =>
    journal.note (.wrote name value) (ParamSink.setParam journal.context name value)⟩

instance [Handler α γ] : Handler α (Journal α γ) :=
  ⟨fun handler journal =>
    let run := Handler.call handler journal.context
    ⟨journal.note (.ran handler journal.context) run.context, run.panic?⟩⟩

/-- A panic handler that notes its runs. -/
def PanicHandler.journaled (recover : PanicHandler γ) : PanicHandler (Journal α γ) :=
  fun journal payload =>
    let run := recover journal.context payload
    ⟨journal.note (.recovered journal.context payload) run.context, run.panic?⟩

/-- The parameters that are written, as incidents. -/
def Params.writes (params : Params) : List (Incident α γ) :=
  params.toList.map fun (name, value) => .wrote name value

/-- Every parameter that is written is noted once, in order. -/
theorem replayInto_journal [ParamSink γ] (params : Params) (context : γ)
    (incidents : List (Incident α γ)) :
    params.replayInto (Journal.mk context incidents) =
      ⟨params.replayInto context, incidents ++ params.writes⟩ := by
  obtain ⟨pairs⟩ := params
  simp only [Params.replayInto, Params.writes]
  induction pairs generalizing context incidents with
  | nil => simp
  | cons pair pairs ih =>
      simp only [List.foldl_cons, List.map_cons]
      refine (ih (ParamSink.setParam context pair.1 pair.2) _).trans ?_
      simp

/-- The router for contexts of another kind, with another panic handler. -/
def Router.over (router : Router α γ) (panicHandler : Option (PanicHandler δ)) : Router α δ where
  config := router.config
  trees := router.trees
  cache := router.cache
  sweeper := router.sweeper
  notFound := router.notFound
  methodNotAllowed := router.methodNotAllowed
  globalOptions := router.globalOptions
  panicHandler := panicHandler

/-- A step of a router, taken for contexts of another kind. -/
def Step.over {β : Type} (step : Step (Router α γ) β) (panicHandler : Option (PanicHandler δ)) :
    Step (Router α δ) β :=
  ⟨step.answer, step.state.over panicHandler, step.events⟩

namespace Router

section Over

variable (router : Router α γ) (panicHandler : Option (PanicHandler δ)) (method path : String)

theorem lookup_over :
    (router.over panicHandler).lookup method path =
      (router.lookup method path).over panicHandler := by
  have hcached : (router.over panicHandler).cached? method path = router.cached? method path := rfl
  have htrees : (router.over panicHandler).trees = router.trees := rfl
  rw [lookup_eq, lookup_eq, hcached, htrees]
  cases router.cached? method path with
  | some entry => rfl
  | none =>
      cases router.trees.get? method with
      | none => rfl
      | some tree =>
          dsimp only
          cases tree.find (Utf8.encode path) with
          | missed hint => rfl
          | found handler captures deepest =>
              cases deepest with
              | none => rfl
              | some counter =>
                  have hconfig : (router.over panicHandler).config = router.config := rfl
                  have hcache : (router.over panicHandler).cache = router.cache := rfl
                  unfold countHit
                  dsimp only
                  rw [hconfig, hcache]
                  cases router.config.cache.enabled && router.config.cache.promotionThreshold <
                    (router.cache.bump counter).hitsOf counter <;> rfl

theorem matchingMethods_over (methods : List String) :
    (router.over panicHandler).matchingMethods path methods =
      (router.matchingMethods path methods).over panicHandler := by
  induction methods generalizing router with
  | nil => rfl
  | cons method methods ih => simp only [matchingMethods, lookup_over, Step.over, ih]

theorem allowed_over (exclude : String) :
    (router.over panicHandler).allowed path exclude =
      (router.allowed path exclude).over panicHandler := by
  have hmethods : (router.over panicHandler).methods = router.methods := rfl
  simp only [allowed, hmethods, matchingMethods_over]
  split <;> rfl

theorem fallback_over :
    (router.over panicHandler).fallback method path =
      (router.fallback method path).over panicHandler := by
  have hconfig : (router.over panicHandler).config = router.config := rfl
  simp only [fallback, hconfig, allowed_over]
  generalize (if method = "OPTIONS" then router.config.handleOptions
    else router.config.handleMethodNotAllowed) = wanted
  cases wanted <;> rfl

/-- What a request resolves to does not depend on the kind of its context. -/
theorem resolve_over :
    (router.over panicHandler).resolve method path =
      (router.resolve method path).over panicHandler := by
  have htrees : (router.over panicHandler).trees = router.trees := rfl
  have hredirect (state : Router α γ) (hint : Bool) :
      (state.over panicHandler).redirect? method path hint =
        state.redirect? method path hint := rfl
  simp only [resolve_eq, htrees, lookup_over, fallback_over, Step.over, hredirect]
  cases router.trees.contains method with
  | false => rfl
  | true =>
      simp only [if_pos]
      cases (router.lookup method path).answer.handler with
      | some handler => rfl
      | none =>
          dsimp only
          cases (router.lookup method path).state.redirect? method path
            (router.lookup method path).answer.trailingSlashRedirect <;> rfl

/-- The router for contexts that keep a journal. -/
def journaled : Router α (Journal α γ) :=
  router.over (router.panicHandler.map PanicHandler.journaled)

end Over

end Router

/-- The handlers for requests that no route takes, and for panics, where they are set. -/
structure Fallbacks (α γ : Type) where
  notFound : Option α
  methodNotAllowed : Option α
  globalOptions : Option α
  panicHandler : Option (PanicHandler γ)

namespace Fallback

def notFound? : Fallback α γ → Option α
  | .notFound handler => some handler
  | _ => none

def methodNotAllowed? : Fallback α γ → Option α
  | .methodNotAllowed handler => some handler
  | _ => none

def globalOptions? : Fallback α γ → Option α
  | .globalOptions handler => some handler
  | _ => none

def panic? : Fallback α γ → Option (PanicHandler γ)
  | .panic recover => some recover
  | _ => none

end Fallback

/-- The handler of some kind that an operation sets. -/
def Operation.sets? (kind : Fallback α γ → Option δ) : Operation α γ → Option δ
  | .install fallback => kind fallback
  | _ => none

/-- The handlers that operations set, the last of each kind. -/
def installed (operations : List (Operation α γ)) : Fallbacks α γ where
  notFound := (operations.filterMap (Operation.sets? Fallback.notFound?)).getLast?
  methodNotAllowed := (operations.filterMap (Operation.sets? Fallback.methodNotAllowed?)).getLast?
  globalOptions := (operations.filterMap (Operation.sets? Fallback.globalOptions?)).getLast?
  panicHandler := (operations.filterMap (Operation.sets? Fallback.panic?)).getLast?

/-- What is set first counts only if nothing is set later. -/
theorem getLast?_filterMap_cons {ε : Type} (f : ε → Option δ) (x : ε) (xs : List ε) :
    ((x :: xs).filterMap f).getLast? = (xs.filterMap f).getLast?.or (f x) := by
  rw [List.filterMap_cons]
  cases hx : f x with
  | none => exact (Option.or_none ..).symm
  | some y =>
      dsimp only
      rw [List.getLast?_cons]
      cases (xs.filterMap f).getLast? <;> rfl

namespace Router

/-- The handlers of a router for requests that no route takes, and for panics. -/
def fallbacks (router : Router α γ) : Fallbacks α γ :=
  ⟨router.notFound, router.methodNotAllowed, router.globalOptions, router.panicHandler⟩

theorem Undisturbed.fallbacks {before after : Router α γ} (undisturbed : before.Undisturbed after) :
    after.fallbacks = before.fallbacks := by
  rw [Router.fallbacks, undisturbed.notFound, undisturbed.methodNotAllowed,
    undisturbed.globalOptions, undisturbed.panicHandler]
  rfl

/-- The handler that attends to a resolved request, and the outcome if it ends normally: the handler
of the route, or the one that is set for requests without a route; nobody attends to a redirect. -/
inductive Attends (set : Fallbacks α γ) : RouteMatch α → Option α → Outcome → Prop
  | route (handler : α) (cached : Bool) (params : Params) :
      Attends set (.found handler cached params) (some handler) .handled
  | redirect (target : Redirect) : Attends set (.redirect target) none (.redirect target)
  | options (allow : String) : Attends set (.options allow) set.globalOptions (.options allow)
  | methodNotAllowed (allow : String) :
      Attends set (.methodNotAllowed allow) set.methodNotAllowed (.methodNotAllowed allow)
  | notFound : Attends set .notFound set.notFound .notFound

theorem attends_plan (router : Router α γ) (answer : RouteMatch α) :
    Attends router.fallbacks answer (router.plan answer).2 (router.plan answer).1 := by
  cases answer <;> constructor

/-- The text in which a payload is reported. -/
inductive Words : Payload → String → Prop
  | literal (text : String) : Words (.literal text) text
  | owned (text : String) : Words (.owned text) text
  | other : Words .other "non-string panic payload"

theorem words_message (payload : Payload) : Words payload payload.message := by
  cases payload <;> constructor

/-- How a request goes on from the context `given`, when `outcome` is its outcome if nothing panics:
the handler that attends to it, what happens to the context, the context in the end, how it ends
and the events it reports. -/
inductive Course [Handler α γ] (set : Fallbacks α γ) (method path : String) (given : γ)
    (outcome : Outcome) : Option α → List (Incident α γ) → γ → Served → List Event → Prop
  /-- Nobody attends. -/
  | unattended : Course set method path given outcome none [] given (.done outcome)
      [.requestResolved method path outcome.status.code]
  /-- The handler ends normally. -/
  | normal {handler : α} {context : γ} (run : Handler.call handler given = ⟨context, none⟩) :
      Course set method path given outcome (some handler) [.ran handler given] context
        (.done outcome) [.requestResolved method path outcome.status.code]
  /-- The handler panics, and nobody takes over. -/
  | reported {handler : α} {context : γ} {payload : Payload} {text : String}
      (run : Handler.call handler given = ⟨context, some payload⟩) (words : Words payload text)
      (unset : set.panicHandler = none) :
      Course set method path given outcome (some handler) [.ran handler given] context
        (.handlerPanicked text) [.handlerPanicked text method path false]
  /-- The panic handler takes over, on the context as the handler left it. -/
  | recovered {handler : α} {context context' : γ} {payload : Payload} {text : String}
      {recover : PanicHandler γ} (run : Handler.call handler given = ⟨context, some payload⟩)
      (words : Words payload text) (takes : set.panicHandler = some recover)
      (rerun : recover context payload = ⟨context', none⟩) :
      Course set method path given outcome (some handler)
        [.ran handler given, .recovered context payload] context' (.done .recovered)
        [.handlerPanicked text method path true,
          .requestResolved method path Outcome.recovered.status.code]
  /-- The panic handler panics in turn. -/
  | escaped {handler : α} {context context' : γ} {payload payload' : Payload} {text : String}
      {recover : PanicHandler γ} (run : Handler.call handler given = ⟨context, some payload⟩)
      (words : Words payload text) (takes : set.panicHandler = some recover)
      (rerun : recover context payload = ⟨context', some payload'⟩) :
      Course set method path given outcome (some handler)
        [.ran handler given, .recovered context payload] context' (.escaped payload')
        [.handlerPanicked text method path true]

/-- The events by which a panic of a handler is reported. -/
def panicReports (events : List Event) : List Event :=
  events.filter fun event => event.name? = some "handler_panicked"

theorem panicReports_of_aboutCache {events : List Event}
    (about : ∀ event ∈ events, event.aboutCache = true) : panicReports events = [] := by
  refine List.filter_eq_nil_iff.mpr fun event inside => ?_
  have := about event inside
  cases event <;> simp_all [Event.aboutCache, Event.name?]

section Course

variable [Handler α γ] {set : Fallbacks α γ} {method path : String} {given context : γ}
  {outcome : Outcome} {handler? : Option α} {incidents : List (Incident α γ)} {served : Served}
  {events : List Event}

/-- A request is reported as resolved exactly if it ends with an outcome. -/
theorem Course.resolved_iff
    (course : Course set method path given outcome handler? incidents context served events) :
    (∃ status, .requestResolved method path status ∈ events) ↔
      ∃ ending, served = .done ending := by
  cases course <;> simp

/-- A panic is reported once, in the words of its payload, and nothing else is. -/
theorem Course.panics
    (course : Course set method path given outcome handler? incidents context served events) :
    let panic? := handler?.bind fun handler => (Handler.call handler given).panic?
    (panicReports events).length = panic?.toList.length ∧
      ∀ payload, panic? = some payload → ∃ text, Words payload text ∧
        .handlerPanicked text method path set.panicHandler.isSome ∈ events := by
  cases course with
  | unattended => exact ⟨rfl, nofun⟩
  | normal run =>
      dsimp only [Option.bind_some]
      rw [run]
      exact ⟨rfl, nofun⟩
  | reported run words unset | recovered run words unset _ | escaped run words unset _ =>
      dsimp only [Option.bind_some]
      rw [run, unset]
      refine ⟨rfl, ?_⟩
      rintro payload ⟨⟩
      exact ⟨_, words, List.mem_cons_self⟩

/-- Running a handler takes one of the courses, and a journal shows which. -/
theorem course_invoke (router : Router α γ) (handler : α) (method path : String) (given : γ)
    (outcome : Outcome) (before : List (Incident α γ)) :
    let response := router.invoke handler method path given outcome
    ∃ incidents,
      Course router.fallbacks method path given outcome (some handler) incidents response.1
        response.2.1
        (response.2.2 ++ closing method path response.2.1) ∧
      router.journaled.invoke handler method path ⟨given, before⟩ outcome =
        (⟨response.1, before ++ incidents⟩, response.2) := by
  have hset : router.journaled.panicHandler =
      router.panicHandler.map PanicHandler.journaled := rfl
  have hcall : Handler.call handler (Journal.mk given before) =
      ⟨⟨(Handler.call handler given).context, before ++ [.ran handler given]⟩,
        (Handler.call handler given).panic?⟩ := rfl
  unfold invoke
  rw [hset, hcall]
  dsimp only
  generalize hrun : Handler.call handler given = run
  obtain ⟨context, panic?⟩ := run
  cases panic? with
  | none => exact ⟨[.ran handler given], .normal hrun, rfl⟩
  | some payload =>
      cases hrecover : router.panicHandler with
      | none => exact ⟨[.ran handler given], .reported hrun (words_message payload) hrecover, rfl⟩
      | some recover =>
          have hjournaled : recover.journaled ⟨context, before ++ [.ran handler given]⟩ payload =
              ⟨⟨(recover context payload).context,
                before ++ [.ran handler given, .recovered context payload]⟩,
                (recover context payload).panic?⟩ := by
            simp [PanicHandler.journaled, Journal.note]
          dsimp only [Option.map_some]
          rw [hjournaled]
          dsimp only
          generalize hrerun : recover context payload = rerun
          obtain ⟨context', panic?⟩ := rerun
          refine ⟨[.ran handler given, .recovered context payload], ?_⟩
          cases panic? with
          | none => exact ⟨.recovered hrun (words_message payload) hrecover hrerun, rfl⟩
          | some payload' => exact ⟨.escaped hrun (words_message payload) hrecover hrerun, rfl⟩

variable [ParamSink γ]

/-- A resolved request takes one of the courses once its parameters are written, and a journal shows
which. -/
theorem course_respond (router : Router α γ) (answer : RouteMatch α) (method path : String)
    (context : γ) :
    let response := router.respond answer method path context
    ∃ handler? outcome incidents,
      Attends router.fallbacks answer handler? outcome ∧
      Course router.fallbacks method path (answer.params.replayInto context) outcome handler?
        incidents response.1 response.2.1 (response.2.2 ++ closing method path response.2.1) ∧
      router.journaled.respond answer method path ⟨context, []⟩ =
        (⟨response.1, answer.params.writes ++ incidents⟩, response.2) := by
  have hplan : router.journaled.plan answer = router.plan answer := by cases answer <;> rfl
  have hattends := attends_plan router answer
  unfold respond
  rw [hplan, replayInto_journal]
  dsimp only
  generalize router.plan answer = plan at hattends
  obtain ⟨outcome, handler?⟩ := plan
  cases handler? with
  | none => exact ⟨none, outcome, [], hattends, .unattended, by simp⟩
  | some handler =>
      obtain ⟨incidents, course, shown⟩ := course_invoke router handler method path
        (answer.params.replayInto context) outcome answer.params.writes
      exact ⟨some handler, outcome, incidents, hattends, course, shown⟩

end Course

/-- The operation with the request only resolved where it would be served. -/
def unserved : Operation α γ → Operation α γ
  | .serve method path _ => .resolve method path
  | operation => operation

variable [Handler α γ] [ParamSink γ]

/-- An operation leaves the router as it is left when the request is only resolved. -/
theorem perform_unserved_state (router : Router α γ) (operation : Operation α γ) :
    (router.perform (unserved operation)).state = (router.perform operation).state := by
  cases operation with
  | serve method path context => exact (serve_state router method path context).symm
  | _ => rfl

/-- A session leaves the router as it is left when every request is only resolved. -/
theorem run_unserved_state (router : Router α γ) (operations : List (Operation α γ)) :
    (router.run (operations.map unserved)).state = (router.run operations).state := by
  induction operations generalizing router with
  | nil => rfl
  | cons operation operations ih =>
      rw [List.map_cons, run, run]
      dsimp only
      rw [perform_unserved_state, ih]

/-- Serving with a journal resolves as serving without one does, and shows the course that the
request takes. -/
theorem course_serve (router : Router α γ) (method path : String) (context : γ) :
    let resolved := router.resolve method path
    let served := router.serve method path context
    ∃ handler? outcome incidents own,
      Attends router.fallbacks resolved.answer handler? outcome ∧
      Course router.fallbacks method path (resolved.answer.params.replayInto context) outcome
        handler? incidents served.answer.1 served.answer.2 own ∧
      (router.journaled.serve method path ⟨context, []⟩).answer =
        (⟨served.answer.1, resolved.answer.params.writes ++ incidents⟩, served.answer.2) ∧
      served.events = resolved.events ++ own := by
  obtain ⟨handler?, outcome, incidents, attends, course, shown⟩ :=
    course_respond router (router.resolve method path).answer method path context
  have hresolve : router.journaled.resolve method path =
      (router.resolve method path).over (router.panicHandler.map PanicHandler.journaled) :=
    resolve_over router _ method path
  rw [serve_eq, serve_eq, hresolve]
  refine ⟨handler?, outcome, incidents, _, attends, course, ?_, List.append_assoc ..⟩
  dsimp only [Step.over]
  rw [shown]

theorem fallbacks_perform (router : Router α γ) (operation : Operation α γ) :
    (router.perform operation).state.fallbacks =
      ⟨(operation.sets? Fallback.notFound?).or router.notFound,
        (operation.sets? Fallback.methodNotAllowed?).or router.methodNotAllowed,
        (operation.sets? Fallback.globalOptions?).or router.globalOptions,
        (operation.sets? Fallback.panic?).or router.panicHandler⟩ := by
  cases operation with
  | handle method pattern handler =>
      show (router.handle method pattern handler).state.fallbacks = router.fallbacks
      rw [handle_eq]
      split <;> rfl
  | lookup method path => exact (quiet_lookup router method path).undisturbed.fallbacks
  | resolve method path => exact (quiet_resolve router method path).undisturbed.fallbacks
  | serve method path context => exact (undisturbed_serve router method path context).fallbacks
  | allowed path exclude => exact (quiet_allowed router path exclude).undisturbed.fallbacks
  | respell method path fix => rfl
  | clearCache => rfl
  | startSweeper runtime =>
      obtain ⟨⟨sweeper, hstate⟩, -⟩ := router.startSweeper_effect runtime
      show (router.startSweeper runtime).state.fallbacks = router.fallbacks
      rw [hstate]
      rfl
  | shutdown => exact congrArg (fun step => step.state.fallbacks) router.shutdown_eq
  | advance ms => exact (quiet_advance router ms).undisturbed.fallbacks
  | install fallback => cases fallback <;> rfl

/-- A session leaves the handlers that it set last, and those that were set before where it set
none. -/
theorem fallbacks_run (router : Router α γ) (operations : List (Operation α γ)) :
    (router.run operations).state.fallbacks =
      ⟨(installed operations).notFound.or router.notFound,
        (installed operations).methodNotAllowed.or router.methodNotAllowed,
        (installed operations).globalOptions.or router.globalOptions,
        (installed operations).panicHandler.or router.panicHandler⟩ := by
  induction operations generalizing router with
  | nil => rfl
  | cons operation operations ih =>
      have set := router.fallbacks_perform operation
      obtain ⟨notFound, methodNotAllowed, globalOptions, panicHandler⟩ := Fallbacks.mk.inj set
      rw [run]
      dsimp only
      rw [ih, notFound, methodNotAllowed, globalOptions, panicHandler]
      simp only [installed, getLast?_filterMap_cons, Option.or_assoc]

/-- What serving a request does, in a router that any session has led to.  The captured parameters
are written first, if a route takes the request, and then the request goes one of the courses with
the handler that attends to it, which is that of the route or was the last to be set for requests
like it.  A panic is reported once, in the words of its payload, and the request is reported as
resolved exactly if it ends with an outcome.  The router is left as resolving the request leaves
it; it was brought where it is by nothing that a handler did, since a session that resolves its
requests instead of serving them leads to the same router. -/
theorem panic_confined (config : RouterConfig) (operations : List (Operation α γ))
    (method path : String) (context : γ) :
    let router := ((Router.new config : Router α γ).run operations).state
    let set := installed operations
    let resolved := router.resolve method path
    let served := router.serve method path context
    let params := (resolved.answer.found?.map (·.2)).getD Params.empty
    let given := params.replayInto context
    ∃ handler? outcome incidents own,
      Attends set resolved.answer handler? outcome ∧
      Course set method path given outcome handler? incidents served.answer.1 served.answer.2
        own ∧
      (router.journaled.serve method path ⟨context, []⟩).answer =
        (⟨served.answer.1, params.writes ++ incidents⟩, served.answer.2) ∧
      served.events = resolved.events ++ own ∧
      (let panic? := handler?.bind fun handler => (Handler.call handler given).panic?
       (panicReports served.events).length = panic?.toList.length ∧
        ∀ payload, panic? = some payload → ∃ text, Words payload text ∧
          .handlerPanicked text method path set.panicHandler.isSome ∈ served.events) ∧
      ((∃ status, .requestResolved method path status ∈ served.events) ↔
        ∃ ending, served.answer.2 = .done ending) ∧
      served.state = resolved.state ∧
      router = ((Router.new config : Router α γ).run (operations.map unserved)).state := by
  intro router set resolved served params given
  have hset : router.fallbacks = set := by
    refine (fallbacks_run (Router.new config) operations).trans ?_
    simp only [Router.new, Option.or_none]
    rfl
  obtain ⟨handler?, outcome, incidents, own, attends, course, shown, events⟩ :=
    course_serve router method path context
  rw [hset] at attends course
  rw [RouteMatch.params_eq] at course shown
  have quiet : ∀ event ∈ resolved.events, event.aboutCache = true :=
    (quiet_resolve router method path).events
  refine ⟨handler?, outcome, incidents, own, attends, course, shown, events, ⟨?_, ?_⟩, ?_,
    serve_state router method path context, (run_unserved_state _ operations).symm⟩
  · have reports : panicReports served.events = panicReports own := by
      calc panicReports served.events
          = panicReports resolved.events ++ panicReports own := by
            rw [events]
            exact List.filter_append ..
        _ = panicReports own := by rw [panicReports_of_aboutCache quiet, List.nil_append]
    rw [reports]
    exact course.panics.1
  · intro payload panicked
    obtain ⟨text, words, inside⟩ := course.panics.2 payload panicked
    exact ⟨text, words, events ▸ List.mem_append_right _ inside⟩
  · rw [← course.resolved_iff, events]
    refine exists_congr fun status => ?_
    rw [List.mem_append, or_iff_right]
    exact fun inside => Bool.false_ne_true (quiet _ inside)

end Router

end RadixRouter
