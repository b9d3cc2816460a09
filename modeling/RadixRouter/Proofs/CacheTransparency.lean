/-
# The cache is invisible

Two routers whose configurations differ in nothing but the cache give the same replies to the
same operations, up to the note that an answer came from the cache and the number of entries
that a wipe drops; their events differ in those about the cache only.

The proof follows two runs side by side.  `Twins` relates the routers after every step: their
trees are equal, down to the names of the counters, and each cache is coherent with the trees,
whatever it stores.
-/

import RadixRouter.Proofs.Coherence

namespace RadixRouter

variable {α γ : Type}

/-- A configuration without what it says about the cache. -/
def RouterConfig.routing (config : RouterConfig) : RouterConfig := { config with cache := {} }

theorem RouterConfig.routing_eq_iff {config config' : RouterConfig} :
    config.routing = config'.routing ↔
      config.redirectTrailingSlash = config'.redirectTrailingSlash ∧
        config.redirectFixedPath = config'.redirectFixedPath ∧
          config.handleMethodNotAllowed = config'.handleMethodNotAllowed ∧
            config.handleOptions = config'.handleOptions := by
  simp [routing]

/-- A resolved request without the note of where the answer came from. -/
def RouteMatch.uncached : RouteMatch α → RouteMatch α
  | .found handler _ params => .found handler false params
  | answer => answer

/-- A reply without what it says about the cache. -/
def Reply.uncached : Reply α γ → Reply α γ
  | .lookedUp lookup => .lookedUp lookup.uncached
  | .resolved answer => .resolved answer.uncached
  | .cleared _ => .cleared 0
  | reply => reply

/-- The events that are not about the cache. -/
def routingEvents (events : List Event) : List Event := events.filter (!·.aboutCache)

theorem routingEvents_append (first second : List Event) :
    routingEvents (first ++ second) = routingEvents first ++ routingEvents second :=
  List.filter_append ..

namespace Router

theorem Quiet.routingEvents_eq {β : Type} {router : Router α γ} {step : Step (Router α γ) β}
    (quiet : router.Quiet step) : routingEvents step.events = [] := by
  rw [routingEvents, List.filter_eq_nil_iff]
  intro event hevent
  rw [quiet.events event hevent]
  decide

/-- Two routers that differ in their caches and clocks only, with the registrations they both
accepted. -/
structure Twins (log : List (Registration α)) (first second : Router α γ) : Prop where
  trees : first.trees = second.trees
  config : first.config.routing = second.config.routing
  notFound : first.notFound = second.notFound
  methodNotAllowed : first.methodNotAllowed = second.methodNotAllowed
  globalOptions : first.globalOptions = second.globalOptions
  panicHandler : first.panicHandler = second.panicHandler
  sweeping : first.sweeper.isSome = second.sweeper.isSome
  counters : first.cache.counters.length = second.cache.counters.length
  keeps : first.Keeps log
  keeps' : second.Keeps log

variable {log : List (Registration α)} {first second : Router α γ} {method path : String}

theorem Twins.of_undisturbed {first' second' : Router α γ} (twins : Twins log first second)
    (undisturbed : first.Undisturbed first') (undisturbed' : second.Undisturbed second') :
    Twins log first' second' where
  trees := undisturbed.trees.trans (twins.trees.trans undisturbed'.trees.symm)
  config := by
    rw [undisturbed.config, undisturbed'.config]
    exact twins.config
  notFound := undisturbed.notFound.trans (twins.notFound.trans undisturbed'.notFound.symm)
  methodNotAllowed := undisturbed.methodNotAllowed.trans
    (twins.methodNotAllowed.trans undisturbed'.methodNotAllowed.symm)
  globalOptions :=
    undisturbed.globalOptions.trans (twins.globalOptions.trans undisturbed'.globalOptions.symm)
  panicHandler :=
    undisturbed.panicHandler.trans (twins.panicHandler.trans undisturbed'.panicHandler.symm)
  sweeping := undisturbed.sweeping.trans (twins.sweeping.trans undisturbed'.sweeping.symm)
  counters := undisturbed.counters.trans (twins.counters.trans undisturbed'.counters.symm)
  keeps := twins.keeps.of_undisturbed undisturbed
  keeps' := twins.keeps'.of_undisturbed undisturbed'

/-- New routers that are configured alike but for the cache. -/
theorem twins_new (config : RouterConfig) (cache cache' : CacheConfig) :
    Twins [] (Router.new { config with cache } : Router α γ)
      (Router.new { config with cache := cache' }) :=
  ⟨rfl, rfl, rfl, rfl, rfl, rfl, rfl, rfl, keeps_new _, keeps_new _⟩

theorem Twins.lookup_answer (twins : Twins log first second) (method path : String) :
    (first.lookup method path).answer.uncached = (second.lookup method path).answer.uncached := by
  rw [Router.lookup_answer twins.keeps.coherent, Router.lookup_answer twins.keeps'.coherent,
    twins.trees]

theorem Twins.lookup_state (twins : Twins log first second) (method path : String) :
    Twins log (first.lookup method path).state (second.lookup method path).state :=
  twins.of_undisturbed (quiet_lookup first method path).undisturbed
    (quiet_lookup second method path).undisturbed

theorem Twins.matchingMethods_answer (twins : Twins log first second) (path : String)
    (methods : List String) :
    (first.matchingMethods path methods).answer = (second.matchingMethods path methods).answer := by
  induction methods generalizing first second with
  | nil => rfl
  | cons method methods ih =>
      obtain ⟨hhandler, -, -⟩ := Lookup.uncached_eq_iff.mp (twins.lookup_answer method path)
      rw [matchingMethods, matchingMethods]
      dsimp only
      rw [hhandler, ih (twins.lookup_state method path)]

theorem Twins.methods_eq (twins : Twins log first second) : first.methods = second.methods := by
  rw [methods, methods, twins.trees]

theorem Twins.allowed_answer (twins : Twins log first second) (path exclude : String) :
    (first.allowed path exclude).answer = (second.allowed path exclude).answer := by
  unfold allowed
  dsimp only
  rw [twins.methods_eq]
  split
  · rfl
  · exact congrArg allowText (twins.matchingMethods_answer path _)

theorem Twins.fallback_answer (twins : Twins log first second) (method path : String) :
    (first.fallback method path).answer = (second.fallback method path).answer := by
  obtain ⟨-, -, hmethods, hoptions⟩ := RouterConfig.routing_eq_iff.mp twins.config
  unfold fallback
  dsimp only
  rw [hoptions, hmethods]
  generalize (if method = "OPTIONS" then second.config.handleOptions
    else second.config.handleMethodNotAllowed) = wanted
  cases wanted with
  | true => rw [if_pos rfl, if_pos rfl, twins.allowed_answer]
  | false => rfl

theorem Twins.redirect_eq (twins : Twins log first second) (method path : String) (hint : Bool) :
    first.redirect? method path hint = second.redirect? method path hint := by
  obtain ⟨hslash, hfixed, -, -⟩ := RouterConfig.routing_eq_iff.mp twins.config
  unfold redirect? respelling?
  rw [hslash, hfixed, twins.trees]

theorem Twins.resolve_answer (twins : Twins log first second) (method path : String) :
    (first.resolve method path).answer.uncached =
      (second.resolve method path).answer.uncached := by
  obtain ⟨hhandler, hhint, hparams⟩ :=
    Lookup.uncached_eq_iff.mp (twins.lookup_answer method path)
  have hstate := twins.lookup_state method path
  rw [resolve_eq, resolve_eq, twins.trees]
  split
  · dsimp only
    rw [hhandler, hhint]
    cases (second.lookup method path).answer.handler with
    | some handler =>
        dsimp only
        rw [hparams]
        rfl
    | none =>
        dsimp only
        rw [hstate.redirect_eq]
        cases (second.lookup method path).state.redirect? method path
            (second.lookup method path).answer.trailingSlashRedirect with
        | some redirect => rfl
        | none => exact congrArg RouteMatch.uncached (hstate.fallback_answer method path)
  · exact congrArg RouteMatch.uncached (twins.fallback_answer method path)

/-- Two steps with replies that agree, from routers that are twins afterwards. -/
structure Agree (log : List (Registration α)) (step step' : Step (Router α γ) (Reply α γ)) :
    Prop where
  answers : step.answer.uncached = step'.answer.uncached
  events : routingEvents step.events = routingEvents step'.events
  twins : Twins log step.state step'.state

/-- Quiet steps with answers that are read alike agree. -/
theorem Twins.agree_of_quiet {β : Type} (twins : Twins log first second)
    {step step' : Step (Router α γ) β} {read : β → Reply α γ} (quiet : first.Quiet step)
    (quiet' : second.Quiet step')
    (answers : (read step.answer).uncached = (read step'.answer).uncached) :
    Agree log (step.reply read) (step'.reply read) where
  answers := answers
  events := quiet.routingEvents_eq.trans quiet'.routingEvents_eq.symm
  twins := twins.of_undisturbed quiet.undisturbed quiet'.undisturbed

theorem counters_trackUpTo (cache : ResultCache α) (n : Nat) :
    (cache.trackUpTo n).counters.length = max cache.counters.length n := by
  rw [ResultCache.trackUpTo, List.length_append, List.length_replicate]
  omega

/-- Twins answer a registration alike and remain twins. -/
theorem Twins.agree_handle (twins : Twins log first second) (method pattern : String)
    (handler : α) :
    Agree (log ++ first.logged method pattern handler)
      ((first.handle method pattern handler).reply .handled)
      ((second.handle method pattern handler).reply .handled) := by
  have hkeeps := twins.keeps.handle method pattern handler
  have hkeeps' := twins.keeps'.handle method pattern handler
  have hlogged : second.logged method pattern handler = first.logged method pattern handler := by
    rw [logged_eq, logged_eq, code?_handle, code?_handle, twins.trees, twins.counters]
  rw [hlogged] at hkeeps'
  rw [handle_eq] at hkeeps hkeeps' ⊢
  rw [handle_eq]
  rw [twins.trees, twins.counters] at hkeeps ⊢
  generalize (insertRoute (second.trees.get? method) pattern handler
    second.cache.counters.length).2 = verdict at hkeeps hkeeps' ⊢
  cases verdict with
  | error error =>
      exact ⟨rfl, rfl, ⟨rfl, twins.config, twins.notFound, twins.methodNotAllowed,
        twins.globalOptions, twins.panicHandler, twins.sweeping, twins.counters, hkeeps, hkeeps'⟩⟩
  | ok used =>
      refine ⟨rfl, rfl, ⟨rfl, twins.config, twins.notFound, twins.methodNotAllowed,
        twins.globalOptions, twins.panicHandler, twins.sweeping, ?_, hkeeps, hkeeps'⟩⟩
      exact (counters_trackUpTo _ _).trans
        ((congrArg (max · used) twins.counters).trans (counters_trackUpTo _ _).symm)

theorem Agree.append_nil {step step' : Step (Router α γ) (Reply α γ)}
    (agree : Agree log step step') : Agree (log ++ []) step step' := by
  rw [List.append_nil]
  exact agree

/-- A sweeper starts in both, at its own period. -/
theorem Twins.agree_startSweeper (twins : Twins log first second) (runtime : Option Runtime) :
    Agree log ((first.startSweeper runtime).reply .sweeping)
      ((second.startSweeper runtime).reply .sweeping) := by
  unfold startSweeper
  rw [twins.sweeping]
  split
  · exact ⟨rfl, rfl, twins⟩
  · cases runtime with
    | none => exact ⟨rfl, rfl, twins⟩
    | some runtime =>
        exact ⟨rfl, rfl, ⟨twins.trees, twins.config, twins.notFound, twins.methodNotAllowed,
          twins.globalOptions, twins.panicHandler, rfl, twins.counters,
          ⟨twins.keeps.registers, twins.keeps.coherent⟩,
          ⟨twins.keeps'.registers, twins.keeps'.coherent⟩⟩⟩

theorem Twins.agree_shutdown (twins : Twins log first second) :
    Agree log (first.shutdown.reply fun _ => .done) (second.shutdown.reply fun _ => .done) := by
  rw [shutdown_eq, shutdown_eq, twins.sweeping]
  exact ⟨rfl, rfl, ⟨twins.trees, twins.config, twins.notFound, twins.methodNotAllowed,
    twins.globalOptions, twins.panicHandler, rfl, twins.counters,
    ⟨twins.keeps.registers, twins.keeps.coherent⟩,
    ⟨twins.keeps'.registers, twins.keeps'.coherent⟩⟩⟩

/-- Twins are given the same fallback handlers. -/
theorem Twins.install (twins : Twins log first second) (fallback : Fallback α γ) :
    Twins log (first.install fallback) (second.install fallback) := by
  obtain ⟨trees, config, notFound, methodNotAllowed, globalOptions, panicHandler, sweeping,
    counters, ⟨registers, coherent⟩, ⟨registers', coherent'⟩⟩ := twins
  cases fallback with
  | notFound handler =>
      exact ⟨trees, config, rfl, methodNotAllowed, globalOptions, panicHandler, sweeping,
        counters, ⟨registers, coherent⟩, ⟨registers', coherent'⟩⟩
  | methodNotAllowed handler =>
      exact ⟨trees, config, notFound, rfl, globalOptions, panicHandler, sweeping,
        counters, ⟨registers, coherent⟩, ⟨registers', coherent'⟩⟩
  | globalOptions handler =>
      exact ⟨trees, config, notFound, methodNotAllowed, rfl, panicHandler, sweeping,
        counters, ⟨registers, coherent⟩, ⟨registers', coherent'⟩⟩
  | panic recover =>
      exact ⟨trees, config, notFound, methodNotAllowed, globalOptions, rfl, sweeping,
        counters, ⟨registers, coherent⟩, ⟨registers', coherent'⟩⟩

theorem params_uncached (answer : RouteMatch α) : answer.uncached.params = answer.params := by
  cases answer <;> rfl

theorem plan_uncached (router : Router α γ) (answer : RouteMatch α) :
    router.plan answer.uncached = router.plan answer := by
  cases answer <;> rfl

theorem Twins.plan_eq (twins : Twins log first second) (answer : RouteMatch α) :
    first.plan answer = second.plan answer := by
  cases answer with
  | found handler cached params => rfl
  | redirect redirect => rfl
  | options allow => rw [plan, plan, twins.globalOptions]
  | methodNotAllowed allow => rw [plan, plan, twins.methodNotAllowed]
  | notFound => rw [plan, plan, twins.notFound]

variable [Handler α γ]

theorem Twins.invoke_eq (twins : Twins log first second) (handler : α) (method path : String)
    (context : γ) (outcome : Outcome) :
    first.invoke handler method path context outcome =
      second.invoke handler method path context outcome := by
  unfold invoke
  rw [twins.panicHandler]

variable [ParamSink γ]

/-- What serving a resolved request gives beyond the resolution. -/
def respond (router : Router α γ) (answer : RouteMatch α) (method path : String) (context : γ) :
    γ × Served × List Event :=
  let context := answer.params.replayInto context
  let (outcome, handler?) := router.plan answer
  match handler? with
  | some handler => router.invoke handler method path context outcome
  | none => (context, .done outcome, [])

/-- The event that closes a request. -/
def closing (method path : String) : Served → List Event
  | .done outcome => [Event.requestResolved method path outcome.status.code]
  | _ => []

theorem serve_eq (router : Router α γ) (method path : String) (context : γ) :
    router.serve method path context =
      let resolved := router.resolve method path
      let response := router.respond resolved.answer method path context
      ⟨(response.1, response.2.1), resolved.state,
        resolved.events ++ response.2.2 ++ closing method path response.2.1⟩ := by
  unfold serve
  rw [resolveInto_eq]
  rfl

theorem Twins.respond_eq (twins : Twins log first second) {answer answer' : RouteMatch α}
    (same : answer.uncached = answer'.uncached) (method path : String) (context : γ) :
    first.respond answer method path context = second.respond answer' method path context := by
  unfold respond
  rw [← params_uncached answer, ← plan_uncached first answer, same, params_uncached, plan_uncached,
    twins.plan_eq]
  dsimp only
  cases (second.plan answer').2 with
  | none => rfl
  | some handler => exact twins.invoke_eq handler method path _ _

/-- Twins serve a request alike and remain twins. -/
theorem Twins.agree_serve (twins : Twins log first second) (method path : String)
    (context : γ) :
    Agree log
      ((first.serve method path context).reply fun answer => .served answer.1 answer.2)
      ((second.serve method path context).reply fun answer => .served answer.1 answer.2) := by
  have hresolve := quiet_resolve first method path
  have hresolve' := quiet_resolve second method path
  have hrespond := twins.respond_eq (twins.resolve_answer method path) method path context
  rw [serve_eq, serve_eq]
  dsimp only
  rw [hrespond]
  refine ⟨rfl, ?_, twins.of_undisturbed hresolve.undisturbed hresolve'.undisturbed⟩
  show routingEvents (_ ++ _ ++ _) = routingEvents (_ ++ _ ++ _)
  rw [routingEvents_append, routingEvents_append, routingEvents_append, routingEvents_append,
    hresolve.routingEvents_eq, hresolve'.routingEvents_eq]

/-- Twins reply alike to every operation and remain twins. -/
theorem Twins.agree_perform (twins : Twins log first second) (operation : Operation α γ) :
    Agree (log ++ first.acceptedBy operation) (first.perform operation)
      (second.perform operation) := by
  cases operation with
  | handle method pattern handler => exact twins.agree_handle method pattern handler
  | lookup method path =>
      apply Agree.append_nil
      exact twins.agree_of_quiet (quiet_lookup first method path) (quiet_lookup second method path)
        (congrArg Reply.lookedUp (twins.lookup_answer method path))
  | resolve method path =>
      apply Agree.append_nil
      exact twins.agree_of_quiet (quiet_resolve first method path)
        (quiet_resolve second method path)
        (congrArg Reply.resolved (twins.resolve_answer method path))
  | serve method path context => exact (twins.agree_serve method path context).append_nil
  | allowed path exclude =>
      apply Agree.append_nil
      exact twins.agree_of_quiet (quiet_allowed first path exclude)
        (quiet_allowed second path exclude)
        (congrArg Reply.allow (twins.allowed_answer path exclude))
  | respell method path fix =>
      refine Agree.append_nil ⟨?_, rfl, twins⟩
      show Reply.spelling (first.respelling? method path fix) =
        Reply.spelling (second.respelling? method path fix)
      rw [respelling?, respelling?, twins.trees]
  | clearCache =>
      apply Agree.append_nil
      exact twins.agree_of_quiet (quiet_clearCache first) (quiet_clearCache second) rfl
  | startSweeper runtime => exact (twins.agree_startSweeper runtime).append_nil
  | shutdown => exact twins.agree_shutdown.append_nil
  | advance ms =>
      have agree : Agree log ((first.advance ms).reply fun _ => Reply.done)
          ((second.advance ms).reply fun _ => Reply.done) :=
        twins.agree_of_quiet (quiet_advance first ms) (quiet_advance second ms) rfl
      exact agree.append_nil
  | install fallback =>
      have agree : Agree log (first.perform (.install fallback))
          (second.perform (.install fallback)) := ⟨rfl, rfl, twins.install fallback⟩
      exact agree.append_nil

/-- Twins reply alike to every sequence of operations. -/
theorem Twins.agree_run (twins : Twins log first second) (operations : List (Operation α γ)) :
    (first.run operations).answer.map Reply.uncached =
        (second.run operations).answer.map Reply.uncached ∧
      routingEvents (first.run operations).events =
        routingEvents (second.run operations).events := by
  induction operations generalizing first second log with
  | nil => exact ⟨rfl, rfl⟩
  | cons operation operations ih =>
      have agree := twins.agree_perform operation
      obtain ⟨hanswers, hevents⟩ := ih agree.twins
      apply And.intro
      · rw [run, run, List.map_cons, List.map_cons, agree.answers, hanswers]
      · rw [run, run, routingEvents_append, routingEvents_append, agree.events, hevents]

/-- Two routers whose configurations differ in the cache only reply alike to every sequence of
operations, up to the note that an answer was cached and the size of a wipe, and report alike,
up to events about the cache. -/
theorem cache_invisible (config : RouterConfig) (cache cache' : CacheConfig)
    (operations : List (Operation α γ)) :
    let one := (Router.new { config with cache } : Router α γ).run operations
    let other := (Router.new { config with cache := cache' } : Router α γ).run operations
    one.answer.map Reply.uncached = other.answer.map Reply.uncached ∧
      routingEvents one.events = routingEvents other.events :=
  (twins_new config cache cache').agree_run operations

end Router

end RadixRouter
