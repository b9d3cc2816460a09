/-
# The look-ups that operations make

Resolving a request looks it up, and may go on to look the path up under other methods; an `Allow`
value is made of look-ups alone.  `Router.requests` lists what an operation looks up, in order, and
as far as the router's state and reports go, the operation is nothing but these look-ups.

`Router.history` lists, for a whole run, every look-up with its answer and its report, and every
wipe of the cache.  What a router has cached and counted is read off its recent history, the
look-ups since the last wipe.
-/

import Mathlib.Data.List.DropRight
import RadixRouter.Proofs.AllowLists
import RadixRouter.Proofs.CacheTransparency

namespace RadixRouter

variable {α γ : Type}

/-- Whether an event reports that a result is stored. -/
def Event.isPromotion : Event → Bool
  | .cachePromoted .. => true
  | _ => false

theorem isPromotion_of_aboutCache {event : Event} (other : event.aboutCache = false) :
    event.isPromotion = false := by
  cases event <;> first | rfl | cases other

/-- Whether an operation looks requests up. -/
def Operation.looks : Operation α γ → Bool
  | .lookup .. => true
  | .resolve .. => true
  | .serve .. => true
  | .allowed .. => true
  | _ => false

/-- A look-up as it was asked, answered and reported, or a wipe of the cache. -/
inductive Moment (α : Type) where
  | lookup (method path : String) (answer : Lookup α) (events : List Event)
  | wipe

namespace Moment

/-- Whether this is a look-up. -/
def isLookup : Moment α → Bool
  | .lookup .. => true
  | .wipe => false

/-- What was reported. -/
def events : Moment α → List Event
  | .lookup _ _ _ events => events
  | .wipe => []

/-- The look-ups since the last wipe. -/
def recent (history : List (Moment α)) : List (Moment α) := history.rtakeWhile Moment.isLookup

theorem recent_append_lookup (history : List (Moment α)) (method path : String)
    (answer : Lookup α) (events : List Event) :
    recent (history ++ [.lookup method path answer events]) =
      recent history ++ [.lookup method path answer events] :=
  List.rtakeWhile_concat_pos _ _ _ rfl

theorem recent_append_wipe (history : List (Moment α)) : recent (history ++ [.wipe]) = [] :=
  List.rtakeWhile_concat_neg _ _ _ Bool.false_ne_true

end Moment

namespace Router

variable {router : Router α γ} {method path exclude : String}

/-- Looks requests up in order. -/
def lookUpAll (router : Router α γ) :
    List (String × String) → Step (Router α γ) (List (Moment α))
  | [] => ⟨[], router, []⟩
  | (method, path) :: requests =>
    let looked := router.lookup method path
    let rest := looked.state.lookUpAll requests
    ⟨.lookup method path looked.answer looked.events :: rest.answer, rest.state,
      looked.events ++ rest.events⟩

/-- The requests that an `Allow` value looks up. -/
def allowedRequests (router : Router α γ) (path exclude : String) : List (String × String) :=
  if path = "*" then [] else (askable exclude router.methods).map (·, path)

/-- The requests that are looked up for a request that no route of its method takes. -/
def fallbackRequests (router : Router α γ) (method path : String) : List (String × String) :=
  if (if method = "OPTIONS" then router.config.handleOptions
    else router.config.handleMethodNotAllowed) then router.allowedRequests path method
  else []

/-- The requests that are looked up to resolve a request. -/
def resolveRequests (router : Router α γ) (method path : String) : List (String × String) :=
  if router.trees.contains method then
    let looked := router.lookup method path
    (method, path) ::
      match looked.answer.handler,
        looked.state.redirect? method path looked.answer.trailingSlashRedirect with
      | none, none => looked.state.fallbackRequests method path
      | _, _ => []
  else router.fallbackRequests method path

/-- The requests that an operation looks up. -/
def requests (router : Router α γ) : Operation α γ → List (String × String)
  | .lookup method path => [(method, path)]
  | .resolve method path => router.resolveRequests method path
  | .serve method path _ => router.resolveRequests method path
  | .allowed path exclude => router.allowedRequests path exclude
  | _ => []

/-- A step changes what looking these requests up does.  It reports what that does, and then
nothing about the cache. -/
structure LooksUp {β : Type} (router : Router α γ) (requests : List (String × String))
    (step : Step (Router α γ) β) : Prop where
  state : step.state = (router.lookUpAll requests).state
  events : ∃ others : List Event, (∀ event ∈ others, event.aboutCache = false) ∧
    step.events = (router.lookUpAll requests).events ++ others

theorem looksUp_nothing {β : Type} (router : Router α γ) (answer : β) :
    router.LooksUp [] ⟨answer, router, []⟩ := ⟨rfl, [], nofun, rfl⟩

theorem LooksUp.reply {β : Type} {requests : List (String × String)} {step : Step (Router α γ) β}
    (looks : router.LooksUp requests step) (read : β → Reply α γ) :
    router.LooksUp requests (step.reply read) := ⟨looks.state, looks.events⟩

theorem looksUp_lookup (router : Router α γ) (method path : String) :
    router.LooksUp [(method, path)] (router.lookup method path) := by
  refine ⟨rfl, [], nofun, ?_⟩
  rw [lookUpAll, lookUpAll, List.append_nil, List.append_nil]

/-- A look-up followed by steps that look requests up. -/
theorem LooksUp.cons {β δ : Type} {requests : List (String × String)} {answer : δ}
    {step : Step (Router α γ) β}
    (later : (router.lookup method path).state.LooksUp requests step) :
    router.LooksUp ((method, path) :: requests)
      ⟨answer, step.state, (router.lookup method path).events ++ step.events⟩ := by
  obtain ⟨hstate, others, hothers, hevents⟩ := later
  refine ⟨hstate, others, hothers, ?_⟩
  rw [lookUpAll, hevents, List.append_assoc]

theorem looksUp_matchingMethods (router : Router α γ) (path : String) (methods : List String) :
    router.LooksUp (methods.map (·, path)) (router.matchingMethods path methods) := by
  induction methods generalizing router with
  | nil => exact router.looksUp_nothing []
  | cons method methods ih => exact (ih _).cons

theorem looksUp_allowed (router : Router α γ) (path exclude : String) :
    router.LooksUp (router.allowedRequests path exclude) (router.allowed path exclude) := by
  unfold allowed allowedRequests
  dsimp only
  split
  · exact router.looksUp_nothing _
  · have matching := looksUp_matchingMethods router path (askable exclude router.methods)
    exact ⟨matching.state, matching.events⟩

theorem looksUp_fallback (router : Router α γ) (method path : String) :
    router.LooksUp (router.fallbackRequests method path) (router.fallback method path) := by
  have listed := looksUp_allowed router path method
  unfold fallback fallbackRequests
  dsimp only
  generalize (if method = "OPTIONS" then router.config.handleOptions
    else router.config.handleMethodNotAllowed) = wanted
  cases wanted with
  | true => exact ⟨listed.state, listed.events⟩
  | false => exact router.looksUp_nothing _

theorem looksUp_resolve (router : Router α γ) (method path : String) :
    router.LooksUp (router.resolveRequests method path) (router.resolve method path) := by
  have looked := looksUp_lookup router method path
  rw [resolve_eq, resolveRequests]
  split
  · dsimp only
    cases (router.lookup method path).answer.handler with
    | some handler => exact ⟨looked.state, looked.events⟩
    | none =>
        cases (router.lookup method path).state.redirect? method path
            (router.lookup method path).answer.trailingSlashRedirect with
        | some target => exact ⟨looked.state, looked.events⟩
        | none => exact (looksUp_fallback _ method path).cons
  · exact looksUp_fallback router method path

theorem quiet_lookUpAll (router : Router α γ) (requests : List (String × String)) :
    router.Quiet (router.lookUpAll requests) := by
  induction requests generalizing router with
  | nil => exact ⟨Undisturbed.refl router, nofun⟩
  | cons request requests ih => exact (quiet_lookup router _ _).append (ih _)

/-- What survives a look-up survives any number of them. -/
theorem lookUpAll_induction {law : Router α γ → Prop}
    (step : ∀ router method path, law router → law (router.lookup method path).state)
    (start : law router) (requests : List (String × String)) :
    law (router.lookUpAll requests).state := by
  induction requests generalizing router with
  | nil => exact start
  | cons request requests ih => exact ih (step router _ _ start)

/-- Every look-up is in the answer with what it reported, and nothing else is reported. -/
theorem events_lookUpAll (router : Router α γ) (requests : List (String × String)) :
    (router.lookUpAll requests).events =
      (router.lookUpAll requests).answer.flatMap Moment.events := by
  induction requests generalizing router with
  | nil => rfl
  | cons request requests ih =>
      rw [lookUpAll, List.flatMap_cons, ← ih]
      rfl

/-- A look-up reports at most that its result is stored. -/
theorem events_lookup (router : Router α γ) (method path : String) :
    ∀ event ∈ (router.lookup method path).events,
      ∃ hits, event = .cachePromoted method path hits := by
  cases lookup_effect router method path with
  | idle state events =>
      rw [events]
      exact nofun
  | counted handler captures counter found state events =>
      rw [events]
      unfold countHit
      dsimp only
      split
      · intro event hevent
        exact ⟨_, List.mem_singleton.mp hevent⟩
      · exact nofun

/-- Looking requests up reports the results that are stored, and nothing else. -/
theorem promotions_lookUpAll (router : Router α γ) (requests : List (String × String)) :
    (router.lookUpAll requests).events.filter Event.isPromotion =
      (router.lookUpAll requests).answer.flatMap Moment.events := by
  rw [← events_lookUpAll, List.filter_eq_self]
  induction requests generalizing router with
  | nil => exact nofun
  | cons request requests ih =>
      intro event hevent
      rcases List.mem_append.mp hevent with h | h
      · obtain ⟨hits, rfl⟩ := events_lookup _ _ _ event h
        rfl
      · exact ih _ event h

theorem LooksUp.promotions {β : Type} {requests : List (String × String)}
    {step : Step (Router α γ) β} (looks : router.LooksUp requests step) :
    step.events.filter Event.isPromotion =
      (router.lookUpAll requests).answer.flatMap Moment.events := by
  obtain ⟨-, others, hothers, hevents⟩ := looks
  have hnone : others.filter Event.isPromotion = [] := by
    rw [List.filter_eq_nil_iff]
    intro event hevent
    rw [isPromotion_of_aboutCache (hothers event hevent)]
    exact Bool.false_ne_true
  rw [hevents, List.filter_append, hnone, List.append_nil, promotions_lookUpAll]

section Serve

variable [Handler α γ]

/-- Running handlers is not about the cache. -/
theorem aboutCache_invoke (router : Router α γ) (handler : α) (method path : String)
    (context : γ) (outcome : Outcome) :
    ∀ event ∈ (router.invoke handler method path context outcome).2.2,
      event.aboutCache = false := by
  unfold invoke
  dsimp only
  split
  · exact nofun
  · split
    · intro event hevent
      rw [List.mem_singleton.mp hevent]
      rfl
    · split <;>
      · intro event hevent
        rw [List.mem_singleton.mp hevent]
        rfl

variable [ParamSink γ]

theorem aboutCache_respond (router : Router α γ) (answer : RouteMatch α) (method path : String)
    (context : γ) :
    ∀ event ∈ (router.respond answer method path context).2.2, event.aboutCache = false := by
  unfold respond
  dsimp only
  split
  · exact aboutCache_invoke router _ method path _ _
  · exact nofun

theorem aboutCache_closing (method path : String) (served : Served) :
    ∀ event ∈ closing method path served, event.aboutCache = false := by
  unfold closing
  split
  · intro event hevent
    rw [List.mem_singleton.mp hevent]
    rfl
  · exact nofun

/-- Serving a request looks up what resolving it does. -/
theorem looksUp_serve (router : Router α γ) (method path : String) (context : γ) :
    router.LooksUp (router.resolveRequests method path) (router.serve method path context) := by
  rw [serve_eq]
  obtain ⟨hstate, others, hothers, hevents⟩ := looksUp_resolve router method path
  let response := router.respond (router.resolve method path).answer method path context
  refine ⟨hstate, others ++ (response.2.2 ++ closing method path response.2.1), ?_, ?_⟩
  · intro event hevent
    rcases List.mem_append.mp hevent with h | h
    · exact hothers event h
    rcases List.mem_append.mp h with h | h
    · exact aboutCache_respond router _ method path context event h
    · exact aboutCache_closing method path _ event h
  · rw [← List.append_assoc, ← hevents, ← List.append_assoc]

/-- An operation that looks requests up does no more. -/
theorem looksUp_perform (router : Router α γ) {operation : Operation α γ}
    (looks : operation.looks = true) :
    router.LooksUp (router.requests operation) (router.perform operation) := by
  cases operation with
  | lookup method path => exact (looksUp_lookup router method path).reply _
  | resolve method path => exact (looksUp_resolve router method path).reply _
  | serve method path context =>
      exact (looksUp_serve router method path context).reply fun answer =>
        .served answer.1 answer.2
  | allowed path exclude => exact (looksUp_allowed router path exclude).reply _
  | _ => cases looks

end Serve

/-- The look-ups and wipes of one operation. -/
def moments (router : Router α γ) : Operation α γ → List (Moment α)
  | .clearCache => [.wipe]
  | .advance ms => List.replicate (router.wipesDue ms) .wipe
  | operation => (router.lookUpAll (router.requests operation)).answer

section Run

variable [Handler α γ] [ParamSink γ]

/-- The look-ups and wipes of a run, in order. -/
def history (router : Router α γ) : List (Operation α γ) → List (Moment α)
  | [] => []
  | operation :: operations =>
    router.moments operation ++ (router.perform operation).state.history operations

end Run

/-- Every look-up in a sequence is made where those before it have led. -/
theorem lookUpAll_split {requests : List (String × String)} {before after : List (Moment α)}
    {answer : Lookup α} {events : List Event}
    (split : (router.lookUpAll requests).answer =
      before ++ .lookup method path answer events :: after) :
    ∃ earlier, (router.lookUpAll earlier).answer = before ∧
      answer = ((router.lookUpAll earlier).state.lookup method path).answer ∧
      events = ((router.lookUpAll earlier).state.lookup method path).events := by
  induction requests generalizing router before with
  | nil => exact absurd split.symm (List.append_ne_nil_of_right_ne_nil _ (List.cons_ne_nil _ _))
  | cons request requests ih =>
      rw [lookUpAll] at split
      cases before with
      | nil =>
          cases split
          exact ⟨[], rfl, rfl, rfl⟩
      | cons moment before =>
          obtain ⟨rfl, hrest⟩ := List.cons.inj split
          obtain ⟨earlier, hbefore, hlooked⟩ := ih hrest
          exact ⟨request :: earlier, congrArg _ hbefore, hlooked⟩

/-- The look-ups of an operation are look-ups in a sequence. -/
theorem moments_split {operation : Operation α γ} {before after : List (Moment α)}
    {answer : Lookup α} {events : List Event}
    (split : router.moments operation = before ++ .lookup method path answer events :: after) :
    router.moments operation = (router.lookUpAll (router.requests operation)).answer := by
  have inside : Moment.lookup method path answer events ∈ router.moments operation := by
    rw [split]
    exact List.mem_append_right _ List.mem_cons_self
  cases operation with
  | clearCache => cases List.mem_singleton.mp inside
  | advance ms => cases List.eq_of_mem_replicate inside
  | _ => rfl

section Run

variable [Handler α γ] [ParamSink γ]

/-- Looking requests up one by one, as operations of their own. -/
theorem run_lookups (router : Router α γ) (requests : List (String × String)) :
    let operations := requests.map fun request => Operation.lookup request.1 request.2
    router.history operations = (router.lookUpAll requests).answer ∧
      (router.run operations).state = (router.lookUpAll requests).state := by
  induction requests generalizing router with
  | nil => exact ⟨rfl, rfl⟩
  | cons request requests ih =>
      obtain ⟨hhistory, hstate⟩ := ih (router.lookup request.1 request.2).state
      exact ⟨congrArg _ hhistory, hstate⟩

/-- Every look-up of a history is made by a reachable router, with the history up to there. -/
theorem lookup_of_history {operations : List (Operation α γ)} {before after : List (Moment α)}
    {answer : Lookup α} {events : List Event}
    (split : router.history operations =
      before ++ .lookup method path answer events :: after) :
    ∃ earlier, router.history earlier = before ∧
      answer = ((router.run earlier).state.lookup method path).answer ∧
      events = ((router.run earlier).state.lookup method path).events := by
  induction operations generalizing router before with
  | nil => exact absurd split.symm (List.append_ne_nil_of_right_ne_nil _ (List.cons_ne_nil _ _))
  | cons operation operations ih =>
      rw [history] at split
      -- the look-up belongs to a later operation, or to this one
      rcases List.append_eq_append_iff.mp split with ⟨rest, rfl, hrest⟩ | ⟨rest, hmoments, hrest⟩
      · obtain ⟨earlier, hbefore, hlooked⟩ := ih hrest
        exact ⟨operation :: earlier, congrArg _ hbefore, hlooked⟩
      · cases rest with
        | nil =>
            rw [List.append_nil] at hmoments
            have hsplit : _ = [] ++ .lookup method path answer events :: after := hrest.symm
            obtain ⟨earlier, hbefore, hlooked⟩ := ih hsplit
            refine ⟨operation :: earlier, ?_, hlooked⟩
            rw [history, hbefore, hmoments, List.append_nil]
        | cons moment rest =>
            obtain ⟨rfl, -⟩ := List.cons.inj hrest
            rw [moments_split hmoments] at hmoments
            obtain ⟨earlier, hbefore, hlooked⟩ := lookUpAll_split hmoments
            obtain ⟨hhistory, hstate⟩ := router.run_lookups earlier
            refine ⟨_, hhistory.trans hbefore, ?_⟩
            rw [hstate]
            exact hlooked

/-- An operation reports of stored results what its look-ups do. -/
theorem promotions_perform (router : Router α γ) (operation : Operation α γ) :
    (router.perform operation).events.filter Event.isPromotion =
      (router.moments operation).flatMap Moment.events := by
  cases operation with
  | handle method pattern handler =>
      show (router.handle method pattern handler).events.filter _ = []
      rw [handle_eq]
      split <;> rfl
  | lookup | resolve | serve | allowed => exact (router.looksUp_perform rfl).promotions
  | respell method path fix => rfl
  | clearCache => rfl
  | startSweeper runtime =>
      show (router.startSweeper runtime).events.filter _ = []
      rw [List.filter_eq_nil_iff]
      intro event hevent
      obtain ⟨ms, rfl⟩ := (router.startSweeper_effect runtime).2 event hevent
      exact Bool.false_ne_true
  | shutdown =>
      show router.shutdown.events.filter _ = []
      rw [shutdown_eq]
      split <;> rfl
  | advance ms =>
      have hwipes : (List.replicate (router.wipesDue ms) (Moment.wipe : Moment α)).flatMap
          Moment.events = [] := by
        rw [List.flatMap_eq_nil_iff]
        intro moment hmoment
        rw [List.eq_of_mem_replicate hmoment]
        rfl
      show (router.advance ms).events.filter _ = _
      rw [moments, hwipes, List.filter_eq_nil_iff]
      intro event hevent
      obtain ⟨cleared, rfl⟩ := (router.events_advance ms).2 event hevent
      exact Bool.false_ne_true
  | install fallback => rfl

/-- A run reports of stored results what its look-ups do. -/
theorem promotions_run (router : Router α γ) (operations : List (Operation α γ)) :
    (router.run operations).events.filter Event.isPromotion =
      (router.history operations).flatMap Moment.events := by
  induction operations generalizing router with
  | nil => rfl
  | cons operation operations ih =>
      rw [run, history, List.flatMap_append, ← ih, ← promotions_perform]
      exact List.filter_append ..

end Run

end Router

end RadixRouter
