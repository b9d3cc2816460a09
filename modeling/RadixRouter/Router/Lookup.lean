/-
# Looking a request up

A look-up consults the result cache and then walks the tree of the method.  A walk that
ends in a route counts one hit on the deepest wildcard of that route; once the count is
past the threshold, the result is stored.
-/

import RadixRouter.Router.Basic

namespace RadixRouter

/-- The answer to a look-up. -/
structure Lookup (α : Type) where
  handler : Option α
  /-- No route matched, but one does with the final slash toggled. -/
  trailingSlashRedirect : Bool
  /-- The answer came from the result cache. -/
  cached : Bool
  /-- What is written to the caller's sink: nothing unless a route matched. -/
  params : Params

/-- The answer when no route matches. -/
def Lookup.miss {α : Type} (hint : Bool) : Lookup α := ⟨none, hint, false, Params.empty⟩

namespace Router

variable {α γ : Type}

/-- The stored result of a request, when caching is on. -/
def cached? (router : Router α γ) (method path : String) : Option (CacheEntry α) :=
  if router.config.cache.enabled then router.cache.get? method path else none

/-- Counts a hit on a wildcard node and stores the result once it is hot. -/
def countHit (router : Router α γ) (method path : String) (handler : α) (params : Params)
    (counter : CounterId) : Router α γ × List Event :=
  let cache := router.cache.bump counter
  let hits := cache.hitsOf counter
  if router.config.cache.enabled && router.config.cache.promotionThreshold < hits then
    ({ router with cache := cache.put method path ⟨some handler, false, params⟩ },
      [.cachePromoted method path hits])
  else ({ router with cache }, [])

/-- Looks up the handler of a request, and writes the parameters to a sink if there is one. -/
def lookupInto {σ : Type} [ParamSink σ] (router : Router α γ) (method path : String) (sink : σ) :
    Step (Router α γ) (Lookup α × σ) :=
  match router.cached? method path with
  | some entry =>
    if entry.handler.isSome then
      let sink := entry.params.replayInto sink
      ⟨(⟨entry.handler, entry.hint, true, entry.params⟩, sink), router, []⟩
    else ⟨(⟨entry.handler, entry.hint, true, Params.empty⟩, sink), router, []⟩
  | none =>
    match router.trees.get? method with
    | none => ⟨(Lookup.miss false, sink), router, []⟩
    | some tree =>
      match tree.find (Utf8.encode path) with
      | .missed hint => ⟨(Lookup.miss hint, sink), router, []⟩
      | .found handler captures deepest =>
        let params := Params.ofCaptures captures
        let sink := params.replayInto sink
        let answer : Lookup α := ⟨some handler, false, false, params⟩
        match deepest with
        | none => ⟨(answer, sink), router, []⟩
        | some counter =>
          let (router, events) := router.countHit method path handler params counter
          ⟨(answer, sink), router, events⟩

/-- Looks up the handler of a request for a caller that keeps no parameters. -/
def lookup (router : Router α γ) (method path : String) : Step (Router α γ) (Lookup α) :=
  let looked := router.lookupInto method path Discard.mk
  ⟨looked.answer.1, looked.state, looked.events⟩

/-- A look-up without a sink, case by case. -/
theorem lookup_eq (router : Router α γ) (method path : String) :
    router.lookup method path =
      match router.cached? method path with
      | some entry =>
        let params := if entry.handler.isSome then entry.params else Params.empty
        ⟨⟨entry.handler, entry.hint, true, params⟩, router, []⟩
      | none =>
        match router.trees.get? method with
        | none => ⟨Lookup.miss false, router, []⟩
        | some tree =>
          match tree.find (Utf8.encode path) with
          | .missed hint => ⟨Lookup.miss hint, router, []⟩
          | .found handler captures deepest =>
            let params := Params.ofCaptures captures
            let answer : Lookup α := ⟨some handler, false, false, params⟩
            match deepest with
            | none => ⟨answer, router, []⟩
            | some counter =>
              let (router, events) := router.countHit method path handler params counter
              ⟨answer, router, events⟩ := by
  unfold lookup lookupInto
  cases router.cached? method path with
  | some entry => rcases entry with ⟨_ | handler, hint, params⟩ <;> rfl
  | none =>
      cases router.trees.get? method with
      | none => rfl
      | some tree =>
          dsimp only
          rcases tree.find (Utf8.encode path) with ⟨handler, captures, _ | counter⟩ | hint <;> rfl

/-- Whatever the sink, a look-up gives the same answer and leaves the same router, and it writes
the parameters of its answer, in order. -/
theorem lookupInto_eq {σ : Type} [ParamSink σ] (router : Router α γ) (method path : String)
    (sink : σ) :
    router.lookupInto method path sink =
      let looked := router.lookup method path
      ⟨(looked.answer, looked.answer.params.replayInto sink), looked.state, looked.events⟩ := by
  rw [lookup_eq]
  unfold lookupInto
  cases router.cached? method path with
  | some entry => rcases entry with ⟨_ | handler, hint, params⟩ <;> rfl
  | none =>
      cases router.trees.get? method with
      | none => rfl
      | some tree =>
          dsimp only
          rcases tree.find (Utf8.encode path) with ⟨handler, captures, _ | counter⟩ | hint <;> rfl

/-- A look-up that finds nothing has no parameters to write. -/
theorem params_of_missed {router : Router α γ} {method path : String}
    (missed : (router.lookup method path).answer.handler = none) :
    (router.lookup method path).answer.params = Params.empty := by
  rw [lookup_eq] at missed ⊢
  revert missed
  cases router.cached? method path with
  | some entry => rcases entry with ⟨_ | handler, hint, params⟩ <;> simp
  | none =>
      cases router.trees.get? method with
      | none => exact fun _ => rfl
      | some tree =>
          dsimp only
          rcases tree.find (Utf8.encode path) with ⟨handler, captures, _ | counter⟩ | hint
          · exact fun h => by cases h
          · exact fun h => by cases h
          · exact fun _ => rfl

/-- The registered spelling of a path under a method, see `Node.respelling?`. -/
def respelling? (router : Router α γ) (method path : String) (fix : Bool) : Option String :=
  (router.trees.get? method).bind (·.respelling? path fix)

/-- Looks a path up under several methods, in order; answers those under which it has a
route. -/
def matchingMethods (router : Router α γ) (path : String) :
    List String → Step (Router α γ) (List String)
  | [] => ⟨[], router, []⟩
  | method :: methods =>
    let looked := router.lookup method path
    let rest := looked.state.matchingMethods path methods
    ⟨if looked.answer.handler.isSome then method :: rest.answer else rest.answer,
      rest.state, looked.events ++ rest.events⟩

/-- The text of a list of methods in an `Allow` header: `OPTIONS` comes last, and nothing is
said when there is no other method. -/
def allowText (methods : List String) : String :=
  if methods.isEmpty then "" else ", ".intercalate (methods ++ ["OPTIONS"])

/-- The `Allow` value of a path: the methods other than `OPTIONS` and an excluded one that
have a route for it.  The path `*`, asked for `OPTIONS`, stands for every route. -/
def allowed (router : Router α γ) (path exclude : String) : Step (Router α γ) String :=
  if path = "*" then
    let methods := if exclude = "OPTIONS" then router.methods.filter (· ≠ "OPTIONS") else []
    ⟨allowText methods, router, []⟩
  else
    let candidates := router.methods.filter fun method => method ≠ exclude && method ≠ "OPTIONS"
    let matching := router.matchingMethods path candidates
    ⟨allowText matching.answer, matching.state, matching.events⟩

end Router

end RadixRouter
