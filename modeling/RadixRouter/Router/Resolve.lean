/-
# Resolving a request

A request is resolved without running a handler.  In order of preference: an exact match; a
redirect to the path with its final slash toggled; a redirect to the clean path in
registered spelling; an automatic `OPTIONS` answer; the methods that would match; not found.
`CONNECT` requests and the path `/` are never redirected.
-/

import RadixRouter.Router.Lookup

namespace RadixRouter

/-- How a request resolves. -/
inductive RouteMatch (α : Type) where
  | found (handler : α) (cached : Bool) (params : Params)
  | redirect (redirect : Redirect)
  | options (allow : String)
  | methodNotAllowed (allow : String)
  | notFound

/-- The parameters that resolving a request writes to the caller's sink. -/
def RouteMatch.params {α : Type} : RouteMatch α → Params
  | .found _ _ params => params
  | _ => Params.empty

/-- A path with its final slash removed, or with one added when it has none or is a lone
slash. -/
def toggleSlash (path : String) : String :=
  match path.toList.reverse with
  | '/' :: c :: rest => String.ofList (c :: rest).reverse
  | _ => path ++ "/"

namespace Router

variable {α γ : Type}

/-- The redirect to propose for a request without a route, if any. -/
def redirect? (router : Router α γ) (method path : String) (hint : Bool) : Option Redirect :=
  if method = "CONNECT" ∨ path = "/" then none
  else
    let status := if method = "GET" then Status.movedPermanently else Status.temporaryRedirect
    if hint && router.config.redirectTrailingSlash then
      some ⟨toggleSlash path, status, .trailingSlash⟩
    else if router.config.redirectFixedPath then
      (router.respelling? method (cleanPath path) router.config.redirectTrailingSlash).map
        (⟨·, status, .fixedPath⟩)
    else none

/-- The answer to a request that no route of its method takes. -/
def fallback (router : Router α γ) (method path : String) : Step (Router α γ) (RouteMatch α) :=
  let wanted :=
    if method = "OPTIONS" then router.config.handleOptions
    else router.config.handleMethodNotAllowed
  if wanted then
    let listed := router.allowed path method
    let answer : RouteMatch α :=
      if listed.answer = "" then .notFound
      else if method = "OPTIONS" then .options listed.answer
      else .methodNotAllowed listed.answer
    ⟨answer, listed.state, listed.events⟩
  else ⟨.notFound, router, []⟩

/-- Resolves a request, and writes the parameters to a sink if a route takes it. -/
def resolveInto {σ : Type} [ParamSink σ] (router : Router α γ) (method path : String) (sink : σ) :
    Step (Router α γ) (RouteMatch α × σ) :=
  if router.trees.contains method then
    let looked := router.lookupInto method path sink
    let (answer, sink) := looked.answer
    match answer.handler with
    | some handler =>
      ⟨(.found handler answer.cached answer.params, sink), looked.state, looked.events⟩
    | none =>
      match looked.state.redirect? method path answer.trailingSlashRedirect with
      | some redirect => ⟨(.redirect redirect, sink), looked.state, looked.events⟩
      | none =>
        let rest := looked.state.fallback method path
        ⟨(rest.answer, sink), rest.state, looked.events ++ rest.events⟩
  else
    let rest := router.fallback method path
    ⟨(rest.answer, sink), rest.state, rest.events⟩

/-- Resolves a request for a caller that keeps no parameters. -/
def resolve (router : Router α γ) (method path : String) : Step (Router α γ) (RouteMatch α) :=
  let resolved := router.resolveInto method path Discard.mk
  ⟨resolved.answer.1, resolved.state, resolved.events⟩

/-- A resolution without a sink, case by case. -/
theorem resolve_eq (router : Router α γ) (method path : String) :
    router.resolve method path =
      if router.trees.contains method then
        let looked := router.lookup method path
        match looked.answer.handler with
        | some handler =>
          ⟨.found handler looked.answer.cached looked.answer.params, looked.state, looked.events⟩
        | none =>
          match looked.state.redirect? method path looked.answer.trailingSlashRedirect with
          | some redirect => ⟨.redirect redirect, looked.state, looked.events⟩
          | none =>
            let rest := looked.state.fallback method path
            ⟨rest.answer, rest.state, looked.events ++ rest.events⟩
      else router.fallback method path := by
  unfold resolve resolveInto
  rw [lookupInto_eq]
  split
  · dsimp only
    cases (router.lookup method path).answer.handler with
    | some handler => rfl
    | none =>
        dsimp only
        cases (router.lookup method path).state.redirect? method path
          (router.lookup method path).answer.trailingSlashRedirect <;> rfl
  · rfl

/-- A request that no route takes has no parameters. -/
theorem params_fallback (router : Router α γ) (method path : String) :
    (router.fallback method path).answer.params = Params.empty := by
  unfold fallback
  dsimp only
  generalize (if method = "OPTIONS" then router.config.handleOptions
    else router.config.handleMethodNotAllowed) = wanted
  cases wanted with
  | false => rfl
  | true =>
      rw [if_pos rfl]
      dsimp only
      split
      · rfl
      · split <;> rfl

/-- Whatever the sink, a request resolves alike, and the parameters of its route are written.  All
other look-ups on the way, those for the `Allow` value too, write nothing to it. -/
theorem resolveInto_eq {σ : Type} [ParamSink σ] (router : Router α γ) (method path : String)
    (sink : σ) :
    router.resolveInto method path sink =
      let resolved := router.resolve method path
      ⟨(resolved.answer, resolved.answer.params.replayInto sink), resolved.state,
        resolved.events⟩ := by
  rw [resolve_eq]
  unfold resolveInto
  rw [lookupInto_eq]
  split
  · dsimp only
    cases hhandler : (router.lookup method path).answer.handler with
    | some handler => rfl
    | none =>
        rw [params_of_missed hhandler]
        dsimp only
        cases (router.lookup method path).state.redirect? method path
            (router.lookup method path).answer.trailingSlashRedirect with
        | some redirect => rfl
        | none =>
            dsimp only
            rw [params_fallback]
  · dsimp only
    rw [params_fallback]
    rfl

end Router

end RadixRouter
