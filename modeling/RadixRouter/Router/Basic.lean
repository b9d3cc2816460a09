/-
# Routers

A router keeps one route tree per method, the result cache, the schedule of its wipes and
the fallback handlers.  Every operation is a `Step`: an answer, the router afterwards, and
the events it reports.
-/

import RadixRouter.CleanPath
import RadixRouter.Config
import RadixRouter.Event
import RadixRouter.Handler
import RadixRouter.RouteError
import RadixRouter.Sweeper
import RadixRouter.Text.Quoted
import RadixRouter.Tree.Insert
import RadixRouter.Tree.Respell
import RadixRouter.Tree.Search

namespace RadixRouter

/-- A router for handlers of type `α` and request contexts of type `γ`. -/
structure Router (α γ : Type) where
  config : RouterConfig
  /-- The routes of each method that has any. -/
  trees : StringMap (Node α)
  cache : ResultCache α
  sweeper : Option Sweeper
  notFound : Option α
  methodNotAllowed : Option α
  globalOptions : Option α
  panicHandler : Option (PanicHandler γ)

namespace Router

variable {α γ : Type}

/-- A router without routes. -/
def new (config : RouterConfig) : Router α γ :=
  { config, trees := StringMap.empty, cache := ResultCache.empty, sweeper := none,
    notFound := none, methodNotAllowed := none, globalOptions := none, panicHandler := none }

/-- The methods that have a route, in order. -/
def methods (router : Router α γ) : List String := router.trees.keys

/-- The refusal of a pattern because of a clash in its tree.  The text of the route in the
way is the part of the pattern already placed, followed by the text below. -/
def refusal (pattern : String) : Clash → RouteError
  | .duplicate => .duplicateRoute pattern
  | .wildcard rest segment existing =>
    .conflictingWildcard pattern (Utf8.decodeLossy segment) (inTheWay rest existing)
  | .catchAll rest existing => .catchAllConflictsWithChildren pattern (inTheWay rest existing)
where
  inTheWay (rest : List Token) (existing : List UInt8) : String :=
    let bytes := Utf8.encode pattern
    let placed := bytes.take (bytes.length - (Pattern.bytes rest).length)
    Utf8.decodeLossy placed ++ Utf8.decodeLossy existing

/-- Adds a route to the tree of its method.  A faulty pattern does not touch the tree. -/
def insertRoute (tree : Option (Node α)) (pattern : String) (handler : α) (fresh : CounterId) :
    Option (Node α) × Except RouteError CounterId :=
  let bytes := Utf8.encode pattern
  match Pattern.fault? bytes with
  | some fault => (tree, .error (.ofFault pattern fault))
  | none =>
    match tree with
    | none =>
      let (node, fresh') := Node.ofTokens handler (Pattern.tokens bytes) fresh
      (some node, .ok fresh')
    | some node =>
      let grafted := node.insert handler fresh (Pattern.tokens bytes)
      (some grafted.tree, grafted.verdict.mapError (refusal pattern))

/-- Registers a handler for the requests of a method whose path matches a pattern. -/
def handle (router : Router α γ) (method pattern : String) (handler : α) :
    Step (Router α γ) (Except RouteError Unit) :=
  let fresh := router.cache.counters.length
  let (tree, verdict) := insertRoute (router.trees.get? method) pattern handler fresh
  let trees := match tree with
    | some node => router.trees.insert method node
    | none => router.trees
  match verdict with
  | .ok used =>
    ⟨.ok (), { router with trees, cache := router.cache.trackUpTo used },
      [.routeRegistered method pattern]⟩
  | .error error => ⟨.error error, { router with trees }, []⟩

/-- Statistics of the result cache. -/
def cacheStats (router : Router α γ) : CacheStats := router.cache.stats

/-- Wipes the result cache; answers how many entries it held. -/
def clearCache (router : Router α γ) : Step (Router α γ) Nat :=
  let (cache, cleared) := router.cache.wipe
  ⟨cleared, { router with cache }, []⟩

/-- The state of a router in one line. -/
def describe (router : Router α γ) : String :=
  let flag (b : Bool) : String := if b then "true" else "false"
  let record (name : String) (fields : List (String × String)) (dots : String) : String :=
    name ++ " \x7b " ++ ", ".intercalate (fields.map fun (key, value) => key ++ ": " ++ value) ++
      dots ++ " \x7d"
  let config := router.config
  let stats := router.cacheStats
  record "Router"
    [("methods", "[" ++ ", ".intercalate (router.methods.map Quoted.quote) ++ "]"),
      ("config", record "RouterConfig"
        [("redirect_trailing_slash", flag config.redirectTrailingSlash),
          ("redirect_fixed_path", flag config.redirectFixedPath),
          ("handle_method_not_allowed", flag config.handleMethodNotAllowed),
          ("handle_options", flag config.handleOptions),
          ("cache", record "CacheConfig"
            [("enabled", flag config.cache.enabled),
              ("promotion_threshold", toString config.cache.promotionThreshold.toNat),
              ("sweep_interval_ms", toString config.cache.sweepIntervalMs.toNat)] "")] ""),
      ("cache", record "CacheStats"
        [("entries", toString stats.entries),
          ("tracked_counters", toString stats.trackedCounters),
          ("sweeps", toString stats.sweeps)] ""),
      ("sweeper_running", flag router.sweeper.isSome)] ", .."

end Router

end RadixRouter
