/-
# Events

What a router and its tools report about themselves while they work.  Every event has a
level, a message and named fields; the standard kinds also have a stable name.
-/

namespace RadixRouter

/-- How important an event is, least important first. -/
inductive Level where
  | debug | info | warn | error
deriving DecidableEq

/-- The name of a level. -/
def Level.name : Level → String
  | .debug => "DEBUG"
  | .info => "INFO"
  | .warn => "WARN"
  | .error => "ERROR"

/-- The rank of a level: a filter at one rank lets all ranks from it on pass. -/
def Level.rank : Level → Nat
  | .debug => 1
  | .info => 2
  | .warn => 3
  | .error => 4

/-- Something worth reporting. -/
inductive Event where
  | startup (service version : String)
  | routesLoaded (routes methods : Nat)
  | routeRejected (method path code error : String)
  | invalidMethod (method path : String)
  | cachePromoted (method path : String) (hits : UInt32)
  | cacheSwept (entriesCleared : Nat)
  | handlerPanicked (message method path : String) (recovered : Bool)
  | requestResolved (method path : String) (status : Nat)
  | routeRegistered (method path : String)
  | sweeperStarted (periodMs : UInt64)
  | sweeperStopped
deriving DecidableEq

/-- The value of a field. -/
inductive FieldValue where
  /-- Text, quoted in readable output. -/
  | quoted (text : String)
  /-- Text that readable output shows as it is. -/
  | bare (text : String)
  | number (n : Nat)
  | flag (b : Bool)
deriving DecidableEq

namespace Event

/-- The standard names, in the order in which a reader meets them. -/
def standardNames : List String :=
  ["startup", "routes_loaded", "route_rejected", "cache_promoted", "cache_swept",
    "handler_panicked", "request_resolved"]

/-- The standard name of an event, if it has one. -/
def name? : Event → Option String
  | .startup .. => some "startup"
  | .routesLoaded .. => some "routes_loaded"
  | .routeRejected .. => some "route_rejected"
  | .invalidMethod .. => some "route_rejected"
  | .cachePromoted .. => some "cache_promoted"
  | .cacheSwept _ => some "cache_swept"
  | .handlerPanicked .. => some "handler_panicked"
  | .requestResolved .. => some "request_resolved"
  | .routeRegistered .. => none
  | .sweeperStarted _ => none
  | .sweeperStopped => none

/-- The level of an event. -/
def level : Event → Level
  | .startup .. => .info
  | .routesLoaded .. => .info
  | .routeRejected .. => .warn
  | .invalidMethod .. => .warn
  | .cachePromoted .. => .debug
  | .cacheSwept _ => .debug
  | .handlerPanicked .. => .error
  | .requestResolved .. => .debug
  | .routeRegistered .. => .debug
  | .sweeperStarted _ => .debug
  | .sweeperStopped => .debug

/-- The part of the program that reports an event. -/
def target : Event → String
  | .startup .. => "trellis"
  | .routesLoaded .. => "trellis_lib::route_table"
  | .routeRejected .. => "trellis_lib::route_table"
  | .invalidMethod .. => "trellis_lib::route_table"
  | .cachePromoted .. => "trellis_router::router"
  | .cacheSwept _ => "trellis_router::cache"
  | .handlerPanicked .. => "trellis_router::router"
  | .requestResolved .. => "trellis_router::router"
  | .routeRegistered .. => "trellis_router::router"
  | .sweeperStarted _ => "trellis_router::router"
  | .sweeperStopped => "trellis_router::cache"

/-- The message of an event; a panic is reported in its own words. -/
def message : Event → String
  | .startup .. => "trellis starting"
  | .routesLoaded .. => "route table registered"
  | .routeRejected .. => "route rejected"
  | .invalidMethod .. => "invalid method"
  | .cachePromoted .. => "lookup result cached"
  | .cacheSwept _ => "result cache wiped"
  | .handlerPanicked message .. => message
  | .requestResolved .. => "request resolved"
  | .routeRegistered .. => "route registered"
  | .sweeperStarted _ => "cache sweeper started"
  | .sweeperStopped => "cache sweeper stopped"

/-- The fields of an event besides its name and message, in reporting order. -/
def fields : Event → List (String × FieldValue)
  | .startup service version => [("service", .bare service), ("version", .quoted version)]
  | .routesLoaded routes methods => [("routes", .number routes), ("methods", .number methods)]
  | .routeRejected method path code error =>
    [("method", .bare method), ("path", .bare path), ("code", .quoted code),
      ("error", .bare error)]
  | .invalidMethod method path => [("method", .bare method), ("path", .bare path)]
  | .cachePromoted method path hits =>
    [("method", .quoted method), ("path", .quoted path), ("hits", .number hits.toNat)]
  | .cacheSwept entriesCleared => [("entries_cleared", .number entriesCleared)]
  | .handlerPanicked _ method path recovered =>
    [("method", .quoted method), ("path", .quoted path), ("recovered", .flag recovered)]
  | .requestResolved method path status =>
    [("method", .quoted method), ("path", .quoted path), ("status", .number status)]
  | .routeRegistered method path => [("method", .quoted method), ("path", .quoted path)]
  | .sweeperStarted periodMs => [("period_ms", .number periodMs.toNat)]
  | .sweeperStopped => []

end Event

/-- What an operation gives: its answer, the state afterwards, and the events it reports,
oldest first. -/
structure Step (σ β : Type) where
  answer : β
  state : σ
  events : List Event

end RadixRouter
