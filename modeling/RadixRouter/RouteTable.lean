/-
# Route tables

A route table is a document with a router configuration and a list of routes.  `build`
registers the routes in order and stops at the first that is refused; `check` registers
them all and lists every refusal.  Which texts are methods is not decided here: both are given
the test as `isMethod`.
-/

import RadixRouter.Document.Config
import RadixRouter.Document.Tree
import RadixRouter.Router.Resolve

namespace RadixRouter

/-- One route of a table. -/
structure RouteSpec where
  method : String
  path : String
  name : Option String
deriving DecidableEq

/-- Method and path of a route. -/
def RouteSpec.describe (route : RouteSpec) : String := route.method ++ " " ++ route.path

/-- The name of a route, or method and path when it has none. -/
def RouteSpec.label (route : RouteSpec) : String := route.name.getD route.describe

/-- A configuration and routes. -/
structure RouteTable where
  router : RouterConfig
  routes : List RouteSpec
deriving DecidableEq

/-- Why a table cannot be used. -/
inductive TableError where
  /-- The file cannot be read. -/
  | unreadable (reason : String)
  /-- The text is no route table. -/
  | malformed
  | invalidMethod (method path : String)
  | registration (method path : String) (cause : RouteError)
deriving DecidableEq

namespace TableError

/-- The stable code of an error. -/
def code : TableError → String
  | .unreadable _ => "R1000"
  | .malformed => "R1009"
  | .invalidMethod .. => "R1010"
  | .registration _ _ cause => cause.code

/-- The text of an error. -/
def message : TableError → String
  | .unreadable reason => "failed to read route table: " ++ reason
  | .malformed => "failed to parse route table"
  | .invalidMethod method path => "invalid method '" ++ method ++ "' for path '" ++ path ++ "'"
  | .registration method path cause => method ++ " " ++ path ++ ": " ++ cause.message

/-- The text of an error followed by the texts of its causes. -/
def chain : TableError → List String
  | .unreadable reason => [message (.unreadable reason), reason]
  | .registration method path cause =>
    [message (.registration method path cause), cause.message]
  | error => [error.message]

/-- Method and path of the route that an error is about. -/
def location? : TableError → Option String
  | .invalidMethod method path => some (method ++ " " ++ path)
  | .registration method path _ => some (method ++ " " ++ path)
  | _ => none

end TableError

namespace RouteTable

/-- Text with the letters `a` to `z` in upper case. -/
def upperAscii (s : String) : String := String.ofList (s.toList.map Char.toUpper)

/-- One route; its method is written in upper case. -/
def routeOfDocument? (document : Document) : Option RouteSpec := do
  let fields ← Dialect.table.fields? ["method", "path", "name"] document
  let method ← requiredField fields "method" Document.text?
  let path ← requiredField fields "path" Document.text?
  let name ← fieldOr fields "name" Document.optionalText? none
  return ⟨upperAscii method, path, name⟩

/-- A table. -/
def ofDocument? (document : Document) : Option RouteTable := do
  let fields ← Dialect.table.fields? ["router", "routes"] document
  let router ← fieldOr fields "router" (RouterConfig.ofDocument? .table) {}
  let routes ← fieldOr fields "routes" (fun list => do
    (← Dialect.table.items? list).mapM routeOfDocument?) []
  return ⟨router, routes⟩

/-- The table that a text holds. -/
def ofText (source : String) : Except TableError RouteTable :=
  match (Document.ofText? source).bind ofDocument? with
  | some table => .ok table
  | none => .error .malformed

/-- Registers one route. -/
def register {γ : Type} (isMethod : String → Bool) (router : Router RouteSpec γ)
    (route : RouteSpec) : Step (Router RouteSpec γ) (Except TableError Unit) :=
  if isMethod route.method then
    let handled := router.handle route.method route.path route
    match handled.answer with
    | .ok _ => ⟨.ok (), handled.state, handled.events⟩
    | .error cause =>
      ⟨.error (.registration route.method route.path cause), handled.state,
        handled.events ++
          [.routeRejected route.method route.path cause.code cause.message]⟩
  else
    ⟨.error (.invalidMethod route.method route.path), router,
      [.invalidMethod route.method route.path]⟩

/-- Registers routes in order, up to the first refusal. -/
def registerUntil {γ : Type} (isMethod : String → Bool) (router : Router RouteSpec γ) :
    List RouteSpec → Step (Router RouteSpec γ) (Except TableError Unit)
  | [] => ⟨.ok (), router, []⟩
  | route :: routes =>
    let first := register isMethod router route
    match first.answer with
    | .error error => ⟨.error error, first.state, first.events⟩
    | .ok _ =>
      let rest := registerUntil isMethod first.state routes
      ⟨rest.answer, rest.state, first.events ++ rest.events⟩

/-- Registers routes in order and lists the refusals. -/
def registerAll {γ : Type} (isMethod : String → Bool) (router : Router RouteSpec γ) :
    List RouteSpec → Step (Router RouteSpec γ) (List TableError)
  | [] => ⟨[], router, []⟩
  | route :: routes =>
    let first := register isMethod router route
    let rest := registerAll isMethod first.state routes
    let errors := match first.answer with
      | .error error => error :: rest.answer
      | .ok _ => rest.answer
    ⟨errors, rest.state, first.events ++ rest.events⟩

/-- Routers of tables run no handlers, so their requests have no context. -/
abbrev TableRouter := Router RouteSpec Unit

/-- The router of a table, or the first refusal, and what was reported on the way. -/
def build (isMethod : String → Bool) (table : RouteTable) :
    Except TableError TableRouter × List Event :=
  let registered := registerUntil isMethod (Router.new table.router : TableRouter) table.routes
  match registered.answer with
  | .error error => (.error error, registered.events)
  | .ok _ =>
    let router := registered.state
    (.ok router,
      registered.events ++ [.routesLoaded table.routes.length router.methods.length])

/-- Every refusal of a table, and what was reported on the way. -/
def check (isMethod : String → Bool) (table : RouteTable) : List TableError × List Event :=
  let registered := registerAll isMethod (Router.new table.router : TableRouter) table.routes
  (registered.answer, registered.events)

end RouteTable

/-- A route as a result. -/
def RouteSpec.toJson (route : RouteSpec) : Json :=
  .obj ([("method", .str route.method), ("path", .str route.path)] ++
    match route.name with
    | some name => [("name", .str name)]
    | none => [])

/-- A table as a result. -/
def RouteTable.toJson (table : RouteTable) : Json :=
  .obj [("router", table.router.toJson), ("routes", .arr (table.routes.map RouteSpec.toJson))]

end RadixRouter
