/-
# How a request resolves against a route table

The answer to "what would happen to this request", as text and as JSON.
-/

import RadixRouter.RouteTable

namespace RadixRouter

/-- What a router would do with a request. -/
inductive Resolution where
  | found (route pattern : String) (params : Params) (cached : Bool)
  | redirect (proposed : Redirect)
  | options (allow : String)
  | methodNotAllowed (allow : String)
  | notFound

namespace Resolution

/-- Describes the resolution of a request to a route of a table. -/
def ofMatch : RouteMatch RouteSpec → Resolution
  | .found route cached params => .found route.label route.path params cached
  | .redirect proposed => .redirect proposed
  | .options allow => .options allow
  | .methodNotAllowed allow => .methodNotAllowed allow
  | .notFound => .notFound

/-- The status the router implies. -/
def status : Resolution → Status
  | .found .. => .ok
  | .redirect proposed => proposed.status
  | .options _ => .ok
  | .methodNotAllowed _ => .methodNotAllowed
  | .notFound => .notFound

/-- Why a redirect is proposed, in words. -/
def reason : RedirectKind → String
  | .trailingSlash => "trailing slash"
  | .fixedPath => "fixed path"

/-- A resolution in words; each parameter has a line of its own. -/
def describe (resolution : Resolution) : String :=
  toString resolution.status.code ++ " " ++
    match resolution with
    | .found route pattern params _ =>
      route ++ " (" ++ pattern ++ ")" ++
        String.join (params.toList.map fun (name, value) => "\n  " ++ name ++ " = " ++ value)
    | .redirect proposed =>
      "redirect to " ++ proposed.location ++ " (" ++ reason proposed.kind ++ ")"
    | .options allow => "options, Allow: " ++ allow
    | .methodNotAllowed allow => "method not allowed, Allow: " ++ allow
    | .notFound => "not found"

/-- A resolution as a result. -/
def toJson (resolution : Resolution) : Json :=
  let status : String × Json := ("status", .nat resolution.status.code)
  match resolution with
  | .found route pattern params cached =>
    .obj
      [("outcome", .str "found"), status, ("route", .str route), ("pattern", .str pattern),
        ("params", .arr (params.toList.map fun (name, value) =>
          .obj [("name", .str name), ("value", .str value)])),
        ("cached", .bool cached)]
  | .redirect proposed =>
    .obj
      [("outcome", .str "redirect"), status, ("location", .str proposed.location),
        ("reason", .str (reason proposed.kind))]
  | .options allow => .obj [("outcome", .str "options"), status, ("allow", .str allow)]
  | .methodNotAllowed allow =>
    .obj [("outcome", .str "method_not_allowed"), status, ("allow", .str allow)]
  | .notFound => .obj [("outcome", .str "not_found"), status]

end Resolution

/-- Describes how a request resolves. -/
def Router.explain {γ : Type} (router : Router RouteSpec γ) (method path : String) :
    Step (Router RouteSpec γ) Resolution :=
  let resolved := router.resolve method path
  ⟨.ofMatch resolved.answer, resolved.state, resolved.events⟩

end RadixRouter
