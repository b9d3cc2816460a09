/-
# Handlers and outcomes

A handler updates a request context and then ends normally or panics with a payload.  The
router never looks into contexts; it writes captured parameters to them and passes them on.
-/

import RadixRouter.Params

namespace RadixRouter

/-- What a panic carries. -/
inductive Payload where
  /-- Text of the program. -/
  | literal (text : String)
  /-- Text made for the panic. -/
  | owned (text : String)
  /-- A value that is not text. -/
  | other
deriving DecidableEq

/-- The text by which a panic is reported. -/
def Payload.message : Payload → String
  | .literal text => text
  | .owned text => text
  | .other => "non-string panic payload"

/-- A run of user code: the context it leaves, and the payload if it panicked. -/
structure Run (γ : Type) where
  context : γ
  panic? : Option Payload

/-- Values of type `α` act as handlers of contexts of type `γ`. -/
class Handler (α γ : Type) where
  call : α → γ → Run γ

/-- Called with the context as a panicking handler left it; may itself panic. -/
abbrev PanicHandler (γ : Type) := γ → Payload → Run γ

/-- The response statuses a router implies. -/
inductive Status where
  | ok | movedPermanently | temporaryRedirect | notFound | methodNotAllowed | internalError
deriving DecidableEq

/-- The number of a status. -/
def Status.code : Status → Nat
  | .ok => 200
  | .movedPermanently => 301
  | .temporaryRedirect => 307
  | .notFound => 404
  | .methodNotAllowed => 405
  | .internalError => 500

/-- Why a redirect is proposed. -/
inductive RedirectKind where
  /-- Only the path with its final slash toggled is registered. -/
  | trailingSlash
  /-- The clean path is registered in another spelling. -/
  | fixedPath
deriving DecidableEq

/-- A proposed redirect. -/
structure Redirect where
  location : String
  status : Status
  kind : RedirectKind
deriving DecidableEq

/-- How a request ended. -/
inductive Outcome where
  | handled
  /-- The handler panicked and the panic handler took over. -/
  | recovered
  | redirect (redirect : Redirect)
  | options (allow : String)
  | methodNotAllowed (allow : String)
  | notFound
deriving DecidableEq

namespace Outcome

/-- The status an outcome implies. -/
def status : Outcome → Status
  | .handled => .ok
  | .recovered => .internalError
  | .redirect proposed => proposed.status
  | .options _ => .ok
  | .methodNotAllowed _ => .methodNotAllowed
  | .notFound => .notFound

/-- The methods to name in the response, where the outcome is about methods. -/
def allow? : Outcome → Option String
  | .options allow => some allow
  | .methodNotAllowed allow => some allow
  | _ => none

end Outcome

end RadixRouter
