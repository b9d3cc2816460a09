/-
# Scripted handlers

Handlers given by data, for trying a router out.  A scripted handler notes its name in the
record of the request and then ends normally or panics as scripted.
-/

import RadixRouter.Handler

namespace RadixRouter

/-- A handler with a name that may be told to panic. -/
structure Scripted where
  name : String
  panic? : Option Payload

/-- What happened to a request: the parameters it was given and the names of its handlers. -/
structure Record where
  params : Params
  visits : List String

namespace Record

/-- The record of a request that has not been served. -/
def empty : Record := ⟨Params.empty, []⟩

/-- Notes one visit. -/
def visit (record : Record) (name : String) : Record :=
  { record with visits := record.visits ++ [name] }

end Record

instance : ParamSink Record :=
  ⟨fun record name value => { record with params := record.params.push name value }⟩

instance : Handler Scripted Record :=
  ⟨fun handler record => ⟨record.visit handler.name, handler.panic?⟩⟩

/-- A panic handler that notes what it recovered from, and may panic in turn. -/
def Scripted.recovery (panics : Bool) : PanicHandler Record := fun record payload =>
  let said := match payload with
    | .literal text => text
    | .owned text => text
    | .other => "?"
  ⟨record.visit ("recovered: " ++ said), if panics then some (.owned ("again: " ++ said)) else none⟩

end RadixRouter
