/-
# Captured parameters

A match captures one name and value for every wildcard of its pattern, in pattern order.
`Params` keeps them as captured, repeated names included.  Where they go is a matter of the
caller's `ParamSink`: a list keeps them all, a map keeps the last value of each name, and
`Discard` keeps none.
-/

import RadixRouter.StringMap
import RadixRouter.Text.Utf8

namespace RadixRouter

/-- Captured parameters in pattern order. -/
structure Params where
  toList : List (String × String)
deriving DecidableEq

/-- A destination for captured parameters. -/
class ParamSink (σ : Type) where
  /-- Takes one parameter. -/
  setParam : σ → (name value : String) → σ

namespace Params

/-- No parameters. -/
def empty : Params := ⟨[]⟩

/-- The parameters with one more at the end. -/
def push (params : Params) (name value : String) : Params := ⟨params.toList ++ [(name, value)]⟩

/-- The value of the first parameter with a name. -/
def get? (params : Params) (name : String) : Option String :=
  (params.toList.find? (·.1 = name)).map (·.2)

/-- The number of parameters. -/
def size (params : Params) : Nat := params.toList.length

/-- Whether there are none. -/
def isEmpty (params : Params) : Bool := params.toList.isEmpty

/-- The parameters of a match given by bytes. -/
def ofCaptures (captures : List (List UInt8 × List UInt8)) : Params :=
  ⟨captures.map fun (name, value) => (Utf8.decodeLossy name, Utf8.decodeLossy value)⟩

/-- Writes every parameter to a sink, in order. -/
def replayInto {σ : Type} [ParamSink σ] (params : Params) (sink : σ) : σ :=
  params.toList.foldl (fun sink (name, value) => ParamSink.setParam sink name value) sink

end Params

instance : ParamSink Params := ⟨Params.push⟩

instance : ParamSink (StringMap String) := ⟨StringMap.insert⟩

/-- A sink that keeps nothing. -/
structure Discard where

instance : ParamSink Discard := ⟨fun sink _ _ => sink⟩

end RadixRouter
