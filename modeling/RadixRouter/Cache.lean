/-
# The result cache

Results of hot paths are stored under method and literal path, so that a hit skips the walk
through the tree.  Every wildcard node has a hit counter; the counters live here, so that
one wipe drops every entry and resets every counter.
-/

import RadixRouter.Params

namespace RadixRouter

/-- A stored result: the handler, the final-slash hint, and the parameters of the path the
entry is stored under. -/
structure CacheEntry (α : Type) where
  handler : Option α
  hint : Bool
  params : Params

/-- What is known about a cache. -/
structure CacheStats where
  /-- Stored results. -/
  entries : Nat
  /-- Hit counters in use. -/
  trackedCounters : Nat
  /-- Wipes so far, modulo the width of a counter. -/
  sweeps : UInt64
deriving DecidableEq

/-- Stored results by method and path, the hit counters in order of creation, and the
number of wipes so far. -/
structure ResultCache (α : Type) where
  entries : StringMap (StringMap (CacheEntry α))
  counters : List UInt32
  sweeps : UInt64

namespace ResultCache

variable {α : Type}

/-- A new cache. -/
def empty : ResultCache α := ⟨StringMap.empty, [], 0⟩

/-- The entry stored for exactly this method and path. -/
def get? (cache : ResultCache α) (method path : String) : Option (CacheEntry α) :=
  (cache.entries.get? method).bind (·.get? path)

/-- Stores an entry, replacing the one this method and path had. -/
def put (cache : ResultCache α) (method path : String) (entry : CacheEntry α) :
    ResultCache α :=
  let ofMethod := (cache.entries.get? method).getD StringMap.empty
  { cache with entries := cache.entries.insert method (ofMethod.insert path entry) }

/-- The number of stored entries. -/
def size (cache : ResultCache α) : Nat :=
  cache.entries.values.foldr (fun paths total => paths.size + total) 0

/-- Drops every entry and resets every counter; answers how many entries it dropped. -/
def wipe (cache : ResultCache α) : ResultCache α × Nat :=
  ({ entries := StringMap.empty,
     counters := cache.counters.map fun _ => 0,
     sweeps := cache.sweeps + 1 },
    cache.size)

/-- Creates counters, all at zero, until there are `n`. -/
def trackUpTo (cache : ResultCache α) (n : Nat) : ResultCache α :=
  { cache with counters := cache.counters ++ List.replicate (n - cache.counters.length) 0 }

/-- The value of a counter. -/
def hitsOf (cache : ResultCache α) (counter : Nat) : UInt32 := cache.counters[counter]?.getD 0

/-- Counts one more hit. -/
def bump (cache : ResultCache α) (counter : Nat) : ResultCache α :=
  { cache with counters := cache.counters.modify counter (· + 1) }

/-- Statistics of a cache. -/
def stats (cache : ResultCache α) : CacheStats :=
  ⟨cache.size, cache.counters.length, cache.sweeps⟩

end ResultCache

end RadixRouter
