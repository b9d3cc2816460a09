/-
# Router configuration

What a router does when a request matches no route exactly, and how it caches results.
-/

namespace RadixRouter

/-- Configuration of the result cache. -/
structure CacheConfig where
  /-- Consult and fill the cache on look-ups. -/
  enabled : Bool := true
  /-- A result is stored once its deepest wildcard has been hit more often than this. -/
  promotionThreshold : UInt32 := 32
  /-- Period of the full wipe, in milliseconds. -/
  sweepIntervalMs : UInt64 := 10000
deriving DecidableEq

/-- Configuration of a router. -/
structure RouterConfig where
  /-- Redirect to the path with its final slash toggled when only that one is registered. -/
  redirectTrailingSlash : Bool := true
  /-- Redirect to the clean path in registered spelling when there is one. -/
  redirectFixedPath : Bool := true
  /-- Answer 405 with the methods that would match. -/
  handleMethodNotAllowed : Bool := true
  /-- Answer `OPTIONS` requests automatically. -/
  handleOptions : Bool := true
  /-- The result cache. -/
  cache : CacheConfig := {}
deriving DecidableEq

namespace CacheConfig

/-- The default configuration with caching turned off. -/
def disabled : CacheConfig := { enabled := false }

/-- Sets the sweep period from microseconds.  Parts of a millisecond are dropped, and the
period is at least one millisecond and at most what fits its field. -/
def withSweepInterval (config : CacheConfig) (micros : Nat) : CacheConfig :=
  { config with sweepIntervalMs := UInt64.ofNat (max 1 (min (micros / 1000) (UInt64.size - 1))) }

/-- The period that sweeps keep, in milliseconds: at least one. -/
def sweepPeriod (config : CacheConfig) : Nat := max 1 config.sweepIntervalMs.toNat

end CacheConfig

end RadixRouter
