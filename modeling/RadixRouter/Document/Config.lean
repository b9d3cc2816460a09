/-
# Configurations as documents

Every field of a configuration may be left out and then has its default; unknown fields are
ignored.
-/

import RadixRouter.Config
import RadixRouter.Document.Basic
import RadixRouter.Document.Json

namespace RadixRouter

/-- The cache part of a configuration. -/
def CacheConfig.ofDocument? (dialect : Dialect) (document : Document) : Option CacheConfig := do
  let fields ← dialect.fields? ["enabled", "promotion_threshold", "sweep_interval_ms"] document
  let absent : CacheConfig := {}
  let enabled ← fieldOr fields "enabled" Document.flag? absent.enabled
  let threshold ← fieldOr fields "promotion_threshold" (Document.numberBelow? UInt32.size)
    absent.promotionThreshold.toNat
  let interval ← fieldOr fields "sweep_interval_ms" (Document.numberBelow? UInt64.size)
    absent.sweepIntervalMs.toNat
  return ⟨enabled, UInt32.ofNat threshold, UInt64.ofNat interval⟩

/-- A configuration. -/
def RouterConfig.ofDocument? (dialect : Dialect) (document : Document) :
    Option RouterConfig := do
  let fields ← dialect.fields?
    ["redirect_trailing_slash", "redirect_fixed_path", "handle_method_not_allowed",
      "handle_options", "cache"] document
  let trailingSlash ← fieldOr fields "redirect_trailing_slash" Document.flag? true
  let fixedPath ← fieldOr fields "redirect_fixed_path" Document.flag? true
  let notAllowed ← fieldOr fields "handle_method_not_allowed" Document.flag? true
  let options ← fieldOr fields "handle_options" Document.flag? true
  let cache ← fieldOr fields "cache" (CacheConfig.ofDocument? dialect) {}
  return ⟨trailingSlash, fixedPath, notAllowed, options, cache⟩

/-- All fields of the cache part. -/
def CacheConfig.toJson (config : CacheConfig) : Json :=
  .obj
    [("enabled", .bool config.enabled),
      ("promotion_threshold", .nat config.promotionThreshold.toNat),
      ("sweep_interval_ms", .nat config.sweepIntervalMs.toNat)]

/-- All fields of a configuration. -/
def RouterConfig.toJson (config : RouterConfig) : Json :=
  .obj
    [("redirect_trailing_slash", .bool config.redirectTrailingSlash),
      ("redirect_fixed_path", .bool config.redirectFixedPath),
      ("handle_method_not_allowed", .bool config.handleMethodNotAllowed),
      ("handle_options", .bool config.handleOptions),
      ("cache", config.cache.toJson)]

end RadixRouter
