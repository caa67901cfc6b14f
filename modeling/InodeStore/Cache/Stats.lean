import InodeStore.Fault

/-!
# `InodeStore.Cache.Stats` — counters of the cache

Four counters, sampled together. `CacheStats.since` is what was counted between two samples, and
`CacheStats.hitRate` the share of the accesses that needed no other frame.
-/

namespace InodeStore

/-- A sample of the cache's counters. -/
structure CacheStats where
  /-- Sectors asked for. -/
  accesses : Nat := 0
  /-- Sectors asked for that were in the cache. -/
  hits : Nat := 0
  deviceReads : Nat := 0
  deviceWrites : Nat := 0
  deriving DecidableEq, Repr

namespace CacheStats

/-- What was counted from the sample `base` on. A counter may not have gone back. -/
def since (now base : CacheStats) : Except Fault CacheStats :=
  if base.accesses ≤ now.accesses ∧ base.hits ≤ now.hits ∧ base.deviceReads ≤ now.deviceReads ∧
      base.deviceWrites ≤ now.deviceWrites then
    .ok
      { accesses := now.accesses - base.accesses
        hits := now.hits - base.hits
        deviceReads := now.deviceReads - base.deviceReads
        deviceWrites := now.deviceWrites - base.deviceWrites }
  else .error .differenceUnderflow

/-- Hits per access, 0 if there was no access. -/
def hitRate (stats : CacheStats) : Float :=
  if stats.accesses = 0 then 0.0
  else (UInt64.ofNat stats.hits).toFloat / (UInt64.ofNat stats.accesses).toFloat

end CacheStats

end InodeStore
