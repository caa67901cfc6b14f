import InodeStore.Cache.Access

/-!
# `InodeStore.Cache.Request` — requests made while a frame is held

A user of a sector may make further requests before letting go of its frame, so requests are trees.
`Request` is such a tree, `Response` has the same shape, and `Request.run` is the cache's answer.
A sector whose frame is held must not be asked for again inside, and neither flush nor reset belong
there; nothing here enforces it.
-/

namespace InodeStore.Cache

/-- Something asked of the cache. -/
inductive Request where
  /-- The content of a sector. -/
  | read (sector : SectorId)
  /-- Replace the content of a sector. -/
  | write (sector : SectorId) (block : Block)
  /-- Look at a sector and make further requests meanwhile. -/
  | map (sector : SectorId) (inner : List Request)
  /-- Make further requests while holding a sector, then change it. -/
  | update (sector : SectorId) (change : Block → Block) (inner : List Request)
  /-- Bring every changed sector to the device. -/
  | flush
  /-- Flush, empty the cache and start counting anew. -/
  | reset
  /-- Tell the counters and the sectors that are in the cache. -/
  | inspect
  /-- Keep a sample of the counters, in place of the one kept so far. -/
  | sample
  /-- Tell what was counted since the sample that is kept. -/
  | sinceSample

/-- What the cache tells about itself. -/
structure Snapshot where
  stats : CacheStats
  /-- The sectors in the cache, the most recently used first. -/
  sectors : List SectorId
  dirty : Nat

/-- The answer to a request. -/
inductive Response where
  | done
  | content (block : Block)
  /-- The content that was looked at or written, and the answers to the requests made meanwhile. -/
  | nested (block : Block) (inner : List Response)
  | snapshot (snapshot : Snapshot)
  | counted (stats : CacheStats)

variable {δ : Type} {n : Nat}

/-- What the cache tells about itself now. -/
def snapshot (cache : Cache δ n) : Snapshot :=
  ⟨cache.stats, cache.recency.filterMap fun i => (cache.frame i).sector, cache.dirtyCount⟩

variable [BlockDevice δ]

mutual

/-- The cache's answer to a request, with the sample that is kept afterwards; `base` is the one kept
    so far. -/
def Request.run (base : CacheStats) : Request → Action (Cache δ n) (Response × CacheStats)
  | .read sector => do return (.content (← view sector), base)
  | .write sector block => do
    store sector block
    return (.done, base)
  | .map sector inner =>
    withFrame .readThrough sector fun i => do
      let block ← frameData i
      let (responses, base) ← Request.runAll base inner
      return (.nested block responses, base)
  | .update sector change inner =>
    withFrame .readThrough sector fun i => do
      amendFrame i id
      let (responses, base) ← Request.runAll base inner
      amendFrame i change
      return (.nested (← frameData i) responses, base)
  | .flush => do
    Cache.flush
    return (.done, base)
  | .reset => do
    Cache.reset
    return (.done, base)
  | .inspect => do return (.snapshot (← Action.get snapshot), base)
  | .sample => do return (.done, ← Action.get stats)
  | .sinceSample => do
    let now ← Action.get stats
    return (.counted (← Action.ofExcept (now.since base)), base)

/-- The cache's answers to requests made one after the other, with the sample kept at the end. -/
def Request.runAll (base : CacheStats) :
    List Request → Action (Cache δ n) (List Response × CacheStats)
  | [] => pure ([], base)
  | request :: rest => do
    let (response, base) ← Request.run base request
    let (responses, base) ← Request.runAll base rest
    return (response :: responses, base)

end

end InodeStore.Cache
