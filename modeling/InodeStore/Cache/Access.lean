import InodeStore.Cache.Basic

/-!
# `InodeStore.Cache.Access` — the cache used by one party

The operations of the cache, each run from its first step to its last with nobody else at work.

## Contents
- **Access.** `acquire` gives a pinned frame with a sector's content, `withFrame` uses it and lets go.
- **Sectors.** `view`, `store`, `zeroize`, `update`.
- **The whole cache.** `flush`, `reset`, and `discard`, which ends a cache and gives its device back.
-/

namespace InodeStore.Cache

variable {δ : Type} {n : Nat} {α : Type} [BlockDevice δ]

/-! ## Access -/

/-- Find or make a frame with the content of a sector, and pin it. With one party no sector is ever
    on its way to the device when another one is sought. -/
def acquire (fill : Fill) (sector : SectorId) : Action (Cache δ n) (Fin n) := do
  match ← seek sector with
  | .hit i => pure i
  | .busy _ => Action.fault (.writeBackPending sector)
  | .miss i displaced =>
    Action.onFault (unpin i) do
      if let some old := displaced then
        spill i old
        settle old
      fetch i sector fill
      pure i

/-- Use the frame of a sector. It stays pinned until `body` is over. -/
def withFrame (fill : Fill) (sector : SectorId) (body : Fin n → Action (Cache δ n) α) :
    Action (Cache δ n) α := do
  let i ← acquire fill sector
  Action.always (unpin i) (body i)

/-! ## Sectors -/

omit [BlockDevice δ] in
/-- The data of a frame. -/
def frameData (i : Fin n) : Action (Cache δ n) Block := Action.get fun cache => (cache.frame i).data

omit [BlockDevice δ] in
/-- Change the data of a frame and make it dirty. -/
def amendFrame (i : Fin n) (change : Block → Block) : Action (Cache δ n) Unit :=
  Action.modify (mapFrame i fun frame => { frame with data := change frame.data, dirty := true })

/-- The content of a sector. -/
def view (sector : SectorId) : Action (Cache δ n) Block := withFrame .readThrough sector frameData

/-- Replace the content of a sector; the device hears of it later. -/
def store (sector : SectorId) (block : Block) : Action (Cache δ n) Unit :=
  withFrame .overwrite sector fun i => amendFrame i fun _ => block

/-- Fill a sector with zeros. -/
def zeroize (sector : SectorId) : Action (Cache δ n) Unit := store sector Block.zero

/-- Change the content of a sector in place. -/
def update (sector : SectorId) (change : Block → Block) : Action (Cache δ n) Unit :=
  withFrame .readThrough sector fun i => amendFrame i change

/-! ## The whole cache -/

/-- Bring the frames of a list to the device, in order. -/
def writeBackAll : List (Fin n) → Action (Cache δ n) Unit
  | [] => pure ()
  | i :: rest => do
    writeBack i
    writeBackAll rest

/-- Bring every changed sector to the device, the least recently used one first. -/
def flush : Action (Cache δ n) Unit := fun cache => writeBackAll cache.recency.reverse cache

/-- Bring every changed sector to the device, empty the cache and start counting anew. -/
def reset : Action (Cache δ n) Unit := do
  flush
  forget

/-- End a cache: flush it and give the device back. -/
def discard (cache : Cache δ n) : Reply δ Unit :=
  match flush cache with
  | ⟨result, cache, log⟩ => ⟨result, cache.device, log⟩

end InodeStore.Cache
