import InodeStore.Store.Basic

/-!
# `InodeStore.Volume` — stores that outlive the engine

A volume is a store whose free map is itself a file: its descriptor is at sector 0, and it stays open
as long as the volume is in use. Sector 1 is for the descriptor of the root directory. A device is
made a volume by `format`, taken up again by `mount` and left in order by `shutdown`.

Whoever gives up a volume in any other way, or is made to by a fault, still brings what the cache holds
to the device, but the free-map file keeps what the last `persist` wrote to it.

## Contents
- `freeMapSector`, `rootSector`, `freeMapFile`.
- `Opening`: what is left of bringing a volume up.
- `format`, `mount`, `persist`, `shutdown`, `discard`.
-/

namespace InodeStore

/-- The sector of the free-map file's descriptor. -/
def freeMapSector : SectorId := 0

/-- The sector of the root directory's descriptor. -/
def rootSector : SectorId := 1

/-- Frames of a cache when nothing else is said. -/
def defaultFrames : Nat := 64

namespace Volume

variable {δ : Type} {n : Nat}

/-- The handle on the free-map file that a volume keeps. -/
def freeMapFile : Handle := ⟨freeMapSector⟩

/-- What is left of bringing a volume up. -/
inductive Opening (δ : Type) (n : Nat) where
  /-- The volume is in use. -/
  | up (store : Store δ n)
  /-- It is not, and the device is free again. -/
  | down (cause : Halt) (device : δ)

open Routine

/-! ## Routines -/

/-- Write the free map to its file, then every changed sector to the device. -/
def persist : Routine Unit := do
  let bytes ← mapBytes
  let _ ← Inode.write freeMapFile 0 bytes
  flushCache

/-- Make the free-map file, for a map of `mapBytes` bytes, and the empty root directory. -/
def makeFiles (mapLength : Nat) : Routine Unit := do
  Inode.createAt freeMapSector mapLength false
  Inode.createAt rootSector 0 true

/-- Take over the free map, of `mapLength` bytes, from its file, which is left open. -/
def takeOver (mapLength : Nat) : Routine Unit := do
  let handle ← openInode freeMapSector
  let outcome ← attempt do
    let bytes ← Inode.read handle 0 mapLength
    if bytes.size ≠ mapLength then fault .mapFileTruncated
    else loadMap bytes
  match outcome with
  | .ok () => return
  | .error cause =>
    drop handle
    halt cause

variable [BlockDevice δ]

/-- Give up a volume: what the cache holds goes to the device, the handle on the free-map file is
    lost. -/
def discard (store : Store δ n) : Reply δ Unit :=
  match store.discard with
  | ⟨result, device, log⟩ => ⟨result, device, log ++ [.handleDropped freeMapSector]⟩

/-- Go on with a store that is in use if a routine gets done. If it does not, end the store with
    `discard` and free the device. -/
def bringUp (discard : Store δ n → Reply δ Unit) (store : Store δ n) (r : Routine Unit)
    (next : Store δ n → Opening δ n × List Event) : Opening δ n × List Event :=
  match store.run r with
  | ⟨.ok (.ok ()), store, log⟩ =>
    match next store with
    | (opening, log') => (opening, log ++ log')
  | ⟨.ok (.error e), store, log⟩ =>
    match discard store with
    | ⟨_, device, log'⟩ => (.down (.refused e) device, log ++ log')
  | ⟨.error e, store, log⟩ =>
    match discard store with
    | ⟨_, device, log'⟩ => (.down (.faulted e) device, log ++ log')

/-! ## Bringing a volume up -/

/-- Make a device a volume, with a cache of `n` frames that fit into memory: `limit` bytes do not. -/
def format (n : Nat) (device : δ) (limit : Nat := memoryLimit) : Opening δ n × List Event :=
  let reserved := do FreeMap.mark freeMapSector; FreeMap.mark rootSector
  match reserved (FreeMap.blank (BlockDevice.sectorCount device)) with
  | ⟨.error e, _, log⟩ => (.down (.faulted e) device, log)
  | ⟨.ok (), freeMap, log⟩ =>
    match Cache.create n device limit with
    | .error e => (.down (.faulted e) device, log)
    | .ok cache =>
      bringUp Store.discard ⟨cache, freeMap, .empty⟩ (makeFiles freeMap.byteLength) fun store =>
      bringUp discard store (do let _ ← openInode freeMapSector; persist) fun store =>
        (.up store, [.formatted store.freeMap.sectors store.freeMap.freeCount])

/-- Take up a volume again, with a cache of `n` frames that fit into memory. -/
def mount (n : Nat) (device : δ) (limit : Nat := memoryLimit) : Opening δ n × List Event :=
  let freeMap := FreeMap.blank (BlockDevice.sectorCount device)
  match Cache.create n device limit with
  | .error e => (.down (.faulted e) device, [])
  | .ok cache =>
    bringUp Store.discard ⟨cache, freeMap, .empty⟩ (takeOver freeMap.byteLength) fun store =>
      (.up store, [.mounted store.freeMap.sectors store.freeMap.freeCount])

/-! ## Leaving a volume -/

/-- Leave a volume in order: persist it, close the free-map file, end the store. -/
def shutdown (store : Store δ n) : Reply δ (Except Error Unit) :=
  match store.run persist with
  | ⟨.error e, store, log⟩ =>
    match discard store with
    | ⟨_, device, log'⟩ => ⟨.error e, device, log ++ log'⟩
  | ⟨.ok (.error e), store, log⟩ =>
    match discard store with
    | ⟨_, device, log'⟩ => ⟨.ok (.error e), device, log ++ log'⟩
  | ⟨.ok (.ok ()), store, log⟩ =>
    match store.run (Inode.close freeMapFile) with
    | ⟨.error e, store, log'⟩ =>
      match store.discard with
      | ⟨_, device, log''⟩ => ⟨.error e, device, log ++ log' ++ log''⟩
    | ⟨.ok outcome, store, log'⟩ =>
      let stats := store.cache.stats
      match store.discard with
      | ⟨result, device, log''⟩ =>
        ⟨result.map fun () => outcome, device,
          log ++ log' ++ .shutDown stats.accesses stats.hits stats.deviceWrites :: log''⟩

end Volume

end InodeStore
