import InodeStore.Cache.Access
import InodeStore.FreeMap
import InodeStore.Inode.File

/-!
# `InodeStore.Store.Basic` — the parts put together

A `Store` is a block cache on a device, the free map of that device and the registry of open inodes.
`Store.perform` carries out one call of the inode layer, `Store.run` a whole routine with nobody else
at work: `Store.run (Inode.create length isDir)` is then an action on a store.

## Contents
- `Store`, and actions of a part as actions of the store (`onCache`, `onMap`, `onRegistry`).
- `ready`, `perform`, `run`, and `discard`, the end of a store.
-/

namespace InodeStore

/-- A block cache, a free map and the open inodes. -/
structure Store (δ : Type) (n : Nat) where
  cache : Cache δ n
  freeMap : FreeMap
  registry : Registry

namespace Store

variable {δ : Type} {n : Nat} {α : Type}

/-! ## Parts -/

/-- An action of the cache. -/
@[inline] def onCache (action : Action (Cache δ n) α) : Action (Store δ n) α := fun
  | ⟨cache, freeMap, registry⟩ =>
    match action cache with
    | ⟨result, cache, log⟩ => ⟨result, ⟨cache, freeMap, registry⟩, log⟩

/-- An action of the free map. -/
@[inline] def onMap (action : Action FreeMap α) : Action (Store δ n) α := fun
  | ⟨cache, freeMap, registry⟩ =>
    match action freeMap with
    | ⟨result, freeMap, log⟩ => ⟨result, ⟨cache, freeMap, registry⟩, log⟩

/-- An action of the registry. -/
@[inline] def onRegistry (action : Action Registry α) : Action (Store δ n) α := fun
  | ⟨cache, freeMap, registry⟩ =>
    match action registry with
    | ⟨result, registry, log⟩ => ⟨result, ⟨cache, freeMap, registry⟩, log⟩

/-! ## Calls and routines -/

/-- Can a call be carried out now, or has it to wait for somebody else? -/
def ready (store : Store δ n) : Call → Bool
  | .beginGrowth handle => !store.registry.isGrowing handle
  | _ => true

variable [BlockDevice δ]

/-- Carry out a call. -/
def perform : (c : Call) → Action (Store δ n) c.Answer
  | .view sector => onCache (Cache.view sector)
  | .store sector block => onCache (Cache.store sector block)
  | .update sector change => onCache (Cache.update sector change)
  | .flushCache => onCache Cache.flush
  | .resetCache => onCache Cache.reset
  | .cacheStats => onCache (Action.get Cache.stats)
  | .allocate => onMap (FreeMap.allocate 1)
  | .release sector => onMap (FreeMap.release sector 1)
  | .mapBytes => onMap (Action.get FreeMap.toBytes)
  | .loadMap bytes => onMap (FreeMap.load bytes)
  | .openInode sector => onRegistry (Registry.openInode sector)
  | .close handle => onRegistry (Registry.close handle)
  | .drop handle => onRegistry (Registry.drop handle)
  | .remove handle => onRegistry (Registry.remove handle)
  | .isDenied handle => onRegistry (Action.get fun registry => registry.isDenied handle)
  | .beginGrowth handle => onRegistry (Registry.setGrowing handle true)
  | .endGrowth handle => onRegistry (Registry.setGrowing handle false)
  | .emit event => Action.emit event

/-- Carry out a routine, after the events of `earlier` (the last one first) were reported. -/
def runAfter (earlier : List Event) (store : Store δ n) :
    Routine α → Reply (Store δ n) (Except Error α)
  | .done a => ⟨.ok (.ok a), store, earlier.reverse⟩
  | .halt (.refused e) => ⟨.ok (.error e), store, earlier.reverse⟩
  | .halt (.faulted e) => ⟨.error e, store, earlier.reverse⟩
  | .call c next =>
    match perform c store with
    | ⟨answer, store, log⟩ => runAfter (log.reverseAux earlier) store (next answer)

/-- Carry out a routine from its first call to its last. -/
def run (r : Routine α) : Action (Store δ n) (Except Error α) := fun store => runAfter [] store r

/-- End a store: what the cache still holds goes to the device, which is given back. -/
def discard (store : Store δ n) : Reply δ Unit := store.cache.discard

end Store

end InodeStore
