import InodeStore.Volume

/-!
# `InodeStore.Bench.Measure` — two measurements of the block cache

Both work on a scratch file that is removed again, whether the measurement succeeds or is refused.

- `measureReads` reads a file twice after the cache was emptied, once cold and once warm.
- `measureWrites` writes a file byte by byte and counts what reaches the device.
-/

namespace InodeStore.Bench

open Routine

variable {α : Type}

/-! ## Scratch files -/

/-- Make an empty file, use it, remove it and close it. A fault of `body` leaves the file behind, and
    its handle is lost. -/
def onScratchFile (body : Handle → Routine α) : Routine α := do
  let handle ← openInode (← Inode.create 0 false)
  match ← attempt (body handle) with
  | .error (.faulted e) =>
    drop handle
    fault e
  | .ok a =>
    remove handle
    Inode.close handle
    return a
  | .error (.refused e) =>
    remove handle
    Inode.close handle
    refuse e

/-- What is counted from the sample `base` to now. -/
def countedSince (base : CacheStats) : Routine CacheStats := do
  match (← cacheStats).since base with
  | .ok counted => return counted
  | .error e => fault e

/-! ## Reading -/

/-- The first `count` bytes of the test pattern. One byte more than the longest file is refused as any
    longer one would be, so no more are ever made. -/
def pattern (count : Nat) : Bytes :=
  Array.ofFn fun i : Fin (min count (maxFileSize + 1)) => UInt8.ofNat (i.val % 251)

/-- Compare `count` sectors of a file with what they should hold, from sector `k` on. The answer is the
    first one that differs. -/
def checkFrom (handle : Handle) (expected : Bytes) (k : Nat) : (count : Nat) → Routine (Option Nat)
  | 0 => return none
  | count + 1 => do
    let found ← Inode.read handle (sectorSize * k) sectorSize
    if found ≠ expected.extract (sectorSize * k) (sectorSize * (k + 1)) then return some k
    else checkFrom handle expected (k + 1) count

/-- Read a file sector by sector. The answer is what the cache counted, or else the first sector that
    does not hold what it should. -/
def passOver (handle : Handle) (expected : Bytes) : Routine (Except Nat CacheStats) := do
  let before ← cacheStats
  match ← checkFrom handle expected 0 (dataBlocks expected.size) with
  | some k => return .error k
  | none => return .ok (← countedSince before)

/-- What two passes over one file counted. -/
structure Passes where
  cold : CacheStats
  warm : CacheStats

/-- Read a file of `bytes` bytes twice, through a cache of `frames` frames that is empty at first. What
    is to be written has to fit into memory. -/
def measureReads (bytes frames : Nat) (limit : Nat := memoryLimit) : Routine (Except Nat Passes) := do
  if let some e := Fault.ofDemand? bytes limit then fault e
  onScratchFile fun handle => do
    let data := pattern bytes
    let _ ← Inode.write handle 0 data
    Volume.persist
    resetCache
    match ← passOver handle data with
    | .error k => return .error k
    | .ok cold =>
      match ← passOver handle data with
      | .error k => return .error k
      | .ok warm =>
        if warm.hitRate ≤ cold.hitRate then emit (.noWarmer bytes frames)
        return .ok ⟨cold, warm⟩

/-! ## Writing -/

/-- Write `count` single bytes from `offset` on. -/
def writeEach (handle : Handle) (offset : Nat) : (count : Nat) → Routine Unit
  | 0 => return
  | count + 1 => do
    let _ ← Inode.write handle offset #[UInt8.ofNat offset]
    writeEach handle (offset + 1) count

/-- Write a file of `bytes` bytes one byte at a time. The answer is what the cache counted until all of
    it was on the device. -/
def measureWrites (bytes : Nat) : Routine CacheStats :=
  onScratchFile fun handle => do
    Volume.persist
    let before ← cacheStats
    writeEach handle 0 bytes
    Volume.persist
    countedSince before

end InodeStore.Bench
