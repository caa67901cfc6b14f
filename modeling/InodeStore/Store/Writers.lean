import InodeStore.Store.Basic

/-!
# `InodeStore.Store.Writers` — several parties on one store

Each party goes through a routine of its own. One step is one call of one party: a call of the cache,
of the free map or of the registry is never cut in two, and nothing else is. A party that waits until
nobody lengthens a file takes no step meanwhile.

## Contents
- `Parties`, `Parties.step`, `Parties.turn`, `Parties.runTurns`.
- `Write`, `writeAll`, `writeFresh`, with `callBound`, a bound on the calls they make.
- `runTogether`: several lists of writes, each party making a call in turn.
-/

namespace InodeStore.Store

variable {δ : Type} {n : Nat} {α : Type}

/-- A store and the routines of the parties at work on it. -/
structure Parties (δ : Type) (n : Nat) (α : Type) where
  store : Store δ n
  routines : Array (Routine α)

/-- The way a routine ended, if it did. -/
def ending? : Routine α → Option (Except Halt α)
  | .done a => some (.ok a)
  | .halt cause => some (.error cause)
  | .call _ _ => none

variable [BlockDevice δ]

namespace Parties

/-- The next call of party `t`, if there is one and it has not to wait. -/
def step (parties : Parties δ n α) (t : Nat) : Option (Parties δ n α × List Event) :=
  match parties.routines[t]? with
  | some (.call c next) =>
    if parties.store.ready c then
      match perform c parties.store with
      | ⟨answer, store, log⟩ =>
        some (⟨store, parties.routines.setIfInBounds t (next answer)⟩, log)
    else none
  | _ => none

/-- The next call of each party of a list that can make one. The answer tells whether any could. -/
def turn (parties : Parties δ n α) : List Nat → Bool × Parties δ n α × List Event
  | [] => (false, parties, [])
  | t :: rest =>
    match parties.step t with
    | none => turn parties rest
    | some (parties, log) =>
      match turn parties rest with
      | (_, parties, log') => (true, parties, log ++ log')

/-- Turns, at most `fuel` of them, until no party can make a call. `earlier` are the events reported
    before, the last one first. -/
def runTurns (earlier : List Event) (parties : Parties δ n α) :
    (fuel : Nat) → Parties δ n α × List Event
  | 0 => (parties, earlier.reverse)
  | fuel + 1 =>
    match turn parties (List.range parties.routines.size) with
    | (false, parties, log) => (parties, (log.reverseAux earlier).reverse)
    | (true, parties, log) => runTurns (log.reverseAux earlier) parties fuel

end Parties

/-! ## Writes -/

/-- Bytes to be written at an offset. -/
structure Write where
  offset : Nat
  bytes : Bytes

/-- Write to an open file, one piece after the other. The answer is how much was written of each. -/
def writeAll (handle : Handle) : List Write → Routine (List Nat)
  | [] => return []
  | w :: rest => do
    let written ← Inode.write handle w.offset w.bytes
    return written :: (← writeAll handle rest)

/-- Make an empty file, write to it and close it. The answer begins with its sector. -/
def writeFresh (writes : List Write) : Routine (SectorId × List Nat) := do
  let sector ← Inode.create 0 false
  let handle ← Routine.openInode sector
  let written ← writeAll handle writes
  Inode.close handle
  return (sector, written)

/-- More calls than writing takes: each block of a file is asked for, filled, linked and written by
    some calls, and so is what may have to be given back again. -/
def callBound (writes : List Write) : Nat :=
  writes.foldl (fun calls w => calls + 32 + 16 * dataBlocks (w.offset + w.bytes.size)) 16

/-- Let parties go through their routines, which take fewer than `bound` calls together, each making a
    call in turn. The answer is how each routine ended, `none` if it did not. -/
def runTogether (bound : Nat) (routines : List (Routine α)) :
    Action (Store δ n) (List (Option (Except Halt α))) := fun store =>
  match Parties.runTurns [] ⟨store, routines.toArray⟩ bound with
  | (parties, log) => ⟨.ok (parties.routines.toList.map ending?), parties.store, log⟩

/-- Several parties, each writing to a file that is open. -/
def writeTogether (programs : List (Handle × List Write)) :
    Action (Store δ n) (List (Option (Except Halt (List Nat)))) :=
  runTogether (programs.foldl (fun calls p => calls + callBound p.2) 0)
    (programs.map fun p => writeAll p.1 p.2)

/-- Several parties, each writing to a new file of its own. -/
def writeFreshTogether (programs : List (List Write)) :
    Action (Store δ n) (List (Option (Except Halt (SectorId × List Nat)))) :=
  runTogether (programs.foldl (fun calls writes => calls + callBound writes) 0) (programs.map writeFresh)

end InodeStore.Store
