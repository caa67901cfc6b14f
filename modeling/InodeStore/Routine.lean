import InodeStore.Cache.Stats
import InodeStore.Event
import InodeStore.Inode.Registry

/-!
# `InodeStore.Routine` — what the inode layer asks for, call by call

The work of the inode layer is a sequence of calls to the block cache, the free map and the registry
of open inodes, where each call depends on the answers so far. `Routine` is that sequence as a tree:
it either ends, or makes a `Call` and goes on from the answer. A call that faults is answered too, with
the fault, so that a routine can clean up before it ends.

A routine does not say how its calls are carried out. `InodeStore.Store` carries out one routine from
its first call to its last; `InodeStore.Store.Writers` carries out several, call by call in any order.

## Contents
- `Call`, `Call.Answer`, `Routine`, the monad and its laws.
- One function a call: `view`, `store`, `update`, `allocate`, `release`, …
- **Endings.** `refuse`, `fault`, `attempt`, `always`.
- **Reservations.** `reserving` gives back what a routine allocated when it does not get done.
-/

namespace InodeStore

/-- A call of the inode layer. -/
inductive Call where
  /-- The content of a sector. -/
  | view (sector : SectorId)
  /-- Replace the content of a sector. -/
  | store (sector : SectorId) (block : Block)
  /-- Change the content of a sector in place. -/
  | update (sector : SectorId) (change : Block → Block)
  /-- Bring every changed sector to the device. -/
  | flushCache
  /-- Flush, empty the cache and start counting anew. -/
  | resetCache
  /-- The counters of the cache. -/
  | cacheStats
  /-- Take a free sector. -/
  | allocate
  /-- Give a sector back. -/
  | release (sector : SectorId)
  /-- The stored form of the free map. -/
  | mapBytes
  /-- Take over the free map from its stored form. -/
  | loadMap (bytes : Bytes)
  /-- A handle on the inode at a sector. -/
  | openInode (sector : SectorId)
  /-- End a handle; was it the last one of a removed file? -/
  | close (handle : Handle)
  /-- Lose a handle without closing it. -/
  | drop (handle : Handle)
  /-- Mark a file removed. -/
  | remove (handle : Handle)
  /-- Is writing denied? -/
  | isDenied (handle : Handle)
  /-- Wait until nobody lengthens the file, then keep others from it. -/
  | beginGrowth (handle : Handle)
  /-- Let others lengthen the file. -/
  | endGrowth (handle : Handle)
  /-- Report an event. -/
  | emit (event : Event)

/-- What a call is answered with, if it does not fault. -/
def Call.Answer : Call → Type
  | view _ => Block
  | cacheStats => CacheStats
  | allocate => Except Error SectorId
  | mapBytes => Bytes
  | openInode _ => Handle
  | close _ => Bool
  | isDenied _ => Bool
  | store _ _ | update _ _ | flushCache | resetCache | release _ | loadMap _ | drop _ | remove _
  | beginGrowth _ | endGrowth _ | emit _ => Unit

/-- Calls, each depending on the answers to those before it. -/
inductive Routine (α : Type) where
  /-- The routine is over and yields a value. -/
  | done (a : α)
  /-- The routine is over without a value. -/
  | halt (cause : Halt)
  /-- A call, and how to go on from its answer. -/
  | call (c : Call) (next : Except Fault c.Answer → Routine α)

namespace Routine

variable {α β γ : Type}

/-- One routine after the other; a halt of the first ends both. -/
protected def bind : Routine α → (α → Routine β) → Routine β
  | done a, f => f a
  | halt cause, _ => halt cause
  | call c next, f => call c fun answer => (next answer).bind f

instance : Monad Routine where
  pure := done
  bind := Routine.bind

theorem done_bind (a : α) (f : α → Routine β) : (done a >>= f) = f a := rfl

theorem call_bind (c : Call) (next : Except Fault c.Answer → Routine α) (f : α → Routine β) :
    (call c next >>= f) = call c fun answer => next answer >>= f := rfl

/-- Ending with what came before changes nothing. -/
theorem bind_done (r : Routine α) : (r >>= done) = r := by
  induction r with
  | done a => rfl
  | halt cause => rfl
  | call c next ih =>
    rw [call_bind]
    exact congrArg (call c) (funext ih)

/-- It does not matter how a sequence of three is bracketed. -/
theorem bind_assoc (r : Routine α) (f : α → Routine β) (g : β → Routine γ) :
    (r >>= f >>= g) = (r >>= fun a => f a >>= g) := by
  induction r with
  | done a => rfl
  | halt cause => rfl
  | call c next ih =>
    rw [call_bind, call_bind, call_bind]
    exact congrArg (call c) (funext ih)

instance : LawfulMonad Routine :=
  LawfulMonad.mk' Routine (fun r => bind_done r) (fun _ _ => rfl) (fun r f g => bind_assoc r f g)

/-! ## Calls -/

/-- Make a call; if it faults, so does the routine. -/
def perform (c : Call) : Routine c.Answer :=
  call c fun
    | .ok answer => done answer
    | .error e => halt (.faulted e)

/-- The content of a sector. -/
def view (sector : SectorId) : Routine Block := perform (.view sector)

/-- Replace the content of a sector. -/
def store (sector : SectorId) (block : Block) : Routine Unit := perform (.store sector block)

/-- Change the content of a sector in place. -/
def update (sector : SectorId) (change : Block → Block) : Routine Unit :=
  perform (.update sector change)

/-- Fill a sector with zeros. -/
def zeroize (sector : SectorId) : Routine Unit := store sector Block.zero

/-- Bring every changed sector to the device. -/
def flushCache : Routine Unit := perform .flushCache

/-- Flush, empty the cache and start counting anew. -/
def resetCache : Routine Unit := perform .resetCache

/-- The counters of the cache. -/
def cacheStats : Routine CacheStats := perform .cacheStats

/-- Give a sector back. -/
def release (sector : SectorId) : Routine Unit := perform (.release sector)

/-- The stored form of the free map. -/
def mapBytes : Routine Bytes := perform .mapBytes

/-- Take over the free map from its stored form. -/
def loadMap (bytes : Bytes) : Routine Unit := perform (.loadMap bytes)

/-- A handle on the inode at a sector. -/
def openInode (sector : SectorId) : Routine Handle := perform (.openInode sector)

/-- End a handle; was it the last one of a removed file? -/
def closeHandle (handle : Handle) : Routine Bool := perform (.close handle)

/-- Lose a handle without closing it. -/
def drop (handle : Handle) : Routine Unit := perform (.drop handle)

/-- Mark a file removed. -/
def remove (handle : Handle) : Routine Unit := perform (.remove handle)

/-- Is writing denied? -/
def isDenied (handle : Handle) : Routine Bool := perform (.isDenied handle)

/-- Report an event. -/
def emit (event : Event) : Routine Unit := perform (.emit event)

/-! ## Endings -/

/-- End with a refusal. -/
def refuse (e : Error) : Routine α := halt (.refused e)

/-- End with a fault. -/
def fault (e : Fault) : Routine α := halt (.faulted e)

/-- A computed value or refusal. -/
def ofExcept : Except Error α → Routine α
  | .ok a => done a
  | .error e => refuse e

/-- Take a free sector. -/
def allocate : Routine SectorId := perform .allocate >>= ofExcept

/-- The way a routine ends, as a value. -/
def attempt : Routine α → Routine (Except Halt α)
  | done a => done (.ok a)
  | halt cause => done (.error cause)
  | call c next => call c fun answer => attempt (next answer)

/-- Do `after` when the routine is over, whatever way it ended. -/
def always (after : Routine Unit) (r : Routine α) : Routine α := do
  let outcome ← attempt r
  after
  match outcome with
  | .ok a => done a
  | .error cause => halt cause

/-- Do the routine while nobody else lengthens the file. -/
def exclusively (handle : Handle) (r : Routine α) : Routine α := do
  perform (.beginGrowth handle)
  always (perform (.endGrowth handle)) r

/-! ## Reservations -/

/-- Give back a list of sectors, in order. -/
def releaseAll : List SectorId → Routine Unit
  | [] => done ()
  | sector :: rest => do
    release sector
    releaseAll rest

/-- Give back what a failed routine has taken, and say so if it is anything. -/
def rollBack (taken : List SectorId) : Routine Unit :=
  if taken.isEmpty then done ()
  else do
    emit (.rolledBack taken.length)
    releaseAll taken

/-- Do a routine that takes sectors, after `taken` sectors (the last one first) were taken. Its value
    comes with the number of all sectors taken; if it halts, they are given back in the order they
    were taken in. -/
def reservingFrom (taken : List SectorId) : Routine α → Routine (α × Nat)
  | done a => done (a, taken.length)
  | halt cause => do
    rollBack taken.reverse
    halt cause
  | call c next =>
    match c, next with
    | .allocate, next =>
      call .allocate fun answer =>
        match answer with
        | .ok (.ok sector) => reservingFrom (sector :: taken) (next (.ok (.ok sector)))
        | answer => reservingFrom taken (next answer)
    | c, next => call c fun answer => reservingFrom taken (next answer)

/-- Do a routine that takes sectors: all of them if it gets done, else none. -/
def reserving (r : Routine α) : Routine (α × Nat) := reservingFrom [] r

end Routine

end InodeStore
