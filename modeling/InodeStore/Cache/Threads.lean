import InodeStore.Cache.Access

/-!
# `InodeStore.Cache.Threads` — the cache used by several threads

Several threads work on one cache, each through a list of tasks. One `Machine.step` is what one thread
does without the others seeing anything in between: one visit to the directory (the order of the
frames, the sectors they carry, the table of sectors on their way out), one frame locked or unlocked,
or one transfer of the device.

A frame's data is used under the frame's lock, and a thread pins a frame before it waits for that lock,
so that the frame stays with its sector. Only a thread that waits for a sector to reach the device does
so without a pin: it has no use for the frame and looks for its sector again afterwards.

## Contents
- **Work.** `Access`, `Sweep`, `Task`, `Finding`.
- **Threads.** `Phase`, `Thread`, `Shared`, `Machine`.
- **Steps.** `Phase.step`, `Machine.step`.
- **A fair order.** `Machine.runTurns`, `runThreads`.
-/

namespace InodeStore.Cache

/-! ## Work -/

/-- A use of one sector. -/
inductive Access where
  /-- Look at its content. -/
  | view (sector : SectorId)
  /-- Replace its content. -/
  | store (sector : SectorId) (block : Block)
  /-- Change its content in place. -/
  | update (sector : SectorId) (change : Block → Block)

/-- Work on all frames in use. -/
inductive Sweep where
  /-- Bring them to the device. -/
  | flush
  /-- Bring them to the device and then take those nobody needs from their sectors. -/
  | reset
  /-- Count the dirty ones. -/
  | countDirty
  deriving DecidableEq, Repr

/-- A task of a thread. -/
inductive Task where
  | access (access : Access)
  | sweep (sweep : Sweep)

/-- What a finished task tells its thread. -/
inductive Finding where
  | done
  | content (block : Block)
  | dirty (count : Nat)

namespace Access

/-- The sector that is used. -/
def sector : Access → SectorId
  | view sector | store sector _ | update sector _ => sector

/-- How the sector's frame is filled if it has to be. -/
def fill : Access → Fill
  | view _ | update _ _ => .readThrough
  | store _ _ => .overwrite

variable {δ : Type} {n : Nat}

/-- What is done to the frame once it has the sector's content. -/
def body (i : Fin n) : Access → Action (Cache δ n) Finding
  | view _ => do return .content (← frameData i)
  | store _ block => do
    amendFrame i fun _ => block
    return .done
  | update _ change => do
    amendFrame i change
    return .done

end Access

/-! ## Threads -/

/-- How far a thread is with its present task. -/
inductive Phase (n : Nat) where
  /-- Between two tasks. -/
  | idle
  /-- To look for the sector. -/
  | seek (access : Access)
  /-- The sector's frame is pinned; to lock it. -/
  | enter (access : Access) (i : Fin n)
  /-- The sector is on its way out of a frame; to lock that frame. -/
  | wait (access : Access) (i : Fin n)
  /-- The frame is locked, so the sector is out; to unlock it. -/
  | waited (access : Access) (i : Fin n)
  /-- A frame is locked that holds changed data of another sector; to bring those to the device. -/
  | spill (access : Access) (i : Fin n) (displaced : SectorId)
  /-- They are on the device; to say so. -/
  | settle (access : Access) (i : Fin n) (displaced : SectorId)
  /-- The frame is locked and free for the sector; to fill it. -/
  | fetch (access : Access) (i : Fin n)
  /-- The frame is locked and has the content; to use it and let go of it. -/
  | use (access : Access) (i : Fin n)
  /-- To list the frames in use. -/
  | list (sweep : Sweep)
  /-- To pin the next frame of the list, if it is still in use. -/
  | next (sweep : Sweep) (frames : List (Fin n)) (count : Nat)
  /-- The frame is pinned; to lock it. -/
  | nextEnter (sweep : Sweep) (i : Fin n) (frames : List (Fin n)) (count : Nat)
  /-- The frame is locked; to do with it what the sweep does, and let go of it. -/
  | nextUse (sweep : Sweep) (i : Fin n) (frames : List (Fin n)) (count : Nat)
  /-- All frames were brought to the device; to take them from their sectors. -/
  | forget

/-- A thread: where it is, what it has still to do, and what it found, the latest first. -/
structure Thread (n : Nat) where
  phase : Phase n
  tasks : List Task
  found : List Finding

/-- A cache and the locks of its frames. -/
structure Shared (δ : Type) (n : Nat) where
  cache : Cache δ n
  /-- Which frames are locked. -/
  locks : Vector Bool n

/-- Threads at work on a cache. -/
structure Machine (δ : Type) (n : Nat) where
  shared : Shared δ n
  threads : Array (Thread n)

/-- The phase in which a task begins. -/
def Task.start {n : Nat} : Task → Phase n
  | access a => .seek a
  | sweep w => .list w

/-! ## Steps -/

variable {δ : Type} {n : Nat} {α : Type}

namespace Shared

/-- Is a frame locked? -/
def isLocked (shared : Shared δ n) (i : Fin n) : Bool := shared.locks.get i

/-- Lock or unlock a frame. -/
def setLock (i : Fin n) (locked : Bool) (shared : Shared δ n) : Shared δ n :=
  { shared with locks := shared.locks.set i.val locked i.isLt }

/-- An action of the cache. -/
@[inline] def onCache (action : Action (Cache δ n) α) : Action (Shared δ n) α := fun
  | ⟨cache, locks⟩ =>
    match action cache with
    | ⟨result, cache, log⟩ => ⟨result, ⟨cache, locks⟩, log⟩

/-- Unlock a frame and unpin it. -/
def leave (i : Fin n) : Action (Shared δ n) Unit := do
  Action.modify (setLock i false)
  onCache (Action.modify (unpin i))

/-- May `forget` look into every frame that is not pinned? -/
def canForget (shared : Shared δ n) : Bool :=
  shared.cache.recency.all fun i => (shared.cache.frame i).pins != 0 || !shared.isLocked i

end Shared

variable [BlockDevice δ]

/-- What a thread does in a phase, and the phase after it, with a finding if the task is finished.
    There is nothing to do between two tasks, and none for as long as a lock is held by another. -/
def Phase.step (shared : Shared δ n) :
    Phase n → Option (Reply (Shared δ n) (Phase n × Option Finding))
  | .idle => none
  | .seek a =>
    match Cache.seek a.sector shared.cache with
    | ⟨.error e, cache, log⟩ => some ⟨.error e, { shared with cache }, log⟩
    | ⟨.ok (.hit i), cache, log⟩ => some ⟨.ok (.enter a i, none), { shared with cache }, log⟩
    | ⟨.ok (.busy i), cache, log⟩ => some ⟨.ok (.wait a i, none), { shared with cache }, log⟩
    | ⟨.ok (.miss i displaced), cache, log⟩ =>
      if shared.isLocked i then none
      else
        let phase := match displaced with
          | some old => .spill a i old
          | none => .fetch a i
        some ⟨.ok (phase, none), { shared with cache }.setLock i true, log⟩
  | .enter a i => lockThen i (.use a i)
  | .wait a i => lockThen i (.waited a i)
  | .waited a i => run do
      Action.modify (Shared.setLock i false)
      return (.seek a, none)
  | .spill a i old => run do
      Shared.onCache (Cache.spill i old)
      return (.settle a i old, none)
  | .settle a i old => run do
      Shared.onCache (Cache.settle old)
      return (.fetch a i, none)
  | .fetch a i => run do
      Shared.onCache (Cache.fetch i a.sector a.fill)
      return (.use a i, none)
  | .use a i => run do
      let finding ← Shared.onCache (a.body i)
      Shared.leave i
      return (.idle, some finding)
  | .list w => run do return (.next w (← Action.get fun s => s.cache.recency.reverse) 0, none)
  | .next w [] count => run do
      match w with
      | .flush => return (.idle, some .done)
      | .reset => return (.forget, none)
      | .countDirty => return (.idle, some (.dirty count))
  | .next w (i :: frames) count => run do
      if ← Action.get fun s => s.cache.recency.contains i then
        Shared.onCache (Action.modify (pin i))
        return (.nextEnter w i frames count, none)
      else return (.next w frames count, none)
  | .nextEnter w i frames count => lockThen i (.nextUse w i frames count)
  | .nextUse w i frames count => run do
      let dirty ← Action.get fun s => (s.cache.frame i).dirty
      match w, dirty with
      | .countDirty, dirty =>
        Shared.leave i
        return (.next w frames (if dirty then count + 1 else count), none)
      | _, true =>
        Shared.onCache (Cache.writeBack i)
        return (.nextUse w i frames count, none)
      | _, false =>
        Shared.leave i
        return (.next w frames count, none)
  | .forget =>
    if shared.canForget then
      run do
        Shared.onCache Cache.forget
        return (.idle, some .done)
    else none
where
  /-- A step that can always be taken. -/
  run (action : Action (Shared δ n) (Phase n × Option Finding)) :
      Option (Reply (Shared δ n) (Phase n × Option Finding)) :=
    some (action shared)
  /-- Lock a frame, as soon as it is not locked. -/
  lockThen (i : Fin n) (phase : Phase n) :
      Option (Reply (Shared δ n) (Phase n × Option Finding)) :=
    if shared.isLocked i then none
    else some ⟨.ok (phase, none), shared.setLock i true, []⟩

namespace Thread

/-- A thread at the beginning of its next task, if it is between two tasks. -/
def begin (thread : Thread n) : Thread n :=
  match thread.phase, thread.tasks with
  | .idle, task :: rest => { thread with phase := task.start, tasks := rest }
  | _, _ => thread

/-- A thread after one step. -/
def next (thread : Thread n) (phase : Phase n) (finding : Option Finding) : Thread n :=
  { thread with phase, found := finding.toList ++ thread.found }

end Thread

namespace Machine

/-- Threads at the beginning of their work on a cache. -/
def start (cache : Cache δ n) (programs : List (List Task)) : Machine δ n :=
  ⟨⟨cache, Vector.replicate n false⟩, (programs.map fun tasks => ⟨.idle, tasks, []⟩).toArray⟩

/-- One step of thread `t`, if it can take one. -/
def step (machine : Machine δ n) (t : Nat) : Option (Reply (Machine δ n) Unit) := do
  let thread := (← machine.threads[t]?).begin
  match ← thread.phase.step machine.shared with
  | ⟨.error e, shared, log⟩ => some ⟨.error e, { machine with shared }, log⟩
  | ⟨.ok (phase, finding), shared, log⟩ =>
    let threads := machine.threads.setIfInBounds t (thread.next phase finding)
    some ⟨.ok (), ⟨shared, threads⟩, log⟩

/-! ## A fair order -/

/-- One step of each thread of a list that can take one. The answer tells whether any could. -/
def turn : List Nat → Action (Machine δ n) Bool
  | [] => return false
  | t :: rest => fun machine =>
    match machine.step t with
    | none => turn rest machine
    | some ⟨.error e, machine, log⟩ => ⟨.error e, machine, log⟩
    | some ⟨.ok (), machine, log⟩ =>
      match turn rest machine with
      | ⟨result, machine, log'⟩ => ⟨result.map fun _ => true, machine, log ++ log'⟩

/-- Turns, at most `fuel` of them, until no thread can take a step. -/
def runTurns : (fuel : Nat) → Action (Machine δ n) Unit
  | 0 => return
  | fuel + 1 => do
    let moved ← turn (List.range (← Action.get fun machine => machine.threads.size))
    if moved then runTurns fuel

end Machine

/-- More turns than the threads need: a task takes no more than some steps for each frame. -/
def turnBound (n : Nat) (programs : List (List Task)) : Nat :=
  (programs.foldl (fun count tasks => count + tasks.length) 0) * (4 * n + 16) + 1

/-- Let threads work on a cache, each taking a step in turn. The answer is what each of them found, in
    order. -/
def runThreads (programs : List (List Task)) : Action (Cache δ n) (List (List Finding)) :=
  fun cache =>
    match Machine.runTurns (turnBound n programs) (Machine.start cache programs) with
    | ⟨result, machine, log⟩ =>
      ⟨result.map fun () => machine.threads.toList.map fun thread => thread.found.reverse,
        machine.shared.cache, log⟩

end InodeStore.Cache
