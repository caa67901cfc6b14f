import InodeStore.Action
import InodeStore.Cache.Stats
import InodeStore.Device.Basic

/-!
# `InodeStore.Cache.Basic` — a write-back cache of fixed size

`Cache δ n` keeps up to `n` sectors of a device `δ` in frames. Frames are used in an order: `recency`
lists the frames in use, the most recently used first, and `free` the others, the next one to be used
first. A sector is in the cache when a frame of `recency` carries its number; there is no second table
that could disagree.

A changed frame is dirty until its content is on the device. When a dirty frame is taken from its
sector, that sector stays in `evicting` until the device has it, so that nobody reads the device too
early. A pinned frame is never taken from its sector.

## Contents
- `Frame`, `Cache`, `Cache.blank`, `Cache.create`.
- **Views.** `frameOf?`, `isCached`, `cachedSectors`, `dirtyCount`, `stats`.
- **One frame.** `mapFrame`, `pin`, `unpin`, `touch`.
- **Steps of an access.** `claim?`, `seek`, `spill`, `settle`, `fetch`.
- **Steps of writing back and of emptying.** `writeBack`, `forget`.

The steps are what one critical section, or one transfer of the device, does; `InodeStore.Cache.Access`
runs them one after the other, `InodeStore.Cache.Threads` in any order several threads allow.
-/

namespace InodeStore

/-- A place for the content of one sector. -/
structure Frame where
  /-- The sector the frame was given to. -/
  sector : Option SectorId
  data : Block
  /-- The data is newer than the device's. -/
  dirty : Bool
  /-- The data is that of the sector. -/
  valid : Bool
  /-- Users that need the frame to stay where it is. -/
  pins : Nat

/-- A frame that was never used. -/
def Frame.blank : Frame := ⟨none, Block.zero, false, false, 0⟩

/-- Bytes of memory that a frame takes: a block, and twenty bytes that say what is in it. -/
def Frame.footprint : Nat := 532

/-- A cache of `n` frames in front of a device. -/
structure Cache (δ : Type) (n : Nat) where
  device : δ
  frames : Vector Frame n
  /-- The frames in use, the most recently used first. -/
  recency : List (Fin n)
  /-- The frames not in use, the next to be used first. -/
  free : List (Fin n)
  /-- Sectors that lost their frame but are not on the device yet, with that frame. -/
  evicting : List (SectorId × Fin n)
  accesses : Nat
  hits : Nat
  deviceReads : Nat
  deviceWrites : Nat

namespace Cache

variable {δ : Type} {n : Nat}

/-- A cache of `n` frames with nothing in it. -/
def blank (n : Nat) (device : δ) : Cache δ n where
  device
  frames := Vector.replicate n Frame.blank
  recency := []
  free := List.finRange n
  evicting := []
  accesses := 0
  hits := 0
  deviceReads := 0
  deviceWrites := 0

/-- Set up an empty cache. There has to be a frame, and all frames have to fit into memory: `limit` bytes do
    not. -/
def create (n : Nat) (device : δ) (limit : Nat := memoryLimit) : Except Fault (Cache δ n) :=
  if n = 0 then .error .noFrames
  else
    match Fault.ofDemand? (n * Frame.footprint) limit with
    | some e => .error e
    | none => .ok (blank n device)

/-! ## Views -/

/-- The number of frames. -/
def capacity (_ : Cache δ n) : Nat := n

/-- A frame by its number. -/
def frame (cache : Cache δ n) (i : Fin n) : Frame := cache.frames.get i

/-- The frame that carries a sector. -/
def frameOf? (cache : Cache δ n) (sector : SectorId) : Option (Fin n) :=
  cache.recency.find? fun i => (cache.frame i).sector == some sector

/-- Is a sector in the cache? -/
def isCached (cache : Cache δ n) (sector : SectorId) : Bool := (cache.frameOf? sector).isSome

/-- The sectors from `first` up to `last`, `last` left out, that are in the cache. -/
def cachedSectors (cache : Cache δ n) (first last : Nat) : List SectorId :=
  ((List.range' first (last - first)).map UInt32.ofNat).filter cache.isCached

/-- The frames in use that are dirty. -/
def dirtyCount (cache : Cache δ n) : Nat := cache.recency.countP fun i => (cache.frame i).dirty

/-- The counters. -/
def stats (cache : Cache δ n) : CacheStats :=
  ⟨cache.accesses, cache.hits, cache.deviceReads, cache.deviceWrites⟩

/-! ## One frame -/

/-- Change one frame. -/
def mapFrame (i : Fin n) (change : Frame → Frame) (cache : Cache δ n) : Cache δ n :=
  { cache with frames := cache.frames.set i.val (change (cache.frames.get i)) i.isLt }

/-- Keep a frame where it is. -/
def pin (i : Fin n) : Cache δ n → Cache δ n :=
  mapFrame i fun frame => { frame with pins := frame.pins + 1 }

/-- Take back one `pin`. -/
def unpin (i : Fin n) : Cache δ n → Cache δ n :=
  mapFrame i fun frame => { frame with pins := frame.pins - 1 }

/-- Make a frame the most recently used one. -/
def touch (i : Fin n) (cache : Cache δ n) : Cache δ n :=
  { cache with recency := i :: cache.recency.erase i }

/-! ## Steps of an access -/

/-- How a frame gets its content when a sector is not in the cache. -/
inductive Fill where
  /-- From the device. -/
  | readThrough
  /-- From the caller, who replaces all of it. -/
  | overwrite
  deriving DecidableEq, Repr

/-- A frame for a new sector: the next free one, or else the least recently used one that is not
    pinned. It is in neither list afterwards. -/
def claim? (cache : Cache δ n) : Option (Fin n × Cache δ n) :=
  match cache.free with
  | i :: rest => some (i, { cache with free := rest })
  | [] =>
    match cache.recency.reverse.find? fun i => (cache.frame i).pins == 0 with
    | some i => some (i, { cache with recency := cache.recency.erase i })
    | none => none

/-- What a look for a sector finds. The frame is pinned, unless it is `busy`. -/
inductive Sought (n : Nat) where
  /-- The sector is in this frame. -/
  | hit (i : Fin n)
  /-- The sector has lost this frame and is on its way to the device. -/
  | busy (i : Fin n)
  /-- The sector was given this frame. A sector named here has left changed data in it. -/
  | miss (i : Fin n) (displaced : Option SectorId)

/-- Give a claimed frame to a sector. -/
def assign (sector : SectorId) (i : Fin n) : Action (Cache δ n) (Sought n) := fun cache =>
  let frame := cache.frame i
  let displaced := if frame.dirty then frame.sector else none
  let evicting := (displaced.map fun old => (old, i)).toList ++ cache.evicting
  let cache := cache.mapFrame i fun frame =>
    { frame with sector := some sector, valid := false, pins := frame.pins + 1 }
  let log := (frame.sector.map fun old => Event.evicted old i.val).toList
  ⟨.ok (.miss i displaced), { cache with recency := i :: cache.recency, evicting }, log⟩

/-- Look for a sector and find a frame for it if it has none. -/
def seek (sector : SectorId) : Action (Cache δ n) (Sought n) := fun cache =>
  match cache.frameOf? sector with
  | some i =>
    let cache := { cache with accesses := cache.accesses + 1, hits := cache.hits + 1 }
    ⟨.ok (.hit i), (cache.touch i).pin i, []⟩
  | none =>
    match cache.evicting.lookup sector with
    | some i => ⟨.ok (.busy i), cache, []⟩
    | none =>
      let cache := { cache with accesses := cache.accesses + 1 }
      match cache.claim? with
      | some (i, cache) => assign sector i cache
      | none => ⟨.error .framesExhausted, cache, []⟩

/-- The sector `displaced` has reached the device. -/
def settle (displaced : SectorId) : Action (Cache δ n) Unit :=
  Action.modify fun cache =>
    { cache with evicting := cache.evicting.eraseP fun entry => entry.1 == displaced }

variable [BlockDevice δ]

/-- Read a sector of the device and count the transfer. -/
def readDevice (sector : SectorId) : Action (Cache δ n) Block := fun cache =>
  match BlockDevice.read sector cache.device with
  | (.ok block, device) => ⟨.ok block, { cache with device, deviceReads := cache.deviceReads + 1 }, []⟩
  | (.error e, device) => ⟨.error e, { cache with device }, []⟩

/-- Write a sector of the device and count the transfer. -/
def writeDevice (sector : SectorId) (block : Block) : Action (Cache δ n) Unit := fun cache =>
  match BlockDevice.write sector block cache.device with
  | (.ok (), device) => ⟨.ok (), { cache with device, deviceWrites := cache.deviceWrites + 1 }, []⟩
  | (.error e, device) => ⟨.error e, { cache with device }, []⟩

/-- Write what `displaced` has left in a frame to the device. -/
def spill (i : Fin n) (displaced : SectorId) : Action (Cache δ n) Unit := do
  let block ← Action.get fun cache => (cache.frame i).data
  writeDevice displaced block
  Action.modify (mapFrame i fun frame => { frame with dirty := false })

/-- Fill a frame that was given to `sector`. -/
def fetch (i : Fin n) (sector : SectorId) (fill : Fill) : Action (Cache δ n) Unit := do
  if fill = .readThrough then
    let block ← readDevice sector
    Action.modify (mapFrame i fun frame => { frame with data := block })
  Action.emit (.loaded sector i.val)
  Action.modify (mapFrame i fun frame => { frame with dirty := false, valid := true })

/-! ## Steps of writing back and of emptying -/

/-- Bring a frame's data to the device, if it is dirty. -/
def writeBack (i : Fin n) : Action (Cache δ n) Unit := do
  let frame ← Action.get fun cache => cache.frame i
  if frame.dirty then
    if let some sector := frame.sector then
      Action.emit (.writtenBack sector)
      writeDevice sector frame.data
    Action.modify (mapFrame i fun frame => { frame with dirty := false })

omit [BlockDevice δ] in
/-- Take every frame from its sector, but for those pinned or dirty, and start counting anew. -/
def forget : Action (Cache δ n) Unit := fun cache =>
  let (kept, dropped) := cache.recency.partition fun i =>
    (cache.frame i).pins != 0 || (cache.frame i).dirty
  let cache := dropped.foldl (fun cache i =>
    cache.mapFrame i fun frame => { frame with sector := none, valid := false }) cache
  let cache :=
    { cache with
      recency := kept
      free := dropped ++ cache.free
      accesses := 0
      hits := 0
      deviceReads := 0
      deviceWrites := 0 }
  ⟨.ok (), cache, [.cacheReset kept.length]⟩

end Cache

end InodeStore
