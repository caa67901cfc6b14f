import InodeStore.Proofs.Inode.Discretion
import InodeStore.Proofs.Volume.Saving

/-!
# `Proofs.Volume.Mounting` — a volume taken up from its device

Where a device has a free map on it, a mount with any number of frames that fit into memory reads it off its
file, although the map it starts with has no sector taken (`HoldsMap.mounts`). If the device has all of an
archive, the volume is then that of the same archive (`OnDevice.mounts`). Only nothing is open but the
free-map file (`Archive.mounted`). Frames that do not fit are a fault that leaves the device alone
(`mount_beyond`).
-/

namespace InodeStore

open Inode Volume

namespace Archive

/-- The volume takes a handle on the free-map file. -/
def attended (a : Archive) : Archive :=
  a.change freeMapFile fun inode => { inode with openCount := inode.openCount + 1 }

/-- Nothing is open but the free-map file, through the volume's handle. -/
def mounted (a : Archive) : Archive := attended { a with open? := fun _ => none }

variable {a : Archive}

/-- Nobody keeps it from writing to the file, whatever was denied before. -/
theorem Houses.mounted {denials : Nat → Prop} (h : a.Houses denials) : a.mounted.Kept :=
  ⟨h.mapFile, ⟨⟨1, 0, false, false⟩, rfl, rfl⟩, h.noSpare⟩

/-- Where nothing is open any more all else is as before. -/
theorem Sound.unopened (h : a.Sound) : Sound { a with open? := fun _ => none } :=
  ⟨h.lawful, h.nodup, h.owned, h.apart, h.spare, h.covered, nofun⟩

theorem Sound.mounted (h : a.Sound) (hlive : (a.record? freeMapSector).isSome = true) : a.mounted.Sound := by
  show (Archive.change { a with open? := fun _ => none } freeMapFile fun inode =>
    { inode with openCount := inode.openCount + 1 }).Sound
  exact h.unopened.change hlive (Nat.succ_pos _) rfl

end Archive

theorem Represents.attend {p : Plain} {a : Archive} (h : Represents p a)
    (hlive : (a.record? freeMapSector).isSome = true) :
    Represents { p with registry := p.registry.change freeMapFile fun inode =>
      { inode with openCount := inode.openCount + 1 } } a.attended :=
  h.change hlive (Nat.succ_pos _) (h.sound.idle freeMapFile)

section Mounting

variable {δ : Type} {n limit : Nat} [BlockDevice δ] {store store' : Store δ n} {device : δ} {a : Archive}
  {map : FreeMap}

/-! ## Bringing up -/

/-- A volume goes on from a routine that gets done. -/
theorem bringUp_done {discard : Store δ n → Reply δ Unit} {r : Routine Unit} {log : List Event}
    (next : Store δ n → Opening δ n × List Event) (h : store.run r = ⟨.ok (.ok ()), store', log⟩) :
    bringUp discard store r next = ((next store').1, log ++ (next store').2) := by
  unfold bringUp
  rw [h]

/-- It is given up after a routine that is refused. -/
theorem bringUp_refused {discard : Store δ n → Reply δ Unit} {r : Routine Unit} {log : List Event}
    {e : Error} (next : Store δ n → Opening δ n × List Event)
    (h : store.run r = ⟨.ok (.error e), store', log⟩) :
    bringUp discard store r next =
      (.down (.refused e) (discard store').state, log ++ (discard store').log) := by
  unfold bringUp
  rw [h]

/-- **Frames that do not fit into memory** are a fault, and the device is as it was. -/
theorem mount_beyond (hn : 0 < n) {e : Fault} (h : Fault.ofDemand? (n * Frame.footprint) limit = some e) :
    mount n device limit = (.down (.faulted e) device, []) := by
  unfold Volume.mount Cache.create
  rw [if_neg (Nat.ne_of_gt hn), h]

omit [BlockDevice δ] in
/-- A cache that is set up has a frame, and there is memory for all its frames. -/
theorem create_ok {cache : Cache δ n} (h : Cache.create n device limit = .ok cache) :
    0 < n ∧ Fault.ofDemand? (n * Frame.footprint) limit = none ∧ cache = Cache.blank n device := by
  unfold Cache.create at h
  split at h
  · cases h
  · next hn =>
    split at h
    · cases h
    · next hroom => exact ⟨Nat.pos_of_ne_zero hn, hroom, (Except.ok.inj h).symm⟩

omit [BlockDevice δ] in
/-- Frames that do fit make an empty cache. -/
theorem create_eq (hn : 0 < n) (h : Fault.ofDemand? (n * Frame.footprint) limit = none) :
    Cache.create n device limit = .ok (Cache.blank n device) := by
  unfold Cache.create
  rw [if_neg (Nat.ne_of_gt hn), h]

variable [LawfulDevice δ]

/-! ## Taking over -/

/-- The store that a volume is brought up from: nothing is taken and nothing is open. -/
def Plain.unmounted (device : δ) (map : FreeMap) : Plain :=
  ⟨LawfulDevice.block device, BlockDevice.sectorCount device, map, .empty, [], []⟩

theorem unmounted_stands (h : LawfulDevice.Sound device) (map : FreeMap) :
    Stands (⟨Cache.blank n device, map, .empty⟩ : Store δ n) (Plain.unmounted device map) :=
  ⟨Cache.blank_coherent h, Cache.blank_unpinned device, rfl, rfl, rfl⟩

/-- A device has a free map on it: its file begins with the map, and the sectors of the file are taken. -/
structure HoldsMap (device : δ) (map : FreeMap) : Prop where
  working : LawfulDevice.Sound device
  count : BlockDevice.sectorCount device = map.sectors
  lawful : map.Lawful
  mapFile : ∃ d f, OnRecord (LawfulDevice.block device) freeMapSector d f ∧
    (f.sectors freeMapSector).Nodup ∧ (∀ y ∈ f.sectors freeMapSector, map.HasTaken y) ∧
      map.byteLength ≤ f.bytes.size ∧ f.bytes.extract 0 map.byteLength = map.toBytes

/-- So has one with an archive. -/
theorem OnDevice.holds (h : OnDevice device a) : HoldsMap device a.freeMap := by
  obtain ⟨f, hf, hrecord, hlong⟩ := h.kept.record_eq
  obtain ⟨d, hfile⟩ := h.record hf
  exact ⟨h.working, h.count, h.sound.lawful, d, f, hfile, h.sound.nodup hf, fun y => h.sound.owned hf, hlong,
    hrecord ▸ h.mapFile⟩

/-- A file can be read before it is known which sectors are taken. -/
theorem Inode.OnRecord.reads {p : Plain} {x : SectorId} {d : Descriptor} {f : FileRecord} (h : OnRecord p.block x d f)
    (hmap : map.Lawful) (hcount : p.count = map.sectors) (hnodup : (f.sectors x).Nodup)
    (htaken : ∀ y ∈ f.sectors x, map.HasTaken y) (offset count : Nat) :
    Informed false map.HasTaken (Inode.read ⟨x⟩ offset count) p
      (.ok (f.bytes.extract offset (min (offset + count) f.bytes.size))) p map.HasTaken := by
  -- it would be read so if that were known, and reading does not depend on it
  have hfile : OnRecord ({ p with freeMap := map } : Plain).block x d f := h
  have hat : FileAt { p with freeMap := map } x d f :=
    hfile.fileAt hmap (Nat.le_of_eq hcount.symm) hnodup htaken
  have hread : Runs true (Inode.read ⟨x⟩ offset count) _ (.ok _) _ := hat.read_runs
  have hlearns : Learns true map.HasTaken (Inode.read ⟨x⟩ offset count) _ _ _ :=
    hread.learns (read_looks _ _).fills_of_view fun t ht => ⟨hcount ▸ ht.1, ht.2 rfl⟩
  exact (Informed.remap hlearns (read_looks _ _) p.freeMap).narrow fun _ ht => .inl ht

/-- So can the free-map file, before the free map is known. -/
theorem HoldsMap.reads (h : HoldsMap device map) {p : Plain}
    (hblock : p.block = LawfulDevice.block device) (hcount : p.count = map.sectors) :
    Informed false map.HasTaken (Inode.read freeMapFile 0 map.byteLength) p (.ok map.toBytes) p
      map.HasTaken := by
  obtain ⟨d, f, hfile, hnodup, htaken, hlong, hbytes⟩ := h.mapFile
  rw [← hblock] at hfile
  have hread := hfile.reads h.lawful hcount hnodup htaken 0 map.byteLength
  rwa [Nat.zero_add, Nat.min_eq_left hlong, hbytes] at hread

theorem Runs.openInode {guarded : Bool} {p : Plain} (x : SectorId) :
    Runs guarded (Routine.openInode x) p (.ok ⟨x⟩)
      { p with registry := p.registry.change ⟨x⟩ fun inode =>
          { inode with openCount := inode.openCount + 1 } } :=
  Runs.perform .openInode

/-- **The free map is taken over** from its file, whatever is known of the sectors before. -/
theorem HoldsMap.loads (h : HoldsMap device map) {p : Plain}
    (hblock : p.block = LawfulDevice.block device) (hcount : p.count = map.sectors)
    (hblank : p.freeMap = .blank map.sectors) :
    Informed false map.HasTaken (do
      let bytes ← Inode.read freeMapFile 0 map.byteLength
      if bytes.size ≠ map.byteLength then Routine.fault .mapFileTruncated
      else Routine.loadMap bytes) p (.ok ()) { p with freeMap := map } map.HasTaken := by
  have hgroups : p.freeMap.groups.size = map.groups.size := by
    rw [hblank, h.lawful.size, FreeMap.blank_size]
  have hsectors : p.freeMap.sectors = map.sectors := by
    rw [hblank]
    rfl
  have hload : FreeMap.load map.toBytes p.freeMap = ⟨.ok (), map, []⟩ :=
    h.lawful.load_toBytes hsectors hgroups
  have hanswer : Answers false (.loadMap map.toBytes) p _ _ := .loadMap
  rw [hload] at hanswer
  apply (h.reads hblock hcount).bind
  rw [if_neg (not_not_intro map.toBytes_size)]
  exact Informed.perform nofun hanswer

/-- The store of a volume that was taken over: the free map is known, and its file is open. -/
def Plain.takenOver (device : δ) (map : FreeMap) : Plain :=
  { Plain.unmounted device map with
    registry := Registry.empty.change freeMapFile fun inode =>
      { inode with openCount := inode.openCount + 1 } }

/-- To take a volume over is to look at taken sectors only. -/
theorem HoldsMap.takesOver (h : HoldsMap device map) :
    Informed false map.HasTaken (takeOver map.byteLength)
      (Plain.unmounted device (.blank map.sectors)) (.ok ()) (Plain.takenOver device map) map.HasTaken := by
  have hopen : Informed false map.HasTaken (Routine.openInode freeMapSector)
      (Plain.unmounted device (.blank map.sectors)) _ _ map.HasTaken := .perform nofun .openInode
  have hload := h.loads (p := { Plain.unmounted device (.blank map.sectors) with
    registry := Registry.empty.change freeMapFile fun inode =>
      { inode with openCount := inode.openCount + 1 } }) rfl h.count rfl
  exact hopen.bind (hload.attempt.bind (Informed.pure ()))

/-- **A mount** of a device that has a free map brings a volume up with this map. -/
theorem HoldsMap.mounts (h : HoldsMap device map) (hn : 0 < n)
    (hroom : Fault.ofDemand? (n * Frame.footprint) limit = none) :
    ∃ store : Store δ n, (mount n device limit).1 = .up store ∧ Stands store (Plain.takenOver device map) := by
  obtain ⟨store, log, hrun, hs, -⟩ :=
    h.takesOver.runs.run_eq (n := n) hn (unmounted_stands h.working _)
  refine ⟨store, ?_, hs⟩
  unfold Volume.mount
  rw [create_eq hn hroom, h.count]
  exact congrArg Prod.fst (bringUp_done _ hrun)

/-- The files of an archive are on the device. -/
theorem OnDevice.represents (h : OnDevice device a) :
    Represents (Plain.unmounted device a.freeMap) { a with open? := fun _ => none } :=
  ⟨h.sound.unopened, rfl, Nat.le_of_eq h.count.symm, Registry.lists_empty, h.record⟩

/-- A store that took the volume over is that of the archive, and the handle is counted. -/
theorem OnDevice.serves (h : OnDevice device a) (hn : 0 < n)
    (hs : Stands store (Plain.takenOver device a.freeMap)) :
    Serves store (Plain.takenOver device a.freeMap) a.mounted := by
  obtain ⟨f, hf, -⟩ := h.kept.mapFile
  exact ⟨hn, hs, h.represents.attend (congrArg Option.isSome hf), h.kept.houses.mounted, h.count⟩

/-- A device that has an archive brings the archive's volume up. -/
theorem OnDevice.mounts (h : OnDevice device a) (hn : 0 < n)
    (hroom : Fault.ofDemand? (n * Frame.footprint) limit = none) :
    ∃ (store : Store δ n) (p : Plain), (mount n device limit).1 = .up store ∧ Serves store p a.mounted := by
  obtain ⟨store, hup, hs⟩ := h.holds.mounts hn hroom
  exact ⟨store, _, hup, h.serves hn hs⟩

end Mounting

end InodeStore
