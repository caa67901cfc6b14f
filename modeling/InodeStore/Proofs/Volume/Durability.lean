import InodeStore.Proofs.Volume.Usage

/-!
# `Proofs.Volume.Durability` — what was persisted is there again

Whatever way a volume in use is left once it is persisted, a mount with any number of frames finds the same
free map and the same files with the same sectors (`volume_durable`), if the frames fit into memory: if not,
it is a fault (`mount_too_large`).
-/

namespace InodeStore

open Inode Volume

section Durability

variable {δ : Type} [BlockDevice δ] [LawfulDevice δ] {n m : Nat} {store : Store δ n} {ledger : Ledger}
  {p : Plain} {a : Archive}

omit [LawfulDevice δ] in
/-- The device of a volume that was persisted, with nothing done any more. -/
def haltedDevice (store : Store δ n) : δ := (store.run persist).state.cache.device

omit [LawfulDevice δ] in
theorem haltedDevice_left (h : (store.run persist).result = .ok (.ok ())) :
    Leaves store (haltedDevice store) := by
  have hrun : store.run persist = ⟨.ok (.ok ()), (store.run persist).state, (store.run persist).log⟩ := by
    rw [← h]
  exact .halted hrun

/-! ## Files -/

/-- What a store tells about the file at a sector: its content and the sectors that it owns. -/
structure Tells (store : Store δ n) (x : SectorId) (f : File) (owned : List SectorId) : Prop where
  length : (store.run (Inode.length ⟨x⟩)).result = .ok (.ok f.bytes.size)
  isDir : (store.run (Inode.isDir ⟨x⟩)).result = .ok (.ok f.isDir)
  ownedSectors : (store.run (Inode.ownedSectors x)).result = .ok (.ok owned)
  bytes : ∀ offset count, (store.run (Inode.read ⟨x⟩ offset count)).result =
    .ok (.ok (f.bytes.extract offset (min (offset + count) f.bytes.size)))

/-- A routine that only asks is answered. -/
theorem Runs.result_eq {α : Type} {guarded : Bool} {r : Routine α} {answer : α}
    (h : Runs guarded r p (.ok answer) p) (hn : 0 < n) (hs : Stands store p) :
    (store.run r).result = .ok (.ok answer) := by
  obtain ⟨_, _, hrun, -⟩ := h.run_eq hn hs
  exact congrArg Reply.result hrun

/-- A store tells what is on record. -/
theorem Serves.tells (h : Serves store p a) {x : SectorId} {f : FileRecord}
    (hf : a.record? x = some f) : Tells store x f.file (f.sectors x) := by
  obtain ⟨d, hfile⟩ := h.represents.fileAt hf
  constructor
  case length => exact hfile.length_runs.result_eq h.frames h.stands
  case isDir => exact hfile.isDir_runs.result_eq h.frames h.stands
  case ownedSectors => exact hfile.ownedSectors_runs.result_eq h.frames h.stands
  case bytes =>
    intro offset count
    exact hfile.read_runs.result_eq h.frames h.stands

/-- A volume that was taken up again has the free map and the files of the one that was persisted. Only the
    content of the free-map file is the new one. -/
structure Restored (store : Store δ n) (ledger : Ledger) (mounted : Store δ m) : Prop where
  freeMap : mounted.freeMap = store.freeMap
  files : ∀ {x f}, ledger.file? x = some f → x ≠ freeMapSector →
    ∃ owned, Tells store x f owned ∧ Tells mounted x f owned
  mapFile : ∃ f owned, ledger.file? freeMapSector = some f ∧ Tells store freeMapSector f owned ∧
    Tells mounted freeMapSector (f.written 0 store.freeMap.toBytes) owned ∧
    (f.written 0 store.freeMap.toBytes).bytes.size = f.bytes.size

/-- What was persisted, mounted. -/
theorem Serves.restored {store' : Store δ m} {p' : Plain} (h : Serves store p a)
    (h' : Serves store' p' a.persisted.mounted) : Restored store a.ledger store' := by
  have hpersisted := h.kept.persisted_eq h.represents.sound h.mapFile_size
  constructor
  case freeMap => rw [h'.freeMap_eq, h.freeMap_eq, ← h.freeMap_persisted]; rfl
  case files =>
    intro x f hf hx
    obtain ⟨g, hg, rfl⟩ := Option.map_eq_some_iff.mp hf
    have hg' : a.persisted.mounted.record? x = some g := by
      show a.persisted.record? x = some g
      rw [hpersisted]
      exact (Function.update_of_ne hx _ _).trans hg
    exact ⟨g.sectors x, h.tells hg, h'.tells hg'⟩
  case mapFile =>
    obtain ⟨g, hg, hrecord, hlong⟩ := h.kept.record_eq
    have hg' : a.persisted.mounted.record? freeMapSector =
        some (g.written 0 a.freeMap.toBytes []) := by
      show a.persisted.record? freeMapSector = _
      rw [hpersisted, hrecord]
      exact Function.update_self freeMapSector _ a.record?
    have howned : (g.written 0 a.freeMap.toBytes []).sectors freeMapSector = g.sectors freeMapSector :=
      congrArg (· ++ [freeMapSector]) (List.append_nil g.owned)
    have htells := h'.tells hg'
    rw [howned] at htells
    refine ⟨g.file, g.sectors freeMapSector, congrArg (Option.map _) hg, h.tells hg, ?_, ?_⟩
    · rw [h.freeMap_eq]
      exact htells
    · have hsize := Archive.size_written g 0 store.freeMap.toBytes []
      have hbytes : store.freeMap.toBytes.size = a.freeMap.byteLength := by
        rw [h.freeMap_eq, FreeMap.toBytes_size]
      show (g.written 0 store.freeMap.toBytes []).bytes.size = g.bytes.size
      omega

/-- **What was persisted is durable.** Whatever volume a client has got to, it can be persisted and shut
    down. A mount of a device that is left then, whether the store was ended or not, brings the volume up
    with the same free map and the same files, also those that were removed and not closed. That is so with
    any number of frames for which there is memory; too many are a fault, and leave the device alone. -/
theorem volume_durable (h : InUse store ledger) :
    (store.run persist).result = .ok (.ok ()) ∧ (shutdown store).result = .ok (.ok ()) ∧
      ∀ {device : δ}, Leaves store device → ∀ m limit, 0 < m →
        match Fault.ofDemand? (m * Frame.footprint) limit with
        | none => ∃ mounted : Store δ m, (mount m device limit).1 = .up mounted ∧
            Restored store ledger mounted
        | some e => mount m device limit = (.down (.faulted e) device, []) := by
  obtain ⟨p, a, hserves, rfl⟩ := h.serves
  obtain ⟨saved, log, p', hpersist, -⟩ := hserves.persist
  obtain ⟨-, hshutdown, -⟩ := hserves.hosts.shutdown
  refine ⟨congrArg Reply.result hpersist, hshutdown, ?_⟩
  intro device hleaves m limit hm
  cases hroom : Fault.ofDemand? (m * Frame.footprint) limit with
  | none =>
    obtain ⟨mounted, p', hup, hmounted⟩ := (hleaves.onDevice hserves).mounts hm hroom
    exact ⟨mounted, hup, hserves.restored hmounted⟩
  | some e => exact mount_beyond hm hroom

end Durability

/-! ## A small volume -/

/-- A volume that was brought up. -/
def Volume.Opening.store? {δ : Type} {n : Nat} : Opening δ n → Option (Store δ n)
  | .up store => some store
  | .down _ _ => none

theorem Volume.Opening.eq_up {δ : Type} {n : Nat} {opening : Opening δ n}
    (h : opening.store?.isSome = true) : opening = .up (opening.store?.get h) := by
  cases opening with
  | up store => rfl
  | down cause device => cases h

/-- Five sectors are enough. -/
theorem smallVolume_up : (format 1 (RamDisk.blank 5)).1.store?.isSome = true := by decide +kernel

/-- A volume of five sectors and one frame. -/
def smallVolume : Store RamDisk 1 := (format 1 (RamDisk.blank 5)).1.store?.get smallVolume_up

/-- The volume with a file of one byte, … -/
def createdVolume : Store RamDisk 1 := (Operation.create 1 false).leads smallVolume

/-- … which is open, … -/
def openedVolume : Store RamDisk 1 := (Operation.openInode 3).leads createdVolume

/-- … has another byte in it … -/
def writtenVolume : Store RamDisk 1 := (Operation.write ⟨3⟩ 0 #[7]).leads openedVolume

/-- … and is removed. -/
def leavingVolume : Store RamDisk 1 := (Operation.remove ⟨3⟩).leads writtenVolume

/-- What a caller keeps in mind about these. -/
def createdLedger : Ledger := (Ledger.formatted smallVolume.freeMap).after (.create 1 false) (.ok 3)

def openLedger : Ledger := createdLedger.after (.openInode 3) (.ok ⟨3⟩)

def writtenLedger : Ledger := openLedger.after (.write ⟨3⟩ 0 #[7]) (.ok 1)

def leavingLedger : Ledger := writtenLedger.after (.remove ⟨3⟩) (.ok ())

theorem leavingVolume_admits : createdLedger.Admits (.openInode 3) ∧
    openLedger.Admits (.write ⟨3⟩ 0 #[7]) ∧ writtenLedger.Admits (.remove ⟨3⟩) := by
  decide +kernel

theorem leavingVolume_answers :
    ((Operation.create 1 false).run smallVolume).result = .ok (.ok 3) ∧
      ((Operation.openInode 3).run createdVolume).result = .ok (.ok ⟨3⟩) ∧
      ((Operation.write ⟨3⟩ 0 #[7]).run openedVolume).result = .ok (.ok 1) ∧
      ((Operation.remove ⟨3⟩).run writtenVolume).result = .ok (.ok ()) ∧
      (leavingVolume.run persist).result = .ok (.ok ()) := by
  decide +kernel

theorem leavingVolume_inUse : InUse leavingVolume leavingLedger := by
  obtain ⟨hcreate, hopen, hwrite, hremove, -⟩ := leavingVolume_answers
  obtain ⟨hadmits₁, hadmits₂, hadmits₃⟩ := leavingVolume_admits
  have hmade : InUse smallVolume (.formatted smallVolume.freeMap) :=
    .formatted trivial (Opening.eq_up smallVolume_up)
  have hcreated : InUse createdVolume createdLedger := hmade.next ⟨trivial, nofun⟩ hcreate
  have hopened : InUse openedVolume openLedger := hcreated.next hadmits₁ hopen
  have hwritten : InUse writtenVolume writtenLedger := hopened.next hadmits₂ hwrite
  exact hwritten.next hadmits₃ hremove

/-- The removed file is there again, in a cache of two frames. -/
theorem volume_durable_removed : InUse leavingVolume leavingLedger ∧
    Leaves leavingVolume (haltedDevice leavingVolume) ∧
    ∃ mounted : Store RamDisk 2, (mount 2 (haltedDevice leavingVolume)).1 = .up mounted ∧
      Restored leavingVolume leavingLedger mounted := by
  have hleft := haltedDevice_left leavingVolume_answers.2.2.2.2
  exact ⟨leavingVolume_inUse, hleft,
    (volume_durable leavingVolume_inUse).2.2 hleft 2 memoryLimit (by decide)⟩

/-- There is no memory for so many frames, whatever its size. -/
theorem mount_too_large : InUse leavingVolume leavingLedger ∧
    Leaves leavingVolume (haltedDevice leavingVolume) ∧
    ∀ limit, (mount 18446744073709551615 (haltedDevice leavingVolume) limit).1 =
      .down (.faulted .beyondMemory) (haltedDevice leavingVolume) :=
  ⟨leavingVolume_inUse, haltedDevice_left leavingVolume_answers.2.2.2.2, fun _ =>
    congrArg Prod.fst (mount_beyond (by decide) (if_pos (by decide)))⟩

end InodeStore
