import InodeStore.Proofs.FreeMap.Stored
import InodeStore.Proofs.Store.Sequences
import InodeStore.Proofs.Volume.Clients

/-!
# `Proofs.Volume.Saving` — what a persisted volume leaves on its device

To persist a volume is to write the free map over the bytes of its file, which neither takes a sector nor
lengthens the file (`Archive.Kept.persists`), and then to flush the cache. The device has then every block
of the store (`Written`), and so all that the archive can be taken up from again (`OnDevice`). That is so
whether the engine is given up on the spot, ended or shut down (`Leaves`, `Leaves.onDevice`).

If writing to the file is denied nothing is written there (`Archive.write_denied`), and all the rest is done as
if it had been (`Hosts.persist`, `Hosts.shutdown`).
-/

namespace InodeStore

open Inode Volume

/-! ## The free-map file -/

namespace Archive

/-- The free map is written to its file. -/
def persisted (a : Archive) : Archive := (a.write freeMapFile 0 a.freeMap.toBytes).2

variable {a : Archive} {denials : Nat → Prop}

theorem Houses.record_eq (h : a.Houses denials) :
    ∃ f, a.record? freeMapSector = some f ∧ a.record freeMapFile = f ∧
      a.freeMap.byteLength ≤ f.bytes.size := by
  obtain ⟨f, hf, hlong⟩ := h.mapFile
  exact ⟨f, hf, congrArg (Option.getD · _) hf, hlong⟩

theorem Kept.record_eq (h : a.Kept) :
    ∃ f, a.record? freeMapSector = some f ∧ a.record freeMapFile = f ∧
      a.freeMap.byteLength ≤ f.bytes.size := h.houses.record_eq

/-- A free map that has a file has bytes. -/
theorem Houses.byteLength_pos (h : a.Houses denials) (hs : a.Sound) : 0 < a.freeMap.byteLength := by
  obtain ⟨f, hf, -⟩ := h.mapFile
  have hinside := (hs.owned hf (self_mem_sectors f _)).1
  unfold FreeMap.byteLength
  omega

/-- **The free map fits into its file**, which keeps its sectors. -/
theorem Kept.persists (h : a.Kept) (hs : a.Sound) (hlong : (a.record freeMapFile).bytes.size ≤ maxFileSize) :
    a.write freeMapFile 0 a.freeMap.toBytes = (.ok a.freeMap.byteLength,
      a.filed freeMapSector ((a.record freeMapFile).written 0 a.freeMap.toBytes []) []) := by
  obtain ⟨f, -, hrecord, hroom⟩ := h.record_eq
  have hskips : ¬ a.ledger.Skips freeMapFile a.freeMap.toBytes := by
    have hpos := h.houses.byteLength_pos hs
    have hdeny : (a.ledger.entry freeMapFile).denyCount = 0 := h.denyCount rfl
    unfold Ledger.Skips
    rw [FreeMap.toBytes_size]
    omega
  have hinside : 0 + a.freeMap.toBytes.size ≤ (a.record freeMapFile).bytes.size := by
    rw [FreeMap.toBytes_size, hrecord]
    omega
  unfold Archive.write
  rw [if_neg hskips, claim_inside _ hinside hlong, FreeMap.toBytes_size]
  rfl

/-- The first bytes of a string that was put over the front of another one. -/
theorem extract_patched {bytes data : Bytes} (h : data.size ≤ bytes.size) :
    (patched bytes 0 data).extract 0 data.size = data := by
  apply Array.ext_getElem?
  intro i
  rw [Array.getElem?_extract, size_patched (by omega), Nat.min_eq_left h, Nat.zero_add, Nat.sub_zero,
    getElem?_patched (by omega)]
  split
  · next hi => rw [if_pos (by omega), Nat.sub_zero]
  · next hi => exact (Array.getElem?_eq_none (Nat.le_of_not_lt hi)).symm

section Kept

variable (h : a.Kept) (hs : a.Sound) (hlong : (a.record freeMapFile).bytes.size ≤ maxFileSize)
include h hs hlong

theorem Kept.persisted_eq : a.persisted =
    a.filed freeMapSector ((a.record freeMapFile).written 0 a.freeMap.toBytes []) [] :=
  congrArg Prod.snd (h.persists hs hlong)

/-- Nothing is taken from the free map. -/
theorem Kept.freeMap_persisted : a.persisted.freeMap = a.freeMap := by
  rw [h.persisted_eq hs hlong]
  rfl

/-- Then its file begins with the free map. -/
theorem Kept.extract_persisted :
    (a.persisted.record freeMapFile).bytes.extract 0 a.freeMap.byteLength = a.freeMap.toBytes := by
  obtain ⟨f, -, hrecord, hroom⟩ := h.record_eq
  have hsize : a.freeMap.toBytes.size = a.freeMap.byteLength := a.freeMap.toBytes_size
  have hput : a.persisted.record freeMapFile =
      (a.record freeMapFile).written 0 a.freeMap.toBytes [] := by
    rw [h.persisted_eq hs hlong]
    exact congrArg (Option.getD · _) (Function.update_self freeMapSector _ a.record?)
  rw [hput, hrecord, written_inside f (by omega), ← hsize]
  exact extract_patched (hsize ▸ hroom)

end Kept

/-- **A denied write** of the free map is answered too, and nothing is written. -/
theorem write_denied (hdeny : (a.ledger.entry freeMapFile).denyCount ≠ 0) :
    a.write freeMapFile 0 a.freeMap.toBytes = (.ok 0, a) := by
  unfold Archive.write
  rw [if_pos (.inl (Nat.pos_of_ne_zero hdeny))]

theorem persisted_denied (hdeny : (a.ledger.entry freeMapFile).denyCount ≠ 0) : a.persisted = a :=
  congrArg Prod.snd (write_denied hdeny)

variable (h : a.Houses denials) (hs : a.Sound) (hlong : (a.record freeMapFile).bytes.size ≤ maxFileSize)
include h hs hlong

/-- Denied or not, the write is answered, … -/
theorem Houses.write_eq : ∃ count, a.write freeMapFile 0 a.freeMap.toBytes = (.ok count, a.persisted) := by
  by_cases hdeny : (a.ledger.entry freeMapFile).denyCount = 0
  · have hkept := h.kept hdeny
    rw [hkept.persisted_eq hs hlong]
    exact ⟨_, hkept.persists hs hlong⟩
  · rw [persisted_denied hdeny]
    exact ⟨_, write_denied hdeny⟩

/-- … and takes no sector. -/
theorem Houses.freeMap_persisted : a.persisted.freeMap = a.freeMap := by
  by_cases hdeny : (a.ledger.entry freeMapFile).denyCount = 0
  · exact (h.kept hdeny).freeMap_persisted hs hlong
  · rw [persisted_denied hdeny]

end Archive

section Saving

variable {δ : Type} {n : Nat} [BlockDevice δ] [LawfulDevice δ] {store : Store δ n} {p p' : Plain}
  {a : Archive} {device : δ}

/-! ## Devices -/

/-- A device has every block of a store. -/
structure Written (device : δ) (p : Plain) : Prop where
  sound : LawfulDevice.Sound device
  count : BlockDevice.sectorCount device = p.count
  block : ∀ {s : SectorId}, s.toNat < p.count → LawfulDevice.block device s = p.block s

/-- A device has all that an archive can be taken up from. -/
structure OnDevice (device : δ) (a : Archive) : Prop where
  working : LawfulDevice.Sound device
  count : BlockDevice.sectorCount device = a.freeMap.sectors
  sound : a.Sound
  kept : a.Kept
  record : ∀ {s f}, a.record? s = some f → ∃ d, OnRecord (LawfulDevice.block device) s d f
  /-- The free-map file begins with the free map. -/
  mapFile : (a.record freeMapFile).bytes.extract 0 a.freeMap.byteLength = a.freeMap.toBytes

/-- Only the blocks matter. -/
theorem Written.of_block (h : Written device p') (hblock : p'.block = p.block)
    (hcount : p'.count = p.count) : Written device p := by
  refine ⟨h.sound, h.count.trans hcount, ?_⟩
  intro s hlt
  rw [← hblock]
  exact h.block (hcount.symm ▸ hlt)

/-- A file is read off a device that has its blocks. -/
theorem Written.record (h : Written device p) (hr : Represents p a) {s : SectorId} {f : FileRecord}
    (hf : a.record? s = some f) : ∃ d, OnRecord (LawfulDevice.block device) s d f := by
  obtain ⟨d, hrecord⟩ := hr.record hf
  have hblock : ∀ y ∈ f.sectors s, LawfulDevice.block device y = p.block y := fun y hy =>
    h.block (Nat.lt_of_lt_of_le (hr.sound.owned hf hy).1 hr.fits)
  exact ⟨d, hrecord.frame (hblock s (Archive.self_mem_sectors f s))
    fun y hy => hblock y (List.mem_append_left _ hy)⟩

/-- **A flush** brings every block to the device. -/
theorem Stands.flush (hs : Stands store p) :
    ∃ store' log, Store.perform .flushCache store = ⟨.ok (), store', log⟩ ∧ Stands store' p ∧
      Written store'.cache.device p := by
  obtain ⟨cache, log, hrun, hcoherent, -, hcount, hall⟩ := Cache.flush_coherent hs.coherent
  have hunpinned : cache.Unpinned := fun i => (hall i).symm ▸ hs.unpinned i
  have hcount := hcount.trans hs.count
  refine ⟨⟨cache, store.freeMap, store.registry⟩, log, ?_,
    ⟨hcoherent, hunpinned, hs.freeMap, hs.registry, hcount⟩, hcoherent.device, hcount, ?_⟩
  · obtain ⟨cache', freeMap, registry⟩ := store
    have hrun : Cache.flush cache' = ⟨.ok (), cache, log⟩ := hrun
    simp only [Store.perform, Store.onCache, hrun]
    rfl
  · intro s hlt
    exact hcoherent.block_eq (fun j => (hall j).symm ▸ rfl) (hcount.symm ▸ hlt)

/-- So does the end of a store. -/
theorem Stands.discard (hs : Stands store p) :
    ∃ device log, store.discard = ⟨.ok (), device, log⟩ ∧ Written device p := by
  obtain ⟨store', log, hrun, -, hwritten⟩ := hs.flush
  refine ⟨store'.cache.device, log, ?_, hwritten⟩
  obtain ⟨cache, freeMap, registry⟩ := store
  have hstate : (Cache.flush cache).state = store'.cache := congrArg (·.state.cache) hrun
  have hlog : (Cache.flush cache).log = log := congrArg Reply.log hrun
  have hresult : (Cache.flush cache).result = .ok () := congrArg Reply.result hrun
  show (⟨(Cache.flush cache).result, (Cache.flush cache).state.device, (Cache.flush cache).log⟩ :
    Reply δ Unit) = _
  rw [hstate, hlog, hresult]

theorem Stands.giveUp (hs : Stands store p) :
    ∃ device log, Volume.discard store = ⟨.ok (), device, log⟩ ∧ Written device p := by
  obtain ⟨device, log, hrun, hwritten⟩ := hs.discard
  refine ⟨device, log ++ [.handleDropped freeMapSector], ?_, hwritten⟩
  unfold Volume.discard
  rw [hrun]

/-! ## Persisting -/

theorem Represents.mapFile_size (h : Represents p a) {denials : Nat → Prop} (hhouses : a.Houses denials) :
    (a.record freeMapFile).bytes.size ≤ maxFileSize := by
  obtain ⟨f, hf, hrecord, -⟩ := hhouses.record_eq
  obtain ⟨d, hfile⟩ := h.record hf
  rw [hrecord, ← hfile.holds.size]
  exact hfile.stored.size

/-- The bytes of the map, the write of them, the flush. -/
theorem Represents.persist (h : Represents p a) (hkept : a.Kept) :
    Gives true Volume.persist p (.ok (), a.persisted) := by
  obtain ⟨p', hwrite, hrepresents⟩ := h.write hkept.hasOpen 0 a.freeMap.toBytes
  rw [hkept.persists h.sound (h.mapFile_size hkept.houses)] at hwrite
  have hbytes : Runs true Routine.mapBytes p (.ok a.freeMap.toBytes) p :=
    h.freeMap ▸ Runs.perform .mapBytes
  exact ⟨p', hbytes.bind (hwrite.bind (Runs.perform .flushCache)), hrepresents⟩

/-- **Persisting** a volume writes the free map to its file, if that is not denied, and every block to the
    device. -/
theorem Hosts.persist (h : Hosts store p a) :
    ∃ saved log p', store.run Volume.persist = ⟨.ok (.ok ()), saved, log⟩ ∧ Hosts saved p' a.persisted ∧
      Written saved.cache.device p' := by
  have hlong := h.represents.mapFile_size h.houses
  obtain ⟨count, heq⟩ := h.houses.write_eq h.represents.sound hlong
  obtain ⟨p', hwrite, hrepresents⟩ := h.represents.write h.houses.hasOpen 0 a.freeMap.toBytes
  rw [heq] at hwrite hrepresents
  -- the bytes of the map, the write of them, the flush
  have hbytes : Runs true Routine.mapBytes p (.ok p.freeMap.toBytes) p := Runs.perform .mapBytes
  obtain ⟨store₁, log₁, hs₁, -, hrun₁⟩ := hbytes.run_bind h.frames h.stands fun bytes => do
    let _ ← Inode.write freeMapFile 0 bytes
    Routine.flushCache
  rw [h.represents.freeMap] at hrun₁
  obtain ⟨store₂, log₂, hs₂, -, hrun₂⟩ := hwrite.run_bind h.frames hs₁ fun _ => Routine.flushCache
  obtain ⟨saved, log₃, hflush, hsaved, hwritten⟩ := hs₂.flush
  have hrun₃ : store₂.run Routine.flushCache = ⟨.ok (.ok ()), saved, log₃⟩ := by
    have hperform := store₂.run_perform .flushCache
    rw [hflush] at hperform
    exact hperform
  rw [hrun₃] at hrun₂
  rw [hrun₂] at hrun₁
  refine ⟨saved, _, p', hrun₁, ⟨h.frames, hsaved, hrepresents, h.houses.write 0 _, ?_⟩, hwritten⟩
  rw [hwrite.count_eq, h.count, h.houses.freeMap_persisted h.represents.sound hlong]

variable (h : Serves store p a)
include h

theorem Serves.mapFile_size : (a.record freeMapFile).bytes.size ≤ maxFileSize :=
  h.represents.mapFile_size h.kept.houses

theorem Serves.freeMap_persisted : a.persisted.freeMap = a.freeMap :=
  h.kept.freeMap_persisted h.represents.sound h.mapFile_size

/-- A volume in use stays so. -/
theorem Serves.persist : ∃ saved log p', store.run Volume.persist = ⟨.ok (.ok ()), saved, log⟩ ∧
    Serves saved p' a.persisted ∧ Written saved.cache.device p' := by
  obtain ⟨saved, log, p', hrun, hsaved, hwritten⟩ := h.hosts.persist
  exact ⟨saved, log, p', hrun, hsaved.serves (h.kept.write 0 _), hwritten⟩

/-- What was persisted can be taken up from the device. -/
theorem Written.onDevice (hrepresents : Represents p' a.persisted)
    (hcount : p'.count = a.persisted.freeMap.sectors) (hwritten : Written device p') :
    OnDevice device a.persisted := by
  refine ⟨hwritten.sound, hwritten.count.trans hcount, hrepresents.sound, h.kept.write 0 _,
    hwritten.record hrepresents, ?_⟩
  rw [h.freeMap_persisted]
  exact h.kept.extract_persisted h.represents.sound h.mapFile_size

omit h in
/-- The end of a handle does not change a block. -/
theorem Represents.close_block (hr : Represents p a) {handle : Handle}
    (hopen : a.ledger.HasOpen handle) :
    ∃ p', Runs false (Inode.close handle) p (.ok ()) p' ∧ p'.block = p.block ∧ p'.count = p.count := by
  obtain ⟨d, -, hfile, -⟩ := hr.open_file hopen
  have hclose := hr.registry_close handle
  by_cases hmany : 1 < (a.ledger.entry handle).openCount
  · rw [if_pos hmany] at hclose
    exact ⟨_, (close_runs hclose).unguarded, rfl, rfl⟩
  rw [if_neg hmany] at hclose
  cases hremoved : (a.ledger.entry handle).removed with
  | true =>
    rw [hremoved] at hclose
    exact ⟨_, hfile.close_last hclose, rfl, rfl⟩
  | false =>
    rw [hremoved] at hclose
    exact ⟨_, (close_runs hclose).unguarded, rfl, rfl⟩

omit h [LawfulDevice δ] in
/-- A shutdown, part by part. -/
theorem shutdown_eq {saved closed : Store δ n} {log log' log'' : List Event}
    (hpersist : store.run Volume.persist = ⟨.ok (.ok ()), saved, log⟩)
    (hclose : saved.run (Inode.close freeMapFile) = ⟨.ok (.ok ()), closed, log'⟩)
    (hdiscard : closed.discard = ⟨.ok (), device, log''⟩) :
    Volume.shutdown store = ⟨.ok (.ok ()), device, log ++ log' ++
      .shutDown closed.cache.stats.accesses closed.cache.stats.hits closed.cache.stats.deviceWrites ::
        log''⟩ := by
  unfold Volume.shutdown
  rw [hpersist]
  simp only [hclose, hdiscard]
  rfl

omit h in
/-- A volume that was persisted is shut down without changing a block. -/
theorem Hosts.leave {saved : Store δ n} {log : List Event} (hsaved : Hosts saved p a)
    (hpersist : store.run Volume.persist = ⟨.ok (.ok ()), saved, log⟩) :
    (Volume.shutdown store).result = .ok (.ok ()) ∧ Written (Volume.shutdown store).state p := by
  obtain ⟨p', hclose, hblock, hcount⟩ := hsaved.represents.close_block hsaved.houses.hasOpen
  obtain ⟨closed, log', hrun, hs', -⟩ := hclose.run_eq hsaved.frames hsaved.stands
  obtain ⟨device, log'', hdiscard, hwritten⟩ := hs'.discard
  rw [shutdown_eq hpersist hrun hdiscard]
  exact ⟨rfl, hwritten.of_block hblock hcount⟩

omit h in
/-- **A shutdown** persists the volume, and ends it. -/
theorem Hosts.shutdown (h : Hosts store p a) : ∃ p', (Volume.shutdown store).result = .ok (.ok ()) ∧
    Represents p' a.persisted ∧ p'.count = a.persisted.freeMap.sectors ∧
      Written (Volume.shutdown store).state p' := by
  obtain ⟨saved, log, p', hpersist, hsaved, -⟩ := h.persist
  obtain ⟨hresult, hwritten⟩ := hsaved.leave hpersist
  exact ⟨p', hresult, hsaved.represents, hsaved.count, hwritten⟩

/-! ## Leaving -/

omit h [LawfulDevice δ] in
/-- The devices that are left of a volume that was persisted and given up right after. -/
inductive Leaves (store : Store δ n) : δ → Prop where
  /-- Nothing is done any more. -/
  | halted {saved : Store δ n} {log : List Event}
      (hrun : store.run Volume.persist = ⟨.ok (.ok ()), saved, log⟩) : Leaves store saved.cache.device
  /-- The store is ended. -/
  | ended {saved : Store δ n} {log : List Event}
      (hrun : store.run Volume.persist = ⟨.ok (.ok ()), saved, log⟩) :
      Leaves store (Volume.discard saved).state
  /-- The volume is shut down. -/
  | shutDown (hresult : (Volume.shutdown store).result = .ok (.ok ())) :
      Leaves store (Volume.shutdown store).state

omit h in
/-- **Whatever way the volume is left**, the device has every block. -/
theorem Leaves.written (hleaves : Leaves store device) (h : Hosts store p a) :
    ∃ p', Represents p' a.persisted ∧ p'.count = a.persisted.freeMap.sectors ∧ Written device p' := by
  obtain ⟨saved, log, p₁, hpersist, hsaved, hwritten⟩ := h.persist
  cases hleaves with
  | halted hrun =>
    rw [hpersist] at hrun
    obtain ⟨-, rfl, -⟩ := Reply.mk.inj hrun
    exact ⟨p₁, hsaved.represents, hsaved.count, hwritten⟩
  | ended hrun =>
    rw [hpersist] at hrun
    obtain ⟨-, rfl, -⟩ := Reply.mk.inj hrun
    obtain ⟨device, log, hdiscard, hended⟩ := hsaved.stands.giveUp
    rw [hdiscard]
    exact ⟨p₁, hsaved.represents, hsaved.count, hended⟩
  | shutDown =>
    obtain ⟨p₂, -, hrepresents, hcount, hleft⟩ := h.shutdown
    exact ⟨p₂, hrepresents, hcount, hleft⟩

/-- It has what was persisted. -/
theorem Leaves.onDevice (hleaves : Leaves store device) : OnDevice device a.persisted := by
  obtain ⟨p', hrepresents, hcount, hwritten⟩ := hleaves.written h.hosts
  exact hwritten.onDevice h hrepresents hcount

end Saving

end InodeStore
