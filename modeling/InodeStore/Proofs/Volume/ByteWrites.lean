import InodeStore.Proofs.Inode.Bytewise
import InodeStore.Proofs.Store.Journaling
import InodeStore.Proofs.Volume.Denial
import InodeStore.Proofs.Volume.Following
import InodeStore.Proofs.Volume.Space

/-!
# `Proofs.Volume.ByteWrites` — small writes that reach the device as one

A file that is written byte by byte after the volume was persisted keeps the sectors of its last block, and those on
the way there, at the front of the cache until they are done with (`Trickled.next`). So when the volume is persisted
again the device has been told of every sector of the file once, and of those of the free-map file that have the
free map, unless writing to that file is denied (`byte_writes_coalesce`).
-/

namespace InodeStore

open Inode Volume

/-! ## In front of another device -/

section Mirrored

variable {δ ε : Type} {n : Nat} [BlockDevice δ] [BlockDevice ε] {mirror : δ → ε}

/-- **An operation** does the same in front of both devices. -/
theorem Operation.run_mirrored (h : Mirrors mirror) (o : Operation) :
    Store.Mirrored (n := n) mirror o.run o.run := .of_follows (o.run_follows h.shadows)

theorem Operation.leadsAll_mirrored (h : Mirrors mirror) (os : List Operation) (store : Store δ n) :
    leadsAll os (store.mapDevice mirror) = (leadsAll os store).mapDevice mirror := by
  obtain ⟨_, rfl, hleads⟩ := (leadsAll_carries h.shadows os).same (s := store) ⟨_, rfl, rfl⟩ trivial
  exact hleads

end Mirrored

section Journaled

variable {δ : Type} {n : Nat} [BlockDevice δ]

theorem Operation.leadsAll_journaled (os : List Operation) (store : Store δ n) :
    leadsAll os store = (leadsAll os (store.journaled [])).mapDevice Journaled.device :=
  leadsAll_mirrored Journaled.mirrors os (store.journaled [])

/-- A journal changes no answer, … -/
theorem Operation.result_journaled (o : Operation) (os : List Operation) (store : Store δ n) :
    (o.run (leadsAll os store)).result = (o.run (leadsAll os (store.journaled []))).result := by
  rw [leadsAll_journaled, o.run_mirrored Journaled.mirrors]

/-- … and nothing else of what becomes of a volume. -/
theorem Volume.persist_journaled (os : List Operation) (store : Store δ n) :
    let twin := (Operation.leadsAll os (store.journaled [])).run persist
    (Operation.leadsAll os store).run persist = ⟨twin.result, twin.state.mapDevice Journaled.device, twin.log⟩ := by
  intro twin
  rw [Operation.leadsAll_journaled]
  exact Store.run_mirrored Journaled.mirrors persist _

end Journaled

section ByteWrites

variable {δ : Type} {n : Nat} [BlockDevice δ] [LawfulDevice δ]

/-- A store stands for the same blocks when its device keeps a journal. -/
theorem Stands.journaled {store : Store δ n} {p : Plain} (h : Stands store p) : Stands (store.journaled []) p :=
  show Stands (store.mapDevice fun d => (⟨d, []⟩ : Journaled δ)) p from h.mapDevice h.coherent.device rfl rfl

/-! ## The free map -/

section Persist

variable {store : Store δ n} {p : Plain} {a : Archive} {d : Descriptor} {f : FileRecord}

/-- The uses for the bytes of the free map that are put over the first ones of its file, of which there are none
    where that is denied. -/
def mapTouches (p : Plain) (d : Descriptor) : List Touch :=
  if p.registry.isDenied freeMapFile then []
  else .look freeMapSector :: strokesBetween (sectorOf p.block d) 0 p.freeMap.byteLength

/-- The free map is written to its file. -/
theorem Inode.FileAt.writeMap_treads (h : FileAt p freeMapSector d f) (hn : 0 < n) (hpos : 0 < p.freeMap.byteLength)
    (hlong : p.freeMap.byteLength ≤ f.bytes.size) :
    ∃ count p', Treads δ n (Routine.mapBytes >>= fun bytes => Inode.write freeMapFile 0 bytes) p count p'
      (mapTouches p d) := by
  have hbytes : Treads δ n Routine.mapBytes p p.freeMap.toBytes p [] := .perform .mapBytes
  have hsize : p.freeMap.toBytes.size = p.freeMap.byteLength := FreeMap.toBytes_size p.freeMap
  unfold mapTouches
  by_cases hdenied : p.registry.isDenied freeMapFile = true
  · rw [if_pos hdenied]
    exact ⟨0, p, hbytes.bind hn (write_denied_treads hn hdenied)⟩
  · have hinside : 0 + p.freeMap.toBytes.size ≤ d.size := by
      rw [hsize, Nat.zero_add, h.record.holds.size]
      exact hlong
    obtain ⟨p', hwrite, -⟩ := h.write_inside_treads (δ := δ) hn (Bool.eq_false_of_not_eq_true hdenied)
      (hsize ▸ hpos) hinside
    rw [Nat.zero_add, hsize] at hwrite
    rw [if_neg hdenied]
    exact ⟨_, p', hbytes.bind hn hwrite⟩

/-- **A volume is persisted** by a write of the free map and a flush. -/
theorem Hosts.flushes (h : Hosts store p a) (hfile : FileAt p freeMapSector d f)
    (hlong : a.freeMap.byteLength ≤ f.bytes.size) :
    ∃ mid p' log, Cache.Passes (mapTouches p d) store.cache mid.cache ∧ Stands mid p' ∧
      Cache.flush mid.cache = ⟨.ok (), (store.run Volume.persist).state.cache, log⟩ := by
  have hmap : p.freeMap = a.freeMap := h.represents.freeMap
  have hpos : 0 < p.freeMap.byteLength := hmap ▸ h.houses.byteLength_pos h.represents.sound
  obtain ⟨count, p', htreads⟩ := hfile.writeMap_treads (δ := δ) h.frames hpos (hmap ▸ hlong)
  obtain ⟨mid, log, hmid, hfirst, hrun⟩ := htreads.runs.run_bind h.frames h.stands fun _ => Routine.flushCache
  have hpasses := htreads.runs.passes h.frames h.stands
  rw [htreads.touches store h.stands, hfirst] at hpasses
  obtain ⟨saved, log', hflush, -, -⟩ := hmid.flush
  have hsaved : (store.run Volume.persist).state = saved := by
    have hlast : (mid.run Routine.flushCache).state = saved := by
      have hperform := mid.run_perform .flushCache
      rw [hflush] at hperform
      exact congrArg Reply.state hperform
    exact (congrArg Reply.state hrun).trans hlast
  exact ⟨mid, p', log', hpasses, hmid, hsaved ▸ Store.onCache_eq hflush⟩

/-- Nothing is dirty in a volume that was persisted. -/
theorem Hosts.clean (h : Hosts store p a) (t : SectorId) :
    (store.run Volume.persist).state.cache.isDirty t = false := by
  obtain ⟨f, hf, -, hlong⟩ := h.houses.record_eq
  obtain ⟨d, hfile⟩ := h.represents.fileAt hf
  obtain ⟨mid, p', log, -, hmid, hflush⟩ := h.flushes hfile hlong
  have hfitted := hmid.coherent.toSound.fitted
  have hcleaned := Cache.flush_ok hfitted hflush
  exact (hcleaned.fitted hfitted).isDirty_of_clean (fun j => by rw [hcleaned.clean hfitted]) t

end Persist

/-! ## Byte by byte -/

/-- Bytes are written one after the other, from an offset on. -/
def bytewise (handle : Handle) : (offset : Nat) → List UInt8 → List Operation
  | _, [] => []
  | offset, b :: rest => .write handle offset #[b] :: bytewise handle (offset + 1) rest

/-- A file has `length` bytes, which were written one after the other since nothing was dirty, and it is not the
    free-map file. -/
structure Trickled (base : Nat) (store : Store (Journaled δ) n) (p : Plain) (a : Archive) (handle : Handle)
    (length : Nat) : Prop where
  hosts : Hosts store p a
  opened : a.ledger.HasOpen handle
  allowed : (a.ledger.entry handle).denyCount = 0
  other : handle ≠ freeMapFile
  size : (a.record handle).bytes.size = length
  fronted : ∃ d charged, FileAt p handle.sector d (a.record handle) ∧
    charged.Perm (changedSectors (sectorOf p.block d) handle.sector length) ∧
    Cache.Fronted base (front (sectorOf p.block d) handle.sector length) charged store.cache

section Trickled

variable {base length : Nat} {store : Store (Journaled δ) n} {p : Plain} {a : Archive} {handle : Handle}

/-- Where there are enough free sectors for a longer file, they are claimed. -/
theorem claim_granted {map : FreeMap} (hmap : map.Lawful) (old : Nat) (hlength : length ≤ maxFileSize)
    (hfree : totalBlocks length ≤ totalBlocks old + map.freeCount) : ∃ new, claim map old length = .ok new := by
  have hdecides := claim_decides hmap old length
  have hdone : length ≤ maxFileSize ∧ (old < length → totalBlocks length - totalBlocks old ≤ map.freeCount) :=
    ⟨hlength, fun _ => by omega⟩
  generalize claim map old length = answer at hdecides
  cases hdecides with
  | ok new => exact ⟨new, rfl⟩
  | tooLong hnot => exact absurd hdone hnot
  | exhausted hnot => exact absurd hdone hnot

/-- **A byte behind the last one** of a file is written with uses of sectors that are at the front or have not been
    changed before. -/
theorem Inode.FileAt.writeByte_treads {x : SectorId} {d : Descriptor} {f : FileRecord}
    {new charged : List SectorId} (h : FileAt p x d f) (hn : 0 < n) (hallowed : p.registry.isDenied ⟨x⟩ = false)
    (hlong : d.size < maxFileSize) (hclaim : claim p.freeMap d.size (d.size + 1) = .ok new)
    (hcharged : charged.Perm (changedSectors (sectorOf p.block d) x d.size)) (b : UInt8) :
    ∃ p' d' l charged', Treads δ n (Inode.write ⟨x⟩ d.size #[b]) p 1 p' l ∧
      FileAt p' x d' (f.written d.size #[b] new) ∧ d'.size = d.size + 1 ∧
      Cache.Coalesces 5 (front (sectorOf p.block d) x d.size) charged l (front (sectorOf p'.block d') x (d.size + 1))
        charged' ∧
      charged'.Perm (changedSectors (sectorOf p'.block d') x (d.size + 1)) := by
  have hdata : 0 < #[b].size := Nat.one_pos
  have hbeyond : d.size < d.size + #[b].size := Nat.lt_succ_self d.size
  obtain ⟨p', d', htreads, hfile'⟩ := h.write_beyond_treads (δ := δ) hn hallowed hdata hlong hbeyond hclaim
  have hsize' : d'.size = d.size + 1 := by
    rw [hfile'.record.holds.size, Archive.size_written, ← h.record.holds.size]
    exact Nat.max_eq_right (Nat.le_succ d.size)
  -- the sectors of the file stay where they are
  obtain ⟨hsame, -⟩ := h.record.sectorOf_eq hfile'.record rfl (by omega)
  rw [← changedSectors_congr x hsame] at hcharged
  have hnodup : (changedSectors (sectorOf p'.block d') x (d.size + 1)).Nodup := by
    rw [← hsize']
    exact (hfile'.sectors_perm (by omega)).nodup_iff.mpr hfile'.nodup
  obtain ⟨charged', hcoalesces, hcharged'⟩ := next_coalesces hlong hcharged hnodup
  rw [front_congr x (Nat.le_of_lt hlong) hsame] at hcoalesces
  exact ⟨p', d', _, charged', htreads, hfile', hsize', hcoalesces, hcharged'⟩

/-- A byte behind the last one is written if there are enough free sectors. -/
theorem Trickled.write_eq (h : Trickled base store p a handle length) {new : List SectorId} (b : UInt8)
    (hclaim : claim a.freeMap length (length + 1) = .ok new) : a.write handle length #[b] =
      (.ok 1, a.filed handle.sector ((a.record handle).written length #[b] new) new) := by
  have hskips : ¬ a.ledger.Skips handle #[b] := by
    rintro (hdenied | hnone)
    · exact absurd h.allowed (Nat.ne_of_gt hdenied)
    · cases hnone
  have hsame : claim a.freeMap length (length + #[b].size) = .ok new := hclaim
  unfold Archive.write
  dsimp only
  rw [if_neg hskips, h.size, hsame]
  rfl

/-- **The next byte** is written. -/
theorem Trickled.next (h : Trickled base store p a handle length) (hn : 5 ≤ n) (hlong : length < maxFileSize)
    (hfree : totalBlocks (length + 1) ≤ totalBlocks length + a.freeMap.freeCount) (b : UInt8) :
    ((Operation.write handle length #[b]).run store).result = .ok (.ok 1) ∧
      ∃ p' a', Trickled base ((Operation.write handle length #[b]).leads store) p' a' handle (length + 1) ∧
        a'.open? = a.open? ∧ a'.freeMap.sectors = a.freeMap.sectors ∧
        totalBlocks (length + 1) + a'.freeMap.freeCount = totalBlocks length + a.freeMap.freeCount := by
  obtain ⟨d, charged, hfile, hcharged, hfronted⟩ := h.fronted
  obtain rfl : d.size = length := hfile.record.holds.size.trans h.size
  have hpos : 0 < n := by omega
  have hlawful := h.hosts.represents.sound.lawful
  obtain ⟨new, hclaim⟩ := claim_granted hlawful d.size hlong hfree
  have hwrite := h.write_eq b hclaim
  obtain ⟨p', hrun, hrepresents⟩ := h.hosts.represents.write h.opened d.size #[b]
  rw [hwrite] at hrun hrepresents
  obtain ⟨store', log, hstore, hstands, -⟩ := hrun.run_eq hpos h.hosts.stands
  -- the sectors that the write uses
  have hallowed : p.registry.isDenied handle = false := by
    rw [h.hosts.represents.isDenied, h.allowed]
    rfl
  rw [← h.hosts.represents.freeMap] at hclaim
  obtain ⟨q, d', l, charged', htreads, hfile', hsize', hcoalesces, hcharged'⟩ :=
    hfile.writeByte_treads (δ := Journaled δ) hpos hallowed hlong hclaim hcharged b
  obtain ⟨-, rfl⟩ := htreads.runs.unique hrun
  have hpasses := htreads.runs.passes hpos h.hosts.stands
  rw [htreads.touches store h.hosts.stands, hstore] at hpasses
  -- what becomes of the free map
  rw [h.hosts.represents.freeMap] at hclaim
  obtain ⟨-, hcount, hfresh⟩ := claim_lowest hlawful (Nat.le_add_right d.size 1) hclaim
  have hsectors := h.hosts.represents.sound.sectors_filed hfresh handle.sector
    ((a.record handle).written d.size #[b] new)
  have hleads : (Operation.write handle d.size #[b]).leads store = store' := congrArg Reply.state hstore
  rw [hleads]
  have hrecord : (a.filed handle.sector ((a.record handle).written d.size #[b] new) new).record handle =
      (a.record handle).written d.size #[b] new := a.record_filed handle.sector _ new
  refine ⟨congrArg Reply.result hstore, p', a.filed handle.sector ((a.record handle).written d.size #[b] new) new, ?_,
    rfl, hsectors, ?_⟩
  · constructor
    case hosts =>
      have hhouses : (a.write handle d.size #[b]).2.Houses fun _ => True := h.hosts.houses.write d.size #[b]
      rw [hwrite] at hhouses
      exact ⟨hpos, hstands, hrepresents, hhouses, hrun.count_eq.trans (h.hosts.count.trans hsectors.symm)⟩
    case opened => exact h.opened
    case allowed => exact h.allowed
    case other => exact h.other
    case size => rw [hrecord, ← hfile'.record.holds.size, hsize']
    case fronted => exact ⟨d', charged', hrecord.symm ▸ hfile', hcharged', hfronted.passes hcoalesces hn hpasses⟩
  · have hfree' : (a.freeMap.takeAll new).freeCount + new.length = a.freeMap.freeCount := hfresh.freeCount_takeAll
    have hblocks := length_spotsBetween (Nat.le_add_right d.size 1) hlong
    show totalBlocks (d.size + 1) + (a.freeMap.takeAll new).freeCount = _
    omega

/-- Any number of bytes are written. -/
theorem Trickled.all (h : Trickled base store p a handle length) (hn : 5 ≤ n) (bytes : List UInt8)
    (hlong : length + bytes.length ≤ maxFileSize)
    (hfree : totalBlocks (length + bytes.length) ≤ totalBlocks length + a.freeMap.freeCount) :
    ∃ p' a', Trickled base (Operation.leadsAll (bytewise handle length bytes) store) p' a' handle
        (length + bytes.length) ∧
      a'.open? = a.open? ∧ a'.freeMap.sectors = a.freeMap.sectors ∧
      totalBlocks (length + bytes.length) + a'.freeMap.freeCount = totalBlocks length + a.freeMap.freeCount := by
  induction bytes generalizing store p a length with
  | nil => exact ⟨p, a, h, rfl, rfl, rfl⟩
  | cons b rest ih =>
    have hcount : length + (b :: rest).length = length + 1 + rest.length := by
      rw [List.length_cons]
      omega
    rw [hcount] at hlong hfree ⊢
    have hblocks := length_spotsBetween (Nat.le_add_right (length + 1) rest.length) hlong
    obtain ⟨-, p₁, a₁, hnext, hopen₁, hsectors₁, hfree₁⟩ := h.next hn (by omega) (by omega) b
    obtain ⟨p', a', hlast, hopen', hsectors', hfree'⟩ := ih hnext hlong (by omega)
    exact ⟨p', a', hlast, hopen'.trans hopen₁, hsectors'.trans hsectors₁, hfree'.trans hfree₁⟩

/-- Each of them is. -/
theorem Trickled.answers (h : Trickled base store p a handle length) (hn : 5 ≤ n) {done rest : List UInt8} {b : UInt8}
    (hlong : length + (done ++ b :: rest).length ≤ maxFileSize)
    (hfree : totalBlocks (length + (done ++ b :: rest).length) ≤ totalBlocks length + a.freeMap.freeCount) :
    ((Operation.write handle (length + done.length) #[b]).run
      (Operation.leadsAll (bytewise handle length done) store)).result = .ok (.ok 1) := by
  have hcount : length + (done ++ b :: rest).length = length + done.length + 1 + rest.length := by
    rw [List.length_append, List.length_cons]
    omega
  rw [hcount] at hlong hfree
  have hlast := length_spotsBetween (Nat.le_add_right (length + done.length + 1) rest.length) hlong
  have hnext := length_spotsBetween (Nat.le_add_right (length + done.length) 1) (by omega)
  obtain ⟨p', a', hdone, -, -, hfree'⟩ := h.all hn done (by omega) (by omega)
  exact (hdone.next hn (by omega) (by omega) b).1

theorem Trickled.length_sectors (h : Trickled base store p a handle length) :
    ((a.record handle).sectors handle.sector).length = totalBlocks length + 1 := by
  obtain ⟨d, -, hfile, -⟩ := h.fronted
  rw [hfile.length_sectors, hfile.record.holds.size, h.size]

section MapFile

variable {d : Descriptor} {f : FileRecord} (h : Trickled base store p a handle length)
  (hf : a.record? freeMapSector = some f) (hmapFile : FileAt p freeMapSector d f)
  (hlast : a.freeMap.byteLength ≤ d.size)
include h hf hmapFile hlast

/-- The sectors that have the free map are not the file's. -/
theorem Trickled.apart : ((a.record handle).sectors handle.sector ++
    firstBlocks (sectorOf p.block d) a.freeMap.byteLength).Nodup := by
  obtain ⟨_, _, hfile, hrecord, -⟩ := h.hosts.represents.open_file h.opened
  have hhomes := hmapFile.firstBlocks_sublist hlast
  refine List.nodup_append.mpr ⟨hfile.nodup, hhomes.nodup (List.nodup_append.mp hmapFile.nodup).1, ?_⟩
  rintro s hs t ht rfl
  have hsame := h.hosts.represents.sound.apart hrecord hf hs (List.mem_append_left _ (hhomes.subset ht))
  exact h.other (congrArg Handle.mk hsame)

/-- Once the free map was written to its file everything is changed that the device is to be told of. -/
theorem Trickled.charged {mid : Cache (Journaled δ) n} (hn : 5 ≤ n) (hsome : 0 < length)
    (hpasses : Cache.Passes (mapTouches p d) store.cache mid) :
    ∃ last charged, Cache.Fronted base last charged mid ∧
      charged.Perm ((a.record handle).sectors handle.sector ++ if p.registry.isDenied freeMapFile then []
        else firstBlocks (sectorOf p.block d) a.freeMap.byteLength) := by
  obtain ⟨d', charged, hfile, hcharged, hfronted⟩ := h.fronted
  have hsize : d'.size = length := hfile.record.holds.size.trans h.size
  have hsectors : charged.Perm ((a.record handle).sectors handle.sector) :=
    hcharged.trans (hsize ▸ hfile.sectors_perm (hsize ▸ hsome))
  unfold mapTouches at hpasses
  by_cases hdenied : p.registry.isDenied freeMapFile = true
  · rw [if_pos hdenied] at hpasses
    rw [if_pos hdenied, List.append_nil]
    exact ⟨_, charged, hfronted.passes .done hn hpasses, hsectors⟩
  · rw [if_neg hdenied, h.hosts.represents.freeMap] at hpasses
    rw [if_neg hdenied]
    have hperm : ((firstBlocks (sectorOf p.block d) a.freeMap.byteLength).reverse ++ charged).Perm
        ((a.record handle).sectors handle.sector ++ firstBlocks (sectorOf p.block d) a.freeMap.byteLength) :=
      ((List.reverse_perm _).append hsectors).trans List.perm_append_comm
    have hmax := Nat.le_trans hlast hmapFile.record.stored.size
    have hfresh := hperm.nodup_iff.mpr (h.apart hf hmapFile hlast)
    exact ⟨[], _, hfronted.passes (overwrite_coalesces (m := 5) (by decide) hmax hfresh) hn hpasses, hperm⟩

end MapFile

/-- **The volume is persisted**: the device is told of every sector of the file once, and of those of the free-map
    file that have the free map. -/
theorem Trickled.persist (h : Trickled base store p a handle length) (hn : 5 ≤ n) (hsome : 0 < length) :
    let saved := (store.run Volume.persist).state
    ∃ homes, homes.length = dataBlocks a.freeMap.byteLength ∧
      (∀ k s, homes[k]? = some s →
        ((Operation.sectorOfByte freeMapFile (sectorSize * k)).run store).result = .ok (.ok s)) ∧
      ((a.record handle).sectors handle.sector ++ homes).Nodup ∧
      (saved.cache.device.written.map Prod.fst).Perm ((a.record handle).sectors handle.sector ++
        if p.registry.isDenied freeMapFile then [] else homes) ∧
      saved.cache.deviceWrites = base + (totalBlocks length + 1 +
        if p.registry.isDenied freeMapFile then 0 else dataBlocks a.freeMap.byteLength) := by
  intro saved
  obtain ⟨f, hf, -, hlong⟩ := h.hosts.houses.record_eq
  obtain ⟨d, hmapFile⟩ := h.hosts.represents.fileAt hf
  have hlast : a.freeMap.byteLength ≤ d.size := hmapFile.record.holds.size ▸ hlong
  have hmax := Nat.le_trans hlast hmapFile.record.stored.size
  have hcount := length_firstBlocks (sectorOf p.block d) hmax
  obtain ⟨mid, p', log, hpasses, -, hflush⟩ := h.hosts.flushes hmapFile hlong
  obtain ⟨last, charged, hfronted, hperm⟩ := h.charged hf hmapFile hlast hn hsome hpasses
  obtain ⟨hwritten, hwrites⟩ := hfronted.flushed hflush
  have htold := (hwritten.trans hperm).length_eq
  rw [List.length_map, List.length_append, h.length_sectors, apply_ite List.length, hcount] at htold
  exact ⟨_, hcount, fun k s hs =>
    (hmapFile.sectorOfByte_firstBlocks hlast hs).result_eq h.hosts.frames h.hosts.stands,
    h.apart hf hmapFile hlast, hwritten.trans hperm, hwrites.trans (congrArg (base + ·) htold)⟩

end Trickled

/-! ## After the volume was persisted -/

/-- A write leaves the other files as they are. -/
theorem Archive.write_elsewhere (a : Archive) {handle other : Handle} (hne : other ≠ handle) (offset : Nat)
    (data : Bytes) : (a.write handle offset data).2.record other = a.record other ∧
      (a.write handle offset data).2.open? = a.open? := by
  have hsector : other.sector ≠ handle.sector := fun he => hne (congrArg Handle.mk he)
  unfold Archive.write
  dsimp only
  split
  · exact ⟨rfl, rfl⟩
  · split
    · exact ⟨congrArg (Option.getD · _) (Function.update_of_ne hsector _ _), rfl⟩
    · exact ⟨rfl, rfl⟩

section Start

variable {store : Store δ n} {p : Plain} {a : Archive} {handle : Handle}

/-- An empty file is not the free-map file. -/
theorem Hosts.ne_of_empty (h : Hosts store p a) (hempty : (a.record handle).bytes.size = 0) : handle ≠ freeMapFile := by
  rintro rfl
  obtain ⟨f, -, hrecord, hlong⟩ := h.houses.record_eq
  have hpos := h.houses.byteLength_pos h.represents.sound
  rw [← hrecord] at hlong
  omega

/-- No byte of an empty file has been written since the volume was persisted. -/
theorem Hosts.trickled (h : Hosts store p a) (hopen : a.ledger.HasOpen handle)
    (hempty : (a.record handle).bytes.size = 0) (hallowed : (a.ledger.entry handle).denyCount = 0) :
    ∃ flushed log p', store.run Volume.persist = ⟨.ok (.ok ()), flushed, log⟩ ∧ Hosts flushed p' a.persisted ∧
      Trickled flushed.cache.deviceWrites (flushed.journaled []) p' a.persisted handle 0 := by
  obtain ⟨flushed, log, p', hrun, hflushed, -⟩ := h.persist
  have hother := h.ne_of_empty hempty
  obtain ⟨hrecord, hsame⟩ := a.write_elsewhere hother 0 a.freeMap.toBytes
  have hopen' : a.persisted.ledger.HasOpen handle := by
    show (a.persisted.open? handle.sector).isSome = true
    rw [Archive.persisted, hsame]
    exact hopen
  obtain ⟨d, inode, hfile, -⟩ := hflushed.represents.open_file hopen'
  have hclean := h.clean
  rw [hrun] at hclean
  refine ⟨flushed, log, p', hrun, hflushed, ?_⟩
  constructor
  case hosts =>
    exact ⟨hflushed.frames, hflushed.stands.journaled, hflushed.represents, hflushed.houses, hflushed.count⟩
  case opened => exact hopen'
  case allowed =>
    show ((a.persisted.open? handle.sector).getD .fresh).denyCount = 0
    rw [Archive.persisted, hsame]
    exact hallowed
  case other => exact hother
  case size =>
    rw [Archive.persisted, hrecord]
    exact hempty
  case fronted =>
    have hstands := hflushed.stands.journaled
    exact ⟨d, [], hfile, .refl _, .start hstands.coherent.toSound.fitted hstands.unpinned hclean rfl⟩

end Start

/-- **Byte by byte writes reach the device as one.** Right after a volume was persisted, bytes are written to an empty
    file one after the other, as many as there is room for. Each write is carried out, and so is it when the volume is
    persisted again. By then the device has been told of each sector of the file once, that is of its blocks, its index
    blocks and its descriptor, and of each of the sectors of the free-map file that have the free map; only if writing
    to that file is denied it has been told of none of these. -/
theorem byte_writes_coalesce {store flushed : Store δ n} {ledger : Ledger} {handle : Handle} {bytes : List UInt8}
    {log : List Event} (h : Exposed store ledger) (hn : 5 ≤ n) (hopen : ledger.HasOpen handle)
    (hempty : (ledger.file handle).bytes.size = 0) (hallowed : (ledger.entry handle).denyCount = 0)
    (hflushed : store.run persist = ⟨.ok (.ok ()), flushed, log⟩) (hsome : bytes ≠ [])
    (hlong : bytes.length ≤ maxFileSize) (hroom : totalBlocks bytes.length ≤ flushed.freeMap.freeCount) :
    let denied := flushed.registry.isDenied freeMapFile
    let mapBlocks := dataBlocks ((BlockDevice.sectorCount flushed.cache.device + 7) / 8)
    let last := Operation.leadsAll (bytewise handle 0 bytes) flushed
    let saved := (last.run persist).state
    (∀ done b rest, bytes = done ++ b :: rest → ((Operation.write handle done.length #[b]).run
      (Operation.leadsAll (bytewise handle 0 done) flushed)).result = .ok (.ok 1)) ∧
    (last.run persist).result = .ok (.ok ()) ∧
    saved.cache.deviceWrites = flushed.cache.deviceWrites +
      (totalBlocks bytes.length + 1 + if denied then 0 else mapBlocks) ∧
    ∃ owned homes written,
      ((Operation.ownedSectors handle).run last).result = .ok (.ok owned) ∧
      owned.length = totalBlocks bytes.length + 1 ∧ homes.length = mapBlocks ∧
      (∀ k s, homes[k]? = some s →
        ((Operation.sectorOfByte freeMapFile (sectorSize * k)).run last).result = .ok (.ok s)) ∧
      (owned ++ homes).Nodup ∧
      ((Operation.leadsAll (bytewise handle 0 bytes) (flushed.journaled [])).run persist).state =
        saved.journaled written ∧
      (written.map Prod.fst).Perm (owned ++ if denied then [] else homes) := by
  intro denied mapBlocks last saved
  obtain ⟨p, a, hhosts, rfl⟩ := h.hosts
  rw [a.ledger_file] at hempty
  obtain ⟨flushed', log', p', hrun, hstart, htrickled⟩ := hhosts.trickled hopen hempty hallowed
  obtain ⟨-, rfl, -⟩ := Reply.mk.inj (hflushed.symm.trans hrun)
  have hfree : totalBlocks bytes.length ≤ totalBlocks 0 + a.persisted.freeMap.freeCount := by
    rw [hstart.freeMap_eq] at hroom
    omega
  rw [← Nat.zero_add bytes.length] at hlong hfree
  obtain ⟨q, b, htyped, hsame, hsectors, -⟩ := htrickled.all hn bytes hlong hfree
  rw [Nat.zero_add] at htyped
  have hdenied : q.registry.isDenied freeMapFile = denied := by
    rw [htyped.hosts.represents.isDenied]
    show decide (0 < ((b.open? freeMapSector).getD .fresh).denyCount) = flushed.registry.isDenied freeMapFile
    rw [hsame, hstart.stands.registry, hstart.represents.isDenied]
    rfl
  have hmapBlocks : dataBlocks b.freeMap.byteLength = mapBlocks := by
    show dataBlocks ((b.freeMap.sectors + 7) / 8) = dataBlocks ((BlockDevice.sectorCount flushed.cache.device + 7) / 8)
    rw [hsectors, hstart.stands.count, hstart.count]
  have hpersist := htyped.persist hn (List.length_pos_iff.mpr hsome)
  rw [hdenied, hmapBlocks] at hpersist
  obtain ⟨homes, hcount, hfound, hnodup, hwritten, hwrites⟩ := hpersist
  -- the store without the journal does the same
  obtain ⟨_, _, _, hpersisted, -⟩ := htyped.hosts.persist
  have hsaving : last.run persist = _ := Volume.persist_journaled (bytewise handle 0 bytes) flushed
  have hsaved : _ = saved := (congrArg Reply.state hsaving).symm
  refine ⟨fun done c rest hsplit => ?_, ?_, ?_, _, homes, _, ?_, htyped.length_sectors, hcount, fun k s hs => ?_,
    hnodup, Store.eq_journaled hsaved, hwritten⟩
  · subst hsplit
    rw [Operation.result_journaled, ← Nat.zero_add done.length]
    exact htrickled.answers hn hlong hfree
  · rw [hsaving, hpersisted]
  · exact (congrArg (·.cache.deviceWrites) hsaved).symm.trans hwrites
  · rw [Operation.result_journaled]
    exact htyped.hosts.represents.ownedSectors_eq htyped.hosts.frames htyped.hosts.stands htyped.opened
  · rw [Operation.result_journaled]
    exact hfound k s hs

end ByteWrites

/-! ## A file of a few bytes -/

theorem wideVolume_up : (format 5 (RamDisk.blank 5)).1.store?.isSome = true := by decide +kernel

/-- A small volume with five frames, … -/
def wideVolume : Store RamDisk 5 := (format 5 (RamDisk.blank 5)).1.store?.get wideVolume_up

/-- … on which an empty file is made … -/
def wideCreated : Store RamDisk 5 := (Operation.create 0 false).leads wideVolume

/-- … and opened. -/
def wideOpened : Store RamDisk 5 := (Operation.openInode 3).leads wideCreated

/-- A client opens the free-map file, too, … -/
def wideWatched : Store RamDisk 5 := (Operation.openInode freeMapSector).leads wideOpened

/-- … and denies writing to it. -/
def wideDenied : Store RamDisk 5 := (Operation.denyWrite freeMapFile).leads wideWatched

/-- What the client keeps in mind about these. -/
def wideCreatedLedger : Ledger := (Ledger.formatted wideVolume.freeMap).after (.create 0 false) (.ok 3)

def wideOpenedLedger : Ledger := wideCreatedLedger.after (.openInode 3) (.ok ⟨3⟩)

def wideWatchedLedger : Ledger := wideOpenedLedger.after (.openInode freeMapSector) (.ok freeMapFile)

def wideDeniedLedger : Ledger := wideWatchedLedger.after (.denyWrite freeMapFile) (.ok ())

/-- All that the volume is asked for may be asked for and is done. -/
theorem wideVolume_steps :
    ((Ledger.formatted wideVolume.freeMap).Concedes (.create 0 false) ∧
      ((Operation.create 0 false).run wideVolume).result = .ok (.ok 3)) ∧
    (wideCreatedLedger.Concedes (.openInode 3) ∧
      ((Operation.openInode 3).run wideCreated).result = .ok (.ok ⟨3⟩)) ∧
    (wideOpenedLedger.Concedes (.openInode freeMapSector) ∧
      ((Operation.openInode freeMapSector).run wideOpened).result = .ok (.ok freeMapFile)) ∧
    (wideWatchedLedger.Concedes (.denyWrite freeMapFile) ∧
      ((Operation.denyWrite freeMapFile).run wideWatched).result = .ok (.ok ())) := by
  decide +kernel

theorem wideOpened_exposed : Exposed wideOpened wideOpenedLedger := by
  obtain ⟨hcreate, hopen, -⟩ := wideVolume_steps
  have hmade : Exposed wideVolume (.formatted wideVolume.freeMap) := .formatted trivial (Opening.eq_up wideVolume_up)
  have hcreated : Exposed wideCreated wideCreatedLedger := hmade.next hcreate.1 hcreate.2
  exact hcreated.next hopen.1 hopen.2

/-- The file is open, empty and may be written to, also while writing to the free-map file is denied. -/
theorem wideOpened_empty : wideOpenedLedger.HasOpen ⟨3⟩ ∧ (wideOpenedLedger.file ⟨3⟩).bytes.size = 0 ∧
    (wideOpenedLedger.entry ⟨3⟩).denyCount = 0 ∧ wideDeniedLedger.HasOpen ⟨3⟩ ∧
    (wideDeniedLedger.file ⟨3⟩).bytes.size = 0 ∧ (wideDeniedLedger.entry ⟨3⟩).denyCount = 0 := by
  decide +kernel

/-- A file of two bytes that were written one at a time is its block, its descriptor and the one sector of the
    free-map file. -/
theorem byte_writes_coalesce_two : Exposed wideOpened wideOpenedLedger ∧ wideOpenedLedger.HasOpen ⟨3⟩ ∧
    (wideOpened.run persist).result = .ok (.ok ()) ∧
    let flushed := (wideOpened.run persist).state
    let saved := ((Operation.leadsAll (bytewise ⟨3⟩ 0 [7, 8]) flushed).run persist).state
    saved.cache.deviceWrites = flushed.cache.deviceWrites + 3 := by
  obtain ⟨hopen, hempty, hallowed, -⟩ := wideOpened_empty
  have hfacts : (wideOpened.run persist).result = .ok (.ok ()) ∧
      totalBlocks 2 ≤ (wideOpened.run persist).state.freeMap.freeCount ∧
      (wideOpened.run persist).state.registry.isDenied freeMapFile = false ∧
      BlockDevice.sectorCount (wideOpened.run persist).state.cache.device = 5 := by
    decide +kernel
  obtain ⟨hpersist, hroom, hdenied, hcount⟩ := hfacts
  have hrun : wideOpened.run persist =
      ⟨.ok (.ok ()), (wideOpened.run persist).state, (wideOpened.run persist).log⟩ := by
    rw [← hpersist]
  have hsome : [(7 : UInt8), 8] ≠ [] := List.cons_ne_nil _ _
  have hwrites := (byte_writes_coalesce wideOpened_exposed (Nat.le_refl 5) hopen hempty hallowed hrun hsome
    (by decide) hroom).2.2.1
  rw [hdenied, hcount] at hwrites
  exact ⟨wideOpened_exposed, hopen, hpersist, hwrites⟩

/-- Where writing to the free-map file is denied its sector is not written. -/
theorem map_left_out : Exposed wideDenied wideDeniedLedger ∧ wideDeniedLedger.HasOpen ⟨3⟩ ∧
    (wideDeniedLedger.file ⟨3⟩).bytes.size = 0 ∧ (wideDeniedLedger.entry ⟨3⟩).denyCount = 0 ∧
    (wideDenied.run persist).result = .ok (.ok ()) ∧
    let flushed := (wideDenied.run persist).state
    let last := Operation.leadsAll (bytewise ⟨3⟩ 0 [7]) flushed
    totalBlocks 1 ≤ flushed.freeMap.freeCount ∧ (last.run persist).result = .ok (.ok ()) ∧
    (last.run persist).state.cache.deviceWrites ≠ flushed.cache.deviceWrites +
      (totalBlocks 1 + 1 + dataBlocks ((BlockDevice.sectorCount flushed.cache.device + 7) / 8)) := by
  obtain ⟨-, -, hopen, hdeny⟩ := wideVolume_steps
  have hwatched : Exposed wideWatched wideWatchedLedger := wideOpened_exposed.next hopen.1 hopen.2
  have hdenied : Exposed wideDenied wideDeniedLedger := hwatched.next hdeny.1 hdeny.2
  obtain ⟨-, -, -, hheld, hempty, hallowed⟩ := wideOpened_empty
  refine ⟨hdenied, hheld, hempty, hallowed, ?_⟩
  decide +kernel

end InodeStore
