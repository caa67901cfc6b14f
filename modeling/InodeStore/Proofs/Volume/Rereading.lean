import InodeStore.Proofs.Inode.Ways
import InodeStore.Proofs.Session.Safety
import InodeStore.Proofs.Store.Warming
import InodeStore.Proofs.Volume.Denial
import InodeStore.Proofs.Volume.Following

/-!
# `Proofs.Volume.Rereading` — a file that fits into the cache

Reading a file, and asking for its length, its kind, the sector of a byte or the list of its sectors, looks at
sectors that the file owns (`FileAt.perused`). If the cache has a frame for each of them, nothing else is looked
at, and the cache was empty before, each is read from the device once at most. Once every byte of the file was
read the whole file is in the cache, so that nothing is read any more (`rereading_exact`).
-/

namespace InodeStore

open Inode Volume

/-- The operation does nothing but look at the file of a handle. -/
def Operation.Peruses (handle : Handle) : Operation → Prop
  | .read handle' _ _ | .sectorOfByte handle' _ | .length handle' | .isDir handle' | .ownedSectors handle' =>
    handle' = handle
  | _ => False

section Perused

variable {δ : Type} {n : Nat} [BlockDevice δ] [LawfulDevice δ] {p : Plain} {x : SectorId} {d : Descriptor}
  {f : FileRecord} {o : Operation}

/-- The sectors on the way to the bytes that an operation asks for. -/
def Operation.reads (b : SectorArray) (d : Descriptor) : Operation → List SectorId
  | .read _ offset buffer =>
    ((blocksBetween offset (min (offset + buffer.size) d.size)).flatMap spotsTo).map (sectorOf b d)
  | _ => []

/-- The sectors of the blocks that a read is from are the file's. -/
theorem Inode.FileAt.reads_subset (h : FileAt p x d f) (o : Operation) :
    o.reads p.block d ⊆ tree p.block d (dataBlocks d.size) := by
  cases o with
  | read handle offset buffer =>
    refine List.map_subset _ fun t ht => ?_
    obtain ⟨k, hk, htk⟩ := List.mem_flatMap.mp ht
    refine mem_spots_of_mem_spotsTo (dataBlocks_le h.record.stored.size) ?_ htk
    unfold blocksBetween at hk
    split at hk
    · have hbound := List.mem_range'_1.mp hk
      have hmono : dataBlocks (min (offset + buffer.size) d.size) ≤ dataBlocks d.size :=
        dataBlocks_mono (Nat.min_le_right _ _)
      omega
    · cases hk
  | _ => exact List.nil_subset _

/-- **Such an operation** looks at the descriptor and at other sectors of the file, among them those on the way
    to the bytes that it reads. -/
theorem Inode.FileAt.perused (h : FileAt p x d f) (hn : 0 < n) (ho : o.Peruses ⟨x⟩) :
    ∃ r, o.routine? = some r ∧ r.Only Call.IsView ∧ (∃ ending, Runs true r p ending p) ∧
      ∃ l, Uses δ n r p (x :: l) ∧ l ⊆ tree p.block d (dataBlocks d.size) ∧ o.reads p.block d ⊆ l := by
  have hload : Uses δ n (load x) p [x] := load_uses
  cases o with
  | read handle offset buffer =>
    obtain rfl : handle = ⟨x⟩ := ho
    have huses := (h.read_uses (δ := δ) hn offset buffer.size).bind
      (f := fun bytes => (pure (bytes.size, overlay buffer bytes) : Routine (Nat × Bytes))) h.read_runs hn (Uses.pure _)
    rw [List.append_nil] at huses
    exact ⟨_, rfl, (read_looks offset buffer.size).bind fun _ => trivial, ⟨_, h.read_runs.bind (Runs.pure _)⟩, _, huses,
      h.reads_subset (.read ⟨x⟩ offset buffer), fun _ => id⟩
  | sectorOfByte handle offset =>
    obtain rfl : handle = ⟨x⟩ := ho
    obtain ⟨l, huses, hl⟩ := h.sectorOfByte_uses (δ := δ) hn offset
    exact ⟨_, rfl, sectorOfByte_looks offset, ⟨_, h.sectorOfByte_runs⟩, l, huses, hl, List.nil_subset _⟩
  | length handle =>
    obtain rfl : handle = ⟨x⟩ := ho
    exact ⟨_, rfl, length_looks, ⟨_, h.length_runs⟩, [], hload.bind h.load_runs hn (Uses.pure _),
      List.nil_subset _, List.nil_subset _⟩
  | isDir handle =>
    obtain rfl : handle = ⟨x⟩ := ho
    exact ⟨_, rfl, isDir_looks, ⟨_, h.isDir_runs⟩, [], hload.bind h.load_runs hn (Uses.pure _),
      List.nil_subset _, List.nil_subset _⟩
  | ownedSectors handle =>
    obtain rfl : handle = ⟨x⟩ := ho
    exact ⟨_, rfl, ownedSectors_looks x, ⟨_, h.ownedSectors_runs⟩, _, h.ownedSectors_uses hn,
      List.map_subset _ (List.filter_subset_self _), List.nil_subset _⟩
  | _ => cases ho

end Perused

/-! ## One operation after the other -/

section Perusing

variable {δ : Type} {n : Nat} [BlockDevice δ] {p : Plain} {x : SectorId} {d : Descriptor} {f : FileRecord}
  {o : Operation} {os : List Operation}

/-- Operations do not notice that the device is watched. -/
theorem Operation.leadsAll_watched (os : List Operation) (store : Store δ n) (asked : List SectorId) :
    ∃ more, leadsAll os (store.watched asked) = (leadsAll os store).watched (more ++ asked) := by
  obtain ⟨_, ⟨more, rfl⟩, hleads⟩ :=
    (leadsAll_carries (Watched.shadows asked) os).same (s := store) ⟨_, ⟨[], rfl⟩, rfl⟩ trivial
  exact ⟨more, hleads⟩

variable [LawfulDevice δ] {store : Store (Watched δ) n}

/-- A file is looked at through a cache with room for all of its sectors. -/
structure Perusing (store : Store (Watched δ) n) (p : Plain) (x : SectorId) (d : Descriptor) (f : FileRecord) :
    Prop where
  frames : 0 < n
  stands : Stands store p
  file : FileAt p x d f
  room : (f.sectors x).length ≤ n
  warm : store.cache.Warm (f.sectors x)

/-- **A look at the file** brings what it looks at into the cache. -/
theorem Perusing.next (h : Perusing store p x d f) (ho : o.Peruses ⟨x⟩) :
    Perusing (o.leads store) p x d f ∧ store.cache.sectors ⊆ (o.leads store).cache.sectors ∧
      store.cache.accesses ≤ (o.leads store).cache.accesses ∧ x ∈ (o.leads store).cache.sectors ∧
      o.reads p.block d ⊆ (o.leads store).cache.sectors := by
  obtain ⟨r, hr, hlooks, ⟨ending, hruns⟩, l, huses, hl, hreads⟩ := h.file.perused (δ := Watched δ) h.frames ho
  have hleads : o.leads store = (store.run r).state := by
    unfold Operation.leads
    rw [Operation.run_eq_of_routine? hr]
  obtain ⟨store', log, hrun, hs', -⟩ := hruns.run_eq h.frames h.stands
  have hpasses := hruns.passes h.frames h.stands
  rw [huses.touches hlooks store h.stands] at hpasses
  have hin : x :: l ⊆ f.sectors x := by
    refine List.cons_subset.mpr ⟨List.mem_append_right _ (List.mem_singleton_self x), fun t ht => ?_⟩
    exact List.mem_append_left _ (h.file.record.owned ▸ hl ht)
  obtain ⟨hwarm, hkept, hall, hcount⟩ := h.warm.passes h.room hin hpasses
  rw [hleads]
  refine ⟨⟨h.frames, ?_, h.file, h.room, hwarm⟩, hkept, hcount ▸ Nat.le_add_right _ _, hall List.mem_cons_self,
    fun t ht => ?_⟩
  · rw [hrun]
    exact hs'
  · exact hall (List.mem_cons_of_mem _ (hreads ht))

/-- So do any number of them. -/
theorem Perusing.all (h : Perusing store p x d f) (hos : ∀ o ∈ os, o.Peruses ⟨x⟩) :
    Perusing (Operation.leadsAll os store) p x d f ∧
      store.cache.sectors ⊆ (Operation.leadsAll os store).cache.sectors ∧
      store.cache.accesses ≤ (Operation.leadsAll os store).cache.accesses ∧
      ∀ o ∈ os, x ∈ (Operation.leadsAll os store).cache.sectors ∧
        o.reads p.block d ⊆ (Operation.leadsAll os store).cache.sectors := by
  induction os generalizing store with
  | nil => exact ⟨h, fun _ => id, Nat.le_refl _, fun o ho => absurd ho List.not_mem_nil⟩
  | cons o rest ih =>
    obtain ⟨hnext, hkept, hcount, hx, hreads⟩ := h.next (hos o List.mem_cons_self)
    obtain ⟨hlast, hkept', hcount', hall⟩ := ih hnext fun o ho => hos o (List.mem_cons_of_mem _ ho)
    refine ⟨hlast, fun t ht => hkept' (hkept ht), Nat.le_trans hcount hcount', fun o' ho' => ?_⟩
    rcases List.mem_cons.mp ho' with rfl | ho'
    · exact ⟨hkept' hx, fun t ht => hkept' (hreads ht)⟩
    · exact hall o' ho'

/-- **Once every byte was read** the whole file is in the cache. -/
theorem Perusing.covered (h : Perusing store p x d f) (hos : ∀ o ∈ os, o.Peruses ⟨x⟩) (hsome : 0 < d.size)
    (hcover : ∀ i < d.size, ∃ offset buffer, .read ⟨x⟩ offset buffer ∈ os ∧ offset ≤ i ∧ i < offset + buffer.size) :
    f.sectors x ⊆ (Operation.leadsAll os store).cache.sectors := by
  obtain ⟨-, -, -, hall⟩ := h.all hos
  have hsize := h.file.record.stored.size
  intro s hs
  rcases List.mem_append.mp hs with hs | hs
  · -- a sector of the tree is on the way to a block, whose first byte was read
    rw [← h.file.record.owned] at hs
    obtain ⟨t, ht, rfl⟩ := List.mem_map.mp hs
    have hdue : t.due < dataBlocks d.size := (mem_spots (dataBlocks_le hsize)).mp ht
    have hbyte : 512 * t.due < d.size := by
      unfold dataBlocks at hdue
      omega
    obtain ⟨offset, buffer, hmem, hfirst, hlast⟩ := hcover _ hbyte
    refine (hall _ hmem).2 (List.mem_map_of_mem (List.mem_flatMap.mpr ⟨t.due, ?_, mem_spotsTo_due ?_⟩))
    · unfold blocksBetween
      rw [if_pos (by omega), List.mem_range'_1]
      show offset / 512 ≤ t.due ∧
        t.due < offset / 512 + ((min (offset + buffer.size) d.size + 511) / 512 - offset / 512)
      omega
    · exact Nat.lt_of_lt_of_le hdue (dataBlocks_le hsize)
  · obtain ⟨offset, buffer, hmem, -⟩ := hcover 0 hsome
    exact List.mem_singleton.mp hs ▸ (hall _ hmem).1

/-- If the whole file is in the cache, each of its sectors was read once. -/
theorem Perusing.reads_of_full (h : Perusing store p x d f) (hfull : f.sectors x ⊆ store.cache.sectors) :
    store.cache.deviceReads = (f.sectors x).length := by
  have hsame : (f.sectors x).Perm store.cache.sectors :=
    (List.perm_ext_iff_of_nodup h.file.nodup h.warm.fitted.sectors_nodup).mpr fun s =>
      ⟨fun hs => hfull hs, fun hs => h.warm.inside hs⟩
  rw [h.warm.reads, h.warm.asked.length_eq, hsame.length_eq]

end Perusing

section Rereading

variable {δ : Type} {n : Nat} [BlockDevice δ] [LawfulDevice δ] {store : Store δ n} {ledger : Ledger} {p : Plain}
  {a : Archive} {handle : Handle} {os : List Operation}

/-- A file is looked at through a cache that was reset. -/
theorem Represents.perusing (h : Represents p a) (hn : 0 < n) (hs : Stands store p) (hopen : a.ledger.HasOpen handle)
    (hroom : totalBlocks (a.ledger.file handle).bytes.size + 1 ≤ n) :
    ∃ d f, Perusing ((Operation.reset.leads store).watched []) p handle.sector d f ∧
      (a.ledger.file handle).bytes.size = d.size ∧ (f.sectors handle.sector).length = totalBlocks d.size + 1 ∧
      ((Operation.ownedSectors handle).run (Operation.reset.leads store)).result =
        .ok (.ok (f.sectors handle.sector)) := by
  obtain ⟨d, -, hfile, -⟩ := h.open_file hopen
  have hreset : Runs true Routine.resetCache p (.ok ()) p := Runs.perform .resetCache
  obtain ⟨fresh, log, hrun, hfresh, -⟩ := hreset.run_eq hn hs
  have hleads : Operation.reset.leads store = fresh := congrArg Reply.state hrun
  obtain ⟨flushed, hemptied⟩ : ∃ flushed, Cache.Emptied flushed fresh.cache := by
    have hpasses := hreset.passes hn hs
    rw [show store.touches Routine.resetCache = [.reset] from store.touches_perform .resetCache, hrun] at hpasses
    cases hpasses with
    | reset hemptying hnone =>
      cases hnone
      obtain ⟨flushed, -, hemptied⟩ := Cache.reset_ok hs.coherent.toSound.fitted hs.unpinned hemptying
      exact ⟨flushed, hemptied⟩
  have hsize : (a.ledger.file handle).bytes.size = d.size := by
    rw [Archive.ledger_file]
    exact hfile.record.holds.size.symm
  have hlength := hfile.length_sectors
  rw [hleads]
  refine ⟨d, a.record handle, ⟨hn, hfresh.watched, hfile, ?_, .of_emptied hemptied⟩, hsize, hlength, ?_⟩
  · rw [hlength, ← hsize]
    exact hroom
  · exact hfile.ownedSectors_runs.result_eq hn hfresh

/-- **A file that fits into the cache** is read from the device once. From a reset on, whatever is asked about it
    and it alone, the device is asked for sectors of the file, for each at most once, and none is written. Once all
    bytes of the file were read it was asked for each, and what is asked about the file after that is answered from
    the cache alone. -/
theorem rereading_exact (h : Reached store ledger ∨ Exposed store ledger) (hopen : ledger.HasOpen handle)
    (hroom : totalBlocks (ledger.file handle).bytes.size + 1 ≤ n) (hos : ∀ o ∈ os, o.Peruses handle) :
    let length := (ledger.file handle).bytes.size
    let fresh := Operation.reset.leads store
    let last := Operation.leadsAll os fresh
    ∃ owned asked,
      ((Operation.ownedSectors handle).run fresh).result = .ok (.ok owned) ∧ owned.length = totalBlocks length + 1 ∧
      Operation.leadsAll os (fresh.watched []) = last.watched asked ∧ asked.Nodup ∧ asked ⊆ owned ∧
      last.cache.deviceReads = asked.length ∧ last.cache.deviceWrites = 0 ∧
      (0 < length →
        (∀ i < length, ∃ offset buffer, .read handle offset buffer ∈ os ∧ offset ≤ i ∧ i < offset + buffer.size) →
        last.cache.deviceReads = totalBlocks length + 1 ∧
        ∀ more : List Operation, (∀ o ∈ more, o.Peruses handle) →
          let later := Operation.leadsAll more last
          later.cache.deviceReads = last.cache.deviceReads ∧ later.cache.deviceWrites = 0 ∧
          ∃ uses, later.cache.accesses = last.cache.accesses + uses ∧ later.cache.hits = last.cache.hits + uses) := by
  intro length fresh last
  obtain ⟨hn, p, a, hstands, hrepresents, rfl⟩ :
      0 < n ∧ ∃ p a, Stands store p ∧ Represents p a ∧ a.ledger = ledger := by
    rcases h with h | h
    · exact h.represents
    · obtain ⟨p, a, hhosts, hledger⟩ := h.hosts
      exact ⟨hhosts.frames, p, a, hhosts.stands, hhosts.represents, hledger⟩
  obtain ⟨d, f, hperusing, hsize, hlength, howned⟩ := hrepresents.perusing hn hstands hopen hroom
  have hbytes : length = d.size := hsize
  rw [hbytes]
  have hall := hperusing.all hos
  have hcovered := hperusing.covered hos
  obtain ⟨asked, hwatched⟩ := Operation.leadsAll_watched os fresh []
  rw [List.append_nil] at hwatched
  rw [hwatched] at hall hcovered
  have hlast : Perusing (last.watched asked) p handle.sector d f := hall.1
  have hasked : asked.Perm last.cache.sectors := hlast.warm.asked
  refine ⟨f.sectors handle.sector, asked, howned, hlength, hwatched,
    hasked.nodup_iff.mpr hlast.warm.fitted.sectors_nodup, fun s hs => hlast.warm.inside (hasked.subset hs),
    hlast.warm.reads, hlast.warm.writes, fun hsome hcover => ?_⟩
  have hcover' := hcovered hsome hcover
  have hreads : last.cache.deviceReads = totalBlocks d.size + 1 := (hlast.reads_of_full hcover').trans hlength
  refine ⟨hreads, fun more hmore => ?_⟩
  obtain ⟨hlater, hkept, hcount, -⟩ := hlast.all hmore
  obtain ⟨asked', hwatched'⟩ := Operation.leadsAll_watched more last asked
  rw [hwatched'] at hlater hkept hcount
  set later := Operation.leadsAll more last
  have hreads' : later.cache.deviceReads = totalBlocks d.size + 1 :=
    (hlater.reads_of_full fun s hs => hkept (hcover' hs)).trans hlength
  have hmono : last.cache.accesses ≤ later.cache.accesses := hcount
  have haccesses : last.cache.accesses = last.cache.hits + last.cache.deviceReads := hlast.warm.accesses
  have haccesses' : later.cache.accesses = later.cache.hits + later.cache.deviceReads := hlater.warm.accesses
  exact ⟨hreads'.trans hreads.symm, hlater.warm.writes, later.cache.accesses - last.cache.accesses, by omega, by omega⟩

end Rereading

/-! ## A file of one block -/

/-- A file of one byte is made on a small device, … -/
def pairStore : Store RamDisk 2 :=
  (Operation.create 1 false).leads ⟨Cache.blank 2 (RamDisk.blank 4), .blank 4, .empty⟩

/-- … and opened. -/
def pairOpened : Store RamDisk 2 := (Operation.openInode 0).leads pairStore

/-- What the caller keeps in mind about it. -/
def pairLedger : Ledger := ((Ledger.start (.blank 4)).after (.create 1 false) (.ok 0)).after (.openInode 0) (.ok ⟨0⟩)

theorem pairOpened_reached : Reached pairOpened pairLedger := by
  have hsteps : ((Operation.create 1 false).run
        (⟨Cache.blank 2 (RamDisk.blank 4), .blank 4, .empty⟩ : Store RamDisk 2)).result = .ok (.ok 0) ∧
      ((Operation.openInode 0).run pairStore).result = .ok (.ok ⟨0⟩) := by
    decide +kernel
  have hstart : Reached (⟨Cache.blank 2 (RamDisk.blank 4), .blank 4, .empty⟩ : Store RamDisk 2) (.start (.blank 4)) :=
    .start trivial (by decide) (FreeMap.blank_lawful (by decide)) (Nat.le_refl 4)
  have hmade : Reached pairStore ((Ledger.start (.blank 4)).after (.create 1 false) (.ok 0)) :=
    hstart.next trivial hsteps.1
  exact hmade.next (by decide) hsteps.2

/-- However often its byte is read, the file and its descriptor are read once. -/
theorem rereading_exact_pair : Reached pairOpened pairLedger ∧ pairLedger.HasOpen ⟨0⟩ ∧
    (pairLedger.file ⟨0⟩).bytes.size = 1 ∧
    let last := Operation.leadsAll [.read ⟨0⟩ 0 #[7], .length ⟨0⟩] (Operation.reset.leads pairOpened)
    last.cache.deviceReads = 2 ∧ ((Operation.read ⟨0⟩ 0 #[7]).leads last).cache.deviceReads = 2 := by
  have hopen : pairLedger.HasOpen ⟨0⟩ := by decide
  have hsize : (pairLedger.file ⟨0⟩).bytes.size = 1 := by decide
  have hos : ∀ o ∈ [Operation.read ⟨0⟩ 0 #[7], .length ⟨0⟩], o.Peruses ⟨0⟩ := by
    rintro o (_ | ⟨_, _ | ⟨_, ⟨⟩⟩⟩) <;> rfl
  have hexact := rereading_exact (.inl pairOpened_reached) hopen (by rw [hsize]; decide) hos
  obtain ⟨owned, asked, -, -, -, -, -, -, -, hcovered⟩ := hexact
  rw [hsize] at hcovered
  obtain ⟨hreads, hmore⟩ := hcovered Nat.one_pos fun i hi => ⟨0, #[7], List.mem_cons_self, Nat.zero_le i, hi⟩
  have hagain := (hmore [.read ⟨0⟩ 0 #[7]] fun o ho => List.mem_singleton.mp ho ▸ rfl).1
  exact ⟨pairOpened_reached, hopen, hsize, hreads, hagain.trans hreads⟩

end InodeStore
