import InodeStore.Proofs.FreeMap.Lowest
import InodeStore.Proofs.Session.Ownership
import InodeStore.Proofs.Volume.Durability

/-!
# `Proofs.Volume.Placement` — where the blocks of a file are

A file gets the lowest free sectors, in ascending order, for the blocks that it needs besides those it has:
first the index blocks that a data block hangs on, then the data block. So the list of its sectors goes on
with these, and the free map is that from before without them. This holds wherever a caller has got to, with a
store of its own or with a volume (`placement_exact`).
-/

namespace InodeStore

open Inode

variable {δ : Type} {n : Nat} [BlockDevice δ] [LawfulDevice δ] {store store' : Store δ n} {ledger : Ledger}
  {p : Plain} {a : Archive} {handle : Handle} {x : SectorId} {length : Nat}

/-! ## Claims -/

/-- Exactly these sectors become taken. -/
def FreeMap.TakesExactly (map map' : FreeMap) (new : List SectorId) : Prop :=
  map'.sectors = map.sectors ∧ ∀ y : SectorId, y.toNat < map.sectors →
    (map'.isAllocated y = .ok true ↔ map.isAllocated y = .ok true ∨ y ∈ new)

/-- What is claimed are the lowest free sectors. -/
theorem claim_lowest {map : FreeMap} (hmap : map.Lawful) {old : Nat} {new : List SectorId} (hold : old ≤ length)
    (h : claim map old length = .ok new) :
    new = map.freeSectors.take (totalBlocks length - totalBlocks old) ∧
      new.length = totalBlocks length - totalBlocks old ∧ map.Fresh new := by
  have hlength := claim_ok h
  have hcount := length_spotsBetween hold hlength
  unfold claim at h
  rw [if_neg (Nat.not_lt.mpr hlength)] at h
  split at h
  · next hfull =>
    obtain rfl : map.takeEach _ = new := Except.ok.inj h
    have hneeded : (spotsBetween old length).length = totalBlocks length - totalBlocks old := by omega
    rw [← hneeded]
    exact ⟨hmap.takeEach_eq _, hfull, hmap.fresh_takeEach _⟩
  · cases h

/-- A new file is at the lowest free sector, and has the next ones. -/
theorem claimNew_lowest {map : FreeMap} (hmap : map.Lawful) {new : List SectorId}
    (h : claimNew map length = .ok (x, new)) :
    map.freeSectors.take (totalBlocks length + 1) = x :: new ∧ new.length = totalBlocks length ∧
      map.Fresh (x :: new) := by
  obtain ⟨hx, hrest⟩ := claimNew_ok h
  have hfree := hmap.nextFree?_free hx
  have hlt := hmap.lt_sectors hfree
  obtain ⟨hnew, hcount, -⟩ := claim_lowest (hmap.assign hlt true) (Nat.zero_le _) hrest
  have hempty : totalBlocks 0 = 0 := rfl
  rw [hempty, Nat.sub_zero] at hnew hcount
  have hall : map.freeSectors.take (totalBlocks length + 1) = x :: new := by
    rw [hmap.freeSectors_of_some hx, List.take_succ_cons, hnew]
  exact ⟨hall, hcount, hall ▸ hmap.takeEach_eq _ ▸ hmap.fresh_takeEach _⟩

/-! ## Stores -/

/-- The answer to an operation that may be asked for. -/
theorem Represents.result_eq (h : Represents p a) (hn : 0 < n) (hs : Stands store p) {o : Operation}
    (hpermits : a.ledger.Permits o) : (o.run store).result = .ok (a.reply o).1 := by
  obtain ⟨store', log, p', hrun, -⟩ := h.answered hn hs o hpermits
  rw [hrun]

/-- The sectors of a file that is open. -/
theorem Represents.ownedSectors_eq (h : Represents p a) (hn : 0 < n) (hs : Stands store p)
    (hopen : a.ledger.HasOpen handle) : ((Operation.ownedSectors handle).run store).result =
      .ok (.ok ((a.record handle).owned ++ [handle.sector])) :=
  h.result_eq hn hs hopen

/-- The length of a file that is open. -/
theorem Represents.length_eq (h : Represents p a) (hn : 0 < n) (hs : Stands store p)
    (hopen : a.ledger.HasOpen handle)
    (hlength : ((Operation.length handle).run store).result = .ok (.ok length)) :
    (a.record handle).bytes.size = length := by
  have hanswer := h.result_eq hn hs (o := .length handle) hopen
  rw [hlength] at hanswer
  have hsize : length = (a.ledger.file handle).bytes.size := Except.ok.inj (Except.ok.inj hanswer)
  rw [hsize, a.ledger_file]
  rfl

/-- A file that is put at a sector takes exactly the sectors that it claimed. -/
theorem Represents.takes {p' : Plain} {f : FileRecord} {new : List SectorId} (h : Represents p a)
    (hs : Stands store p) (h' : Represents p' (a.filed x f new)) (hs' : Stands store' p')
    (hfresh : a.freeMap.Fresh new) : store.freeMap.TakesExactly store'.freeMap new := by
  have hmap : store.freeMap = a.freeMap := hs.freeMap.trans h.freeMap
  have hmap' : store'.freeMap = (a.filed x f new).freeMap := hs'.freeMap.trans h'.freeMap
  have hsectors := h.sound.sectors_filed hfresh x f
  rw [hmap, hmap']
  refine ⟨hsectors, fun y hy => ?_⟩
  rw [isAllocated_iff h.sound.lawful hy, isAllocated_iff h'.sound.lawful (hsectors.symm ▸ hy),
    h.sound.taken_filed hfresh, or_comm]

theorem Archive.hasOpen_change (a : Archive) (handle : Handle) (change : OpenInode → OpenInode) :
    (a.change handle change).ledger.HasOpen handle := by
  show (Function.update a.open? handle.sector (some _) handle.sector).isSome = true
  rw [Function.update_self]
  rfl

/-- What a write does that makes a file longer. -/
theorem Represents.write_places (h : Represents p a) (hn : 0 < n) (hs : Stands store p)
    (hopen : a.ledger.HasOpen handle) {offset : Nat} {data : Bytes} {length' count : Nat} {log : List Event}
    (hlength : ((Operation.length handle).run store).result = .ok (.ok length))
    (hrun : (Operation.write handle offset data).run store = ⟨.ok (.ok count), store', log⟩)
    (hlength' : ((Operation.length handle).run store').result = .ok (.ok length')) (hgrows : length < length') :
    ∃ blocks new, ((Operation.ownedSectors handle).run store).result = .ok (.ok (blocks ++ [handle.sector])) ∧
      ((Operation.ownedSectors handle).run store').result = .ok (.ok (blocks ++ new ++ [handle.sector])) ∧
      new = store.freeMap.freeSectors.take (totalBlocks length' - totalBlocks length) ∧
      new.length = totalBlocks length' - totalBlocks length ∧
      store.freeMap.TakesExactly store'.freeMap new := by
  have hmap : store.freeMap = a.freeMap := hs.freeMap.trans h.freeMap
  have hold := h.length_eq hn hs hopen hlength
  obtain ⟨store₁, log₁, p', hrun', hs', h'⟩ := h.answered hn hs (.write handle offset data) hopen
  rw [hrun] at hrun'
  obtain ⟨hresult, rfl, -⟩ := Reply.mk.inj hrun'
  have hreply : a.reply (.write handle offset data) = a.write handle offset data := rfl
  rw [hreply] at hresult h'
  have hanswer : (a.write handle offset data).1 = .ok count := (Except.ok.inj hresult).symm
  unfold Archive.write at hanswer h'
  by_cases hskips : a.ledger.Skips handle data
  · -- a write that is skipped leaves the file as long as it is
    rw [if_pos hskips] at h'
    have h' : Represents p' a := h'
    have hsame := h'.length_eq hn hs' hopen hlength'
    omega
  · rw [if_neg hskips] at h' hanswer
    cases hclaim : claim a.freeMap (a.record handle).bytes.size (offset + data.size) with
    | error e =>
      rw [hclaim] at hanswer
      cases hanswer
    | ok new =>
      rw [hclaim] at h'
      have h' : Represents p' (a.filed handle.sector ((a.record handle).written offset data new) new) := h'
      have hrecord := a.record_filed handle.sector ((a.record handle).written offset data new) new
      have hsize := h'.length_eq hn hs' hopen hlength'
      rw [hrecord, Archive.size_written, hold] at hsize
      have hlast : offset + data.size = length' := by omega
      rw [hold, hlast] at hclaim
      obtain ⟨hnew, hcount, hfresh⟩ := claim_lowest h.sound.lawful (Nat.le_of_lt hgrows) hclaim
      refine ⟨(a.record handle).owned, new, h.ownedSectors_eq hn hs hopen, ?_, hmap ▸ hnew, hcount,
        h.takes hs h' hs' hfresh⟩
      have howned := h'.ownedSectors_eq hn hs' hopen
      rw [hrecord] at howned
      exact howned

/-- What the making of a file does. -/
theorem Represents.create_places (h : Represents p a) (hn : 0 < n) (hs : Stands store p) {isDir : Bool}
    {log : List Event} (hrun : (Operation.create length isDir).run store = ⟨.ok (.ok x), store', log⟩) :
    ∃ blocks, store.freeMap.freeSectors.take (totalBlocks length + 1) = x :: blocks ∧
      blocks.length = totalBlocks length ∧
      ((Operation.ownedSectors ⟨x⟩).run ((Operation.openInode x).run store').state).result =
        .ok (.ok (blocks ++ [x])) ∧
      store.freeMap.TakesExactly store'.freeMap (x :: blocks) := by
  have hmap : store.freeMap = a.freeMap := hs.freeMap.trans h.freeMap
  obtain ⟨store₁, log₁, p', hrun', hs', h'⟩ := h.answered hn hs (.create length isDir) trivial
  rw [hrun] at hrun'
  obtain ⟨hresult, rfl, -⟩ := Reply.mk.inj hrun'
  have hreply : a.reply (.create length isDir) = a.create length isDir := rfl
  rw [hreply] at hresult h'
  have hanswer : (a.create length isDir).1 = .ok x := (Except.ok.inj hresult).symm
  unfold Archive.create at hanswer h'
  cases hclaim : claimNew a.freeMap length with
  | error e =>
    rw [hclaim] at hanswer
    cases hanswer
  | ok claimed =>
    obtain ⟨y, new⟩ := claimed
    rw [hclaim] at hanswer h'
    obtain rfl : y = x := Except.ok.inj hanswer
    obtain ⟨hall, hcount, hfresh⟩ := claimNew_lowest h.sound.lawful hclaim
    refine ⟨new, hmap ▸ hall, hcount, ?_, h.takes hs h' hs' hfresh⟩
    -- the new file is opened, and then it can be asked for its sectors
    have h' : Represents p' (a.filed y (.zeros isDir length new) (y :: new)) := h'
    have hrecord := a.record_filed y (.zeros isDir length new) (y :: new)
    have hlive : (a.filed y (.zeros isDir length new) (y :: new)).ledger.Permits (.openInode y) := by
      show ((Function.update a.record? y (some _) y).map FileRecord.file).isSome = true
      rw [Function.update_self]
      rfl
    obtain ⟨store₂, log₂, p₂, hopened, hs₂, h₂⟩ := h'.answered hn hs' (.openInode y) hlive
    have hasked : ((Operation.ownedSectors ⟨y⟩).run store₂).result =
        .ok (.ok (((a.filed y (.zeros isDir length new) (y :: new)).record ⟨y⟩).owned ++ [y])) :=
      h₂.ownedSectors_eq hn hs₂ (Archive.hasOpen_change _ ⟨y⟩ _)
    rw [hrecord] at hasked
    rw [hopened]
    exact hasked

/-- **A file gets the lowest free sectors**, wherever a caller has got to, with a store or a volume. A write
    that makes an open file longer appends to the list of its blocks the lowest free sectors in ascending order,
    as many as the longer file needs besides, and these become taken. A file that is made is at the lowest free
    sector, and its blocks are the next ones, as many as a file of its length needs. -/
theorem placement_exact (h : Reached store ledger ∨ InUse store ledger) :
    (∀ handle offset data length length' count store' log, ledger.HasOpen handle →
      ((Operation.length handle).run store).result = .ok (.ok length) →
      (Operation.write handle offset data).run store = ⟨.ok (.ok count), store', log⟩ →
      ((Operation.length handle).run store').result = .ok (.ok length') → length < length' →
      ∃ blocks new, ((Operation.ownedSectors handle).run store).result = .ok (.ok (blocks ++ [handle.sector])) ∧
        ((Operation.ownedSectors handle).run store').result = .ok (.ok (blocks ++ new ++ [handle.sector])) ∧
        new = store.freeMap.freeSectors.take (totalBlocks length' - totalBlocks length) ∧
        new.length = totalBlocks length' - totalBlocks length ∧
        store.freeMap.TakesExactly store'.freeMap new) ∧
    ∀ length isDir x store' log, (Operation.create length isDir).run store = ⟨.ok (.ok x), store', log⟩ →
      ∃ blocks, store.freeMap.freeSectors.take (totalBlocks length + 1) = x :: blocks ∧
        blocks.length = totalBlocks length ∧
        ((Operation.ownedSectors ⟨x⟩).run ((Operation.openInode x).run store').state).result =
          .ok (.ok (blocks ++ [x])) ∧
        store.freeMap.TakesExactly store'.freeMap (x :: blocks) := by
  obtain ⟨hn, p, a, hs, hrepresents, rfl⟩ := represented h
  constructor
  · intro handle offset data length length' count store' log hopen hlength hrun hlength' hgrows
    exact hrepresents.write_places hn hs hopen hlength hrun hlength' hgrows
  · intro length isDir x store' log hrun
    exact hrepresents.create_places hn hs hrun

/-- The length of a file that is open is the one in the ledger. -/
theorem Reached.length_eq (h : Reached store ledger) (hopen : ledger.HasOpen handle) :
    ((Operation.length handle).run store).result = .ok (.ok (ledger.file handle).bytes.size) := by
  obtain ⟨answer, store', log, hrun, hexpected⟩ := h.answered (o := .length handle) hopen
  rw [hrun, show answer = .ok (ledger.file handle).bytes.size from hexpected]

/-- The empty file of a small store gets a block, which is the only free sector. -/
theorem placement_exact_opened :
    ∃ blocks new, ((Operation.ownedSectors ⟨0⟩).run openedStore).result = .ok (.ok (blocks ++ [0])) ∧
      ((Operation.ownedSectors ⟨0⟩).run ((Operation.write ⟨0⟩ 3 #[7]).run openedStore).state).result =
        .ok (.ok (blocks ++ new ++ [0])) ∧
      new = openedStore.freeMap.freeSectors.take 1 ∧ new.length = 1 := by
  have hopen : openedLedger.HasOpen ⟨0⟩ := by decide +kernel
  have hwritten : ((Operation.write ⟨0⟩ 3 #[7]).run openedStore).result = .ok (.ok (1 : Nat)) := by
    decide +kernel
  have hreached := openedStore_reached.next (o := .write ⟨0⟩ 3 #[7]) hopen hwritten
  have hopen' : (openedLedger.after (.write ⟨0⟩ 3 #[7]) (.ok (1 : Nat))).HasOpen ⟨0⟩ := by decide +kernel
  have hrun : (Operation.write ⟨0⟩ 3 #[7]).run openedStore =
      ⟨.ok (.ok (1 : Nat)), ((Operation.write ⟨0⟩ 3 #[7]).run openedStore).state,
        ((Operation.write ⟨0⟩ 3 #[7]).run openedStore).log⟩ := by
    rw [← hwritten]
  have hbefore : (openedLedger.file ⟨0⟩).bytes.size = 0 := by decide +kernel
  have hafter : ((openedLedger.after (.write ⟨0⟩ 3 #[7]) (.ok (1 : Nat))).file ⟨0⟩).bytes.size = 4 := by
    decide +kernel
  obtain ⟨blocks, new, hblocks, hlonger, hnew, hcount, -⟩ :=
    (placement_exact (.inl openedStore_reached)).1 ⟨0⟩ 3 #[7] 0 4 1 _ _ hopen
      (hbefore ▸ openedStore_reached.length_eq hopen) hrun (hafter ▸ hreached.length_eq hopen') (by decide)
  exact ⟨blocks, new, hblocks, hlonger, hnew, hcount⟩

end InodeStore
