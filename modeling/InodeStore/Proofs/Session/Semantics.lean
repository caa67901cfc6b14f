import InodeStore.Proofs.Session.Routines

/-!
# `Proofs.Session.Semantics` — stores are maps from sectors to files

A store that a caller has got to is that of an archive with the caller's ledger (`Reached.represents`), so
its answers are the archive's, and these are what the ledger expects (`Represents.expected`). Together:
each operation that may be asked for is carried out and answered as by a map from the sector of a
descriptor to a file (`answers_expected`).
-/

namespace InodeStore

open Inode

variable {p p' : Plain} {a : Archive} {x y : SectorId} {f g : FileRecord} {new : List SectorId}
  {handle : Handle} {length : Nat} {e : Error}

/-! ## Room -/

/-- Inside of a file nothing has to be claimed, so the claim does not fail. -/
theorem lt_of_claim_error {map : FreeMap} {old : Nat} (h : claim map old length = .error e)
    (hold : old ≤ maxFileSize) : old < length := by
  refine Nat.lt_of_not_le fun hinside => ?_
  rw [claim_inside map hinside hold] at h
  cases h

theorem Archive.create_decides (hmap : a.freeMap.Lawful) (length : Nat) (isDir : Bool) :
    Decides (length ≤ maxFileSize ∧ totalBlocks length + 1 ≤ a.freeMap.freeCount)
      (maxFileSize < length ∧ 1 ≤ a.freeMap.freeCount) (a.create length isDir).1 := by
  have hanswer : (a.create length isDir).1 = (claimNew a.freeMap length).map Prod.fst := by
    unfold Archive.create
    cases claimNew a.freeMap length with
    | ok claimed => rfl
    | error e => rfl
  rw [hanswer]
  exact (claimNew_decides hmap length).map _

theorem Archive.write_decides (hmap : a.freeMap.Lawful) {data : Bytes}
    (hcarries : ¬ a.ledger.Skips handle data) (hlength : (a.record handle).bytes.size = length) (offset : Nat) :
    Decides (offset + data.size ≤ maxFileSize ∧ (length < offset + data.size →
        totalBlocks (offset + data.size) - totalBlocks length ≤ a.freeMap.freeCount))
      (maxFileSize < offset + data.size) (a.write handle offset data).1 ∧
    ∀ count, (a.write handle offset data).1 = .ok count → count = data.size := by
  have hanswer : (a.write handle offset data).1 =
      (claim a.freeMap length (offset + data.size)).map fun _ => data.size := by
    unfold Archive.write
    rw [if_neg hcarries, hlength]
    cases claim a.freeMap length (offset + data.size) with
    | ok new => rfl
    | error e => rfl
  rw [hanswer]
  refine ⟨(claim_decides hmap _ _).map _, fun count hcount => ?_⟩
  cases hclaim : claim a.freeMap length (offset + data.size) with
  | ok new =>
    rw [hclaim] at hcount
    exact (Except.ok.inj hcount).symm
  | error e =>
    rw [hclaim] at hcount
    cases hcount

/-! ## The ledger of an archive -/

theorem map_update (r : SectorId → Option FileRecord) (x : SectorId) (v : Option FileRecord) :
    (fun s => (Function.update r x v s).map FileRecord.file) =
      Function.update (fun s => (r s).map FileRecord.file) x (v.map FileRecord.file) := by
  funext s
  by_cases he : s = x
  · subst he
    rw [Function.update_self, Function.update_self]
  · rw [Function.update_of_ne he, Function.update_of_ne he]

/-- What a caller sees of a file that is put at a sector. -/
theorem Archive.ledger_filed (a : Archive) (x : SectorId) (f : FileRecord) (new : List SectorId) :
    (a.filed x f new).ledger =
      { a.ledger.withFile x f.file with spare := Function.update a.spare x false } := by
  unfold Archive.ledger Archive.filed Ledger.withFile
  rw [map_update]
  rfl

/-- At a sector that was not reserved, that is all. -/
theorem Archive.ledger_filed_of_not_spare (hx : a.spare x = false) (f : FileRecord)
    (new : List SectorId) : (a.filed x f new).ledger = a.ledger.withFile x f.file := by
  have hspare := Function.update_eq_self x a.spare
  rw [hx] at hspare
  rw [a.ledger_filed, hspare]
  rfl

theorem Archive.ledger_close (a : Archive) (handle : Handle) :
    (a.close handle).ledger = a.ledger.close handle := by
  unfold Archive.close Ledger.close
  split
  · rfl
  · cases (a.ledger.entry handle).removed with
    | true =>
      unfold Archive.ledger Archive.released
      rw [if_pos rfl, map_update]
      rfl
    | false => rfl

/-- No file is at a free sector. -/
theorem Archive.Sound.nothing_free (h : a.Sound) (hx : a.freeMap.taken x.toNat = false) :
    a.record? x = none ∧ a.spare x = false := by
  have hnothing : ¬ a.Holding x x := h.not_holding_of_free hx
  constructor
  · refine Option.eq_none_iff_forall_ne_some.mpr fun g hg => hnothing ?_
    exact .inl ⟨g, hg, Archive.self_mem_sectors g x⟩
  · exact Bool.eq_false_iff.mpr fun hspare => hnothing (.inr ⟨rfl, hspare⟩)

/-! ## Answers -/

/-- A reply that a ledger expects, after which it is kept. -/
def Archive.Keeps (a : Archive) (o : Operation) (reply : Except Error o.Answer × Archive) : Prop :=
  a.ledger.Expects a.freeMap.freeCount o reply.1 ∧ reply.2.ledger = a.ledger.after o reply.1

theorem Represents.create_keeps (h : Represents p a) (length : Nat) (isDir : Bool) :
    a.Keeps (.create length isDir) (a.create length isDir) := by
  have hdecides := Archive.create_decides h.sound.lawful length isDir
  unfold Archive.create at hdecides ⊢
  cases hclaim : claimNew a.freeMap length with
  | error e =>
    rw [hclaim] at hdecides
    exact ⟨⟨hdecides, nofun⟩, rfl⟩
  | ok claimed =>
    rw [hclaim] at hdecides
    obtain ⟨x, new⟩ := claimed
    obtain ⟨hx, hrest⟩ := claimNew_ok hclaim
    obtain ⟨hfile, hspare⟩ := h.sound.nothing_free (h.sound.lawful.nextFree?_free hx)
    refine ⟨⟨hdecides, fun sector hsector => ?_⟩, Archive.ledger_filed_of_not_spare hspare _ _⟩
    obtain rfl : x = sector := Except.ok.inj hsector
    exact ⟨congrArg (Option.map _) hfile, hspare⟩

theorem Represents.createAt_keeps (h : Represents p a) (x : SectorId) (length : Nat) (isDir : Bool) :
    a.Keeps (.createAt x length isDir) (a.createAt x length isDir) := by
  have hdecides := claim_decides_empty h.sound.lawful length
  unfold Archive.createAt
  cases hclaim : claim a.freeMap 0 length with
  | error e =>
    rw [hclaim] at hdecides
    exact ⟨hdecides.map fun _ => (), rfl⟩
  | ok new =>
    rw [hclaim] at hdecides
    exact ⟨hdecides.map fun _ => (), a.ledger_filed _ _ _⟩

theorem Represents.write_keeps (h : Represents p a) (hopen : a.ledger.HasOpen handle) (offset : Nat)
    (data : Bytes) :
    a.ledger.ExpectsWrite a.freeMap.freeCount handle offset data (a.write handle offset data).1 ∧
      (a.write handle offset data).2.ledger =
        a.ledger.write handle offset data (a.write handle offset data).1 := by
  obtain ⟨d, -, hfile, hrecord, -⟩ := h.open_file hopen
  have hsize : (a.record handle).bytes.size ≤ maxFileSize :=
    hfile.record.holds.size ▸ hfile.record.stored.size
  have hledger : a.ledger.file handle = (a.record handle).file := a.ledger_file handle
  by_cases hskips : a.ledger.Skips handle data
  · unfold Archive.write
    rw [if_pos hskips]
    exact ⟨(if_pos hskips).mpr rfl, (if_pos hskips).symm⟩
  have hdecides := Archive.write_decides h.sound.lawful hskips
    (congrArg (fun f => f.bytes.size) hledger).symm offset
  unfold Archive.write at hdecides ⊢
  rw [if_neg hskips] at hdecides ⊢
  cases hclaim : claim a.freeMap (a.record handle).bytes.size (offset + data.size) with
  | error e =>
    rw [hclaim] at hdecides
    exact ⟨(if_neg hskips).mpr ⟨hdecides.1, hledger ▸ lt_of_claim_error hclaim hsize⟩, rfl⟩
  | ok new =>
    rw [hclaim] at hdecides
    have hspare : a.spare handle.sector = false := Bool.eq_false_iff.mpr fun hspare =>
      (h.sound.spare hspare).2.2 hrecord (Archive.self_mem_sectors _ _)
    have hafter : a.ledger.write handle offset data (.ok data.size) =
        a.ledger.withFile handle.sector ((a.ledger.file handle).written offset data) := if_neg hskips
    refine ⟨(if_neg hskips).mpr ⟨hdecides.1, rfl⟩, Eq.trans ?_ hafter.symm⟩
    rw [hledger]
    exact Archive.ledger_filed_of_not_spare hspare _ _

theorem Represents.sectorOfByte_keeps (h : Represents p a) (hopen : a.ledger.HasOpen handle)
    (offset : Nat) : a.Keeps (.sectorOfByte handle offset) (a.sectorOfByte handle offset, a) := by
  obtain ⟨d, -, hfile, -⟩ := h.open_file hopen
  have hsize := hfile.record.holds.size
  refine ⟨?_, by cases a.sectorOfByte handle offset <;> rfl⟩
  unfold Ledger.Expects Archive.sectorOfByte
  simp only [a.ledger_file]
  by_cases hoffset : offset < (a.record handle).bytes.size
  · obtain ⟨place, -, hplace⟩ := locate?_eq hfile.record.stored.size (hsize.symm ▸ hoffset)
    rw [hfile.record.sectorAt_eq hoffset hplace]
    exact (if_pos hoffset).mpr ⟨_, rfl⟩
  · have hnone : (a.record handle).sectorAt offset = none := if_neg hoffset
    rw [hnone]
    exact (if_neg hoffset).mpr rfl

/-- **The archive's reply is one that the ledger expects.** -/
theorem Represents.expected (h : Represents p a) (o : Operation) (hpermits : a.ledger.Permits o) :
    a.Keeps o (a.reply o) := by
  cases o with
  | create length isDir => exact h.create_keeps length isDir
  | createAt x length isDir => exact h.createAt_keeps x length isDir
  | close handle => exact ⟨rfl, a.ledger_close handle⟩
  | write handle offset data => exact h.write_keeps hpermits offset data
  | sectorOfByte handle offset => exact h.sectorOfByte_keeps hpermits offset
  | ownedSectors handle => exact ⟨⟨_, rfl⟩, rfl⟩
  | _ => exact ⟨rfl, rfl⟩

/-! ## Stores that a caller can get to -/

/-- A sector that was reserved was free. -/
theorem FreeMap.taken_of_mark {map : FreeMap} (h : (FreeMap.mark x map).result = .ok ()) :
    map.taken x.toNat = false := by
  rcases FreeMap.mark_cases map x with ⟨hbit, -⟩ | ⟨e, -, hfault⟩
  · rw [FreeMap.taken, hbit]
    rfl
  · rw [hfault] at h
    cases h

/-- A free sector is reserved. -/
theorem Represents.reserve (h : Represents p a) (hx : a.freeMap.taken x.toNat = false) :
    Represents { p with freeMap := p.freeMap.assign x.toNat true } (a.reserve x) := by
  refine ⟨h.sound.reserve hx, congrArg (·.takeAll [x]) h.freeMap, ?_, h.lists, h.record⟩
  rw [h.sound.sectors_reserve hx]
  exact h.fits

section Reached

variable {δ : Type} {n : Nat} [BlockDevice δ] [LawfulDevice δ] {store store' : Store δ n}
  {ledger : Ledger}

/-- **A store that a caller has got to** is that of an archive with the caller's ledger. -/
theorem Reached.represents (h : Reached store ledger) :
    0 < n ∧ ∃ p a, Stands store p ∧ Represents p a ∧ a.ledger = ledger := by
  -- each step of the caller is one of the archive, whose ledger the caller keeps
  induction h with
  | @start device map hdevice hframes hmap hfits =>
    refine ⟨hframes, ⟨LawfulDevice.block device, BlockDevice.sectorCount device, map, .empty, [], []⟩,
      .start map, ⟨Cache.blank_coherent hdevice, Cache.blank_unpinned device, rfl, rfl, rfl⟩, ?_, rfl⟩
    exact ⟨Archive.start_sound hmap, rfl, hfits, Registry.lists_empty, nofun⟩
  | @reserve store store' ledger x log _ hmark ih =>
    obtain ⟨hn, p, a, hstands, hrepresents, hledger⟩ := ih
    obtain ⟨store₁, log₁, hrun, hstands₁⟩ := hstands.onMap (FreeMap.mark x)
    rw [hmark] at hrun
    have hfree := FreeMap.taken_of_mark (Reply.mk.inj hrun).1.symm
    rw [hrepresents.freeMap] at hfree
    have hmarked := hrepresents.lawful.mark_eq (hrepresents.freeMap ▸ hfree)
    rw [hmarked] at hstands₁
    refine ⟨hn, _, a.reserve x, (Reply.mk.inj hrun).2.1 ▸ hstands₁, hrepresents.reserve hfree, ?_⟩
    rw [← hledger]
    rfl
  | @step store store' ledger o answer log _ hpermits hrun ih =>
    obtain ⟨hn, p, a, hstands, hrepresents, rfl⟩ := ih
    obtain ⟨store₁, log₁, p', hrun', hstands', hrepresents'⟩ :=
      hrepresents.answered hn hstands o hpermits
    rw [hrun] at hrun'
    cases hrun'
    exact ⟨hn, p', _, hstands', hrepresents', (hrepresents.expected o hpermits).2⟩

/-- An operation that may be asked for is carried out, and answered as the ledger expects with the sectors that
    are free. -/
theorem Reached.answered (h : Reached store ledger) {o : Operation} (hpermits : ledger.Permits o) :
    ∃ answer store' log, o.run store = ⟨.ok answer, store', log⟩ ∧
      ledger.Expects store.freeMap.freeCount o answer := by
  obtain ⟨hn, p, a, hstands, hrepresents, rfl⟩ := h.represents
  rw [hstands.freeMap, hrepresents.freeMap]
  obtain ⟨store', log, -, hrun, -⟩ := hrepresents.answered hn hstands o hpermits
  exact ⟨_, store', log, hrun, (hrepresents.expected o hpermits).1⟩

/-- A caller goes on from the answer. -/
theorem Reached.next (h : Reached store ledger) {o : Operation} {answer : Except Error o.Answer}
    (hpermits : ledger.Permits o) (hanswer : (o.run store).result = .ok answer) :
    Reached (o.run store).state (ledger.after o answer) := by
  have hrun : o.run store = ⟨.ok answer, (o.run store).state, (o.run store).log⟩ := by
    rw [← hanswer]
  exact h.step hpermits hrun

/-- Operations made one after the other are answered as the ledger expects, as long as they may be asked
    for, with the sectors that are then free. The ledger is kept by the answers. -/
def Conforms (store : Store δ n) (ledger : Ledger) : List Operation → Prop
  | [] => True
  | o :: rest => ledger.Permits o → ∃ answer store' log, o.run store = ⟨.ok answer, store', log⟩ ∧
      ledger.Expects store.freeMap.freeCount o answer ∧ Conforms store' (ledger.after o answer) rest

/-- **A store is a map from sectors to files.** Wherever a caller has got to, whatever operations follow
    are carried out, as long as they may be asked for, and answered as the ledger expects: a file is made or
    lengthened exactly if the sectors for it are free, a new file has as many zeros as were asked for, a read
    gives the bytes that the file has at its offset, a write that is carried out puts its bytes there, with
    zeros between them and the former end of the file, and no operation on one file changes another. -/
theorem session_conforms (h : Reached store ledger) (operations : List Operation) :
    Conforms store ledger operations := by
  -- the answer leads to a store that the caller has got to, with the ledger it keeps
  induction operations generalizing store ledger with
  | nil => trivial
  | cons o rest ih =>
    intro hpermits
    obtain ⟨answer, store', log, hrun, hexpected⟩ := h.answered hpermits
    exact ⟨answer, store', log, hrun, hexpected, ih (h.step hpermits hrun)⟩

end Reached

/-! ## A small store -/

/-- A store of two sectors and one frame, the first sector reserved. -/
def smallStore : Store RamDisk 1 :=
  ⟨Cache.blank 1 (RamDisk.blank 2), (FreeMap.blank 2).assign 0 true, .empty⟩

/-- The small store with an empty file at the reserved sector, which is open. -/
def openedStore : Store RamDisk 1 :=
  ((Operation.openInode 0).run ((Operation.createAt 0 0 false).run smallStore).state).state

/-- What a caller keeps in mind about it. -/
def openedLedger : Ledger :=
  ((Ledger.start smallStore.freeMap).after (.createAt 0 0 false) (.ok ())).after (.openInode 0) (.ok ⟨0⟩)

theorem openedStore_reached : Reached openedStore openedLedger := by
  have hmap : smallStore.freeMap.Lawful := (FreeMap.blank_lawful (by decide)).assign (by decide) true
  have hstart : Reached smallStore (.start smallStore.freeMap) :=
    .start trivial Nat.one_pos hmap (Nat.le_of_eq Array.size_replicate.symm)
  exact (hstart.next (by decide +kernel) (by decide +kernel)).next (by decide +kernel)
    (by decide +kernel)

/-- A byte beyond the end of a file, and what is then in front of it. -/
theorem session_conforms_opened :
    openedLedger.Permits (.write ⟨0⟩ 3 #[7]) ∧
      Conforms openedStore openedLedger [.write ⟨0⟩ 3 #[7], .reset, .read ⟨0⟩ 2 #[1, 1, 1]] :=
  ⟨by decide +kernel, session_conforms openedStore_reached _⟩

/-- The answer to that read. -/
example : ((Operation.read ⟨0⟩ 2 #[1, 1, 1]).run
    ((Operation.write ⟨0⟩ 3 #[7]).run openedStore).state).result = .ok (.ok (2, #[0, 7, 1])) := by
  decide +kernel

end InodeStore
