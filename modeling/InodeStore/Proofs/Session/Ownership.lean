import InodeStore.Proofs.Session.Semantics

/-!
# `Proofs.Session.Ownership` — who has which sector

Wherever a caller has got to, each live file has sectors of its own, and a sector is taken exactly if a
live file has it or the caller has reserved it and made no file there (`Ownership`). So nothing leaks and
nothing is used twice, also after operations that were refused. The last close of a removed file gives
back its sectors, each of them once, and no other.
-/

namespace InodeStore

open Inode

section Ownership

variable {δ : Type} {n : Nat} [BlockDevice δ] [LawfulDevice δ] {store : Store δ n} {ledger : Ledger}

/-- A file that was made and has not gone. -/
def Ledger.Live (ledger : Ledger) (x : SectorId) : Prop := (ledger.file? x).isSome = true

/-- `owned` are the sectors of the live files, and besides those that are reserved no others are taken. -/
structure Ownership (store : Store δ n) (ledger : Ledger) (owned : SectorId → List SectorId) : Prop where
  /-- These are the sectors that the engine lists. -/
  listed : ∀ {x}, ledger.Live x → ∃ store' log,
    store.run (ownedSectors x) = ⟨.ok (.ok (owned x)), store', log⟩
  /-- No file has a sector twice. -/
  nodup : ∀ {x}, ledger.Live x → (owned x).Nodup
  /-- No two files have the same sector. -/
  disjoint : ∀ {x z}, ledger.Live x → ledger.Live z → x ≠ z → List.Disjoint (owned x) (owned z)
  /-- All of them are sectors of the free map. -/
  inside : ∀ {x y}, ledger.Live x → y ∈ owned x → y.toNat < store.freeMap.sectors
  /-- A sector is taken exactly if it is reserved, with no file there, or a file has it. -/
  allocated : ∀ {y : SectorId}, y.toNat < store.freeMap.sectors →
    (store.freeMap.isAllocated y = .ok true ↔
      ledger.spare y = true ∨ ∃ x, ledger.Live x ∧ y ∈ owned x)
  /-- The last close of a removed file gives back the file's sectors, each of them once, so that exactly
      these are not taken any more. -/
  closing : ∀ {x}, ledger.LastOfRemoved ⟨x⟩ → ∃ store' log,
    (Operation.close ⟨x⟩).run store = ⟨.ok (.ok ()), store', log⟩ ∧
      store.gives (Inode.close ⟨x⟩) = owned x ∧ store'.freeMap.sectors = store.freeMap.sectors ∧
      ∀ y : SectorId, y.toNat < store.freeMap.sectors →
        (store'.freeMap.isAllocated y = .ok true ↔
          store.freeMap.isAllocated y = .ok true ∧ y ∉ owned x)

variable {p : Plain} {a : Archive} {x y : SectorId} {f : FileRecord}

theorem Archive.live_iff (a : Archive) (x : SectorId) :
    a.ledger.Live x ↔ ∃ f, a.record? x = some f := by
  rw [Ledger.Live, ← Option.isSome_iff_exists]
  exact iff_of_eq (congrArg (· = true) Option.isSome_map)

/-- Whether a sector of the map is taken can be asked. -/
theorem isAllocated_iff {map : FreeMap} (hmap : map.Lawful) (hy : y.toNat < map.sectors) :
    map.isAllocated y = .ok true ↔ map.taken y.toNat = true := by
  rw [hmap.isAllocated_eq hy]
  exact ⟨Except.ok.inj, congrArg _⟩

/-- The last close of a removed file, on a store with a cache. -/
theorem Represents.close_last (h : Represents p a) (hn : 0 < n) (hs : Stands store p)
    (hlast : a.ledger.LastOfRemoved ⟨x⟩) (hx : a.record? x = some f) :
    ∃ store' log, store.run (Inode.close ⟨x⟩) = ⟨.ok (.ok ()), store', log⟩ ∧
      store.gives (Inode.close ⟨x⟩) = f.sectors x ∧ store'.freeMap = (a.released x f).freeMap := by
  obtain ⟨-, hcount, hremoved⟩ := hlast
  obtain ⟨d, hfile⟩ := h.fileAt hx
  have hclose := h.registry_close ⟨x⟩
  rw [if_neg (by omega), hremoved] at hclose
  obtain ⟨store', log, hrun, hstands, hgave⟩ := (hfile.close_last hclose).run_eq hn hs
  refine ⟨store', log, hrun, List.reverse_injective (List.append_cancel_right hgave).symm, ?_⟩
  rw [hstands.freeMap]
  exact congrArg (·.giveAll (f.sectors x)) h.freeMap

/-- A file on record for each live file. -/
theorem Archive.live_record (hlive : a.ledger.Live x) :
    ∃ f, a.record? x = some f ∧ (a.record ⟨x⟩).sectors x = f.sectors x := by
  obtain ⟨f, hf⟩ := (a.live_iff x).mp hlive
  exact ⟨f, hf, congrArg (FileRecord.sectors · x) (congrArg (Option.getD · _) hf)⟩

/-- A sector is taken exactly if it is reserved or a live file has it. -/
theorem Archive.Sound.taken_iff (h : a.Sound) (hlt : y.toNat < a.freeMap.sectors) :
    a.freeMap.taken y.toNat = true ↔
      a.ledger.spare y = true ∨ ∃ x, a.ledger.Live x ∧ y ∈ (a.record ⟨x⟩).sectors x := by
  constructor
  · intro htaken
    apply (h.covered hlt htaken).imp id
    rintro ⟨x, f, hf, hy⟩
    have hlive := (a.live_iff x).mpr ⟨f, hf⟩
    obtain ⟨g, hg, hsectors⟩ := Archive.live_record hlive
    rw [hf] at hg
    exact ⟨x, hlive, hsectors ▸ Option.some.inj hg ▸ hy⟩
  · rintro (hspare | ⟨x, hlive, hy⟩)
    · exact (h.spare hspare).2.1
    · obtain ⟨f, hf, hsectors⟩ := Archive.live_record hlive
      exact (h.owned hf (hsectors ▸ hy)).2

/-- The sectors of a store are owned as its archive says. -/
theorem Represents.ownership (h : Represents p a) (hn : 0 < n) (hs : Stands store p) :
    Ownership store a.ledger fun x => (a.record ⟨x⟩).sectors x := by
  have hsound := h.sound
  have hmap : store.freeMap = a.freeMap := hs.freeMap.trans h.freeMap
  constructor
  case listed =>
    intro x hlive
    obtain ⟨f, hf, hsectors⟩ := Archive.live_record hlive
    obtain ⟨d, hfile⟩ := h.fileAt hf
    obtain ⟨store', log, hrun, -⟩ := hfile.ownedSectors_runs.run_eq hn hs
    exact ⟨store', log, hsectors ▸ hrun⟩
  case nodup =>
    intro x hlive
    obtain ⟨f, hf, hsectors⟩ := Archive.live_record hlive
    exact hsectors ▸ hsound.nodup hf
  case disjoint =>
    intro x z hx hz hne y hy hy'
    obtain ⟨f, hf, hsectors⟩ := Archive.live_record hx
    obtain ⟨g, hg, hsectors'⟩ := Archive.live_record hz
    exact hne (hsound.apart hf hg (hsectors ▸ hy) (hsectors' ▸ hy'))
  case inside =>
    intro x y hlive hy
    obtain ⟨f, hf, hsectors⟩ := Archive.live_record hlive
    exact hmap ▸ (hsound.owned hf (hsectors ▸ hy)).1
  case allocated =>
    intro y hlt
    rw [hmap] at hlt ⊢
    rw [isAllocated_iff hsound.lawful hlt]
    exact hsound.taken_iff hlt
  case closing =>
    intro x hlast
    obtain ⟨-, -, -, hf, -⟩ := h.open_file hlast.1
    obtain ⟨store', log, hrun, hgives, hmap'⟩ := h.close_last hn hs hlast hf
    have hsectors := hsound.sectors_released hf
    refine ⟨store', log, hrun, hgives, ?_, ?_⟩
    · rw [hmap', hmap]
      exact hsectors
    · intro y hlt
      rw [hmap] at hlt ⊢
      rw [hmap', isAllocated_iff hsound.lawful hlt,
        isAllocated_iff (hsound.released hf).lawful (hsectors.symm ▸ hlt)]
      exact hsound.taken_released hf y

/-- **Every sector has one owner.** In every store that a caller can get to, the live files share no
    sector, a sector is taken exactly if a live file has it or it is reserved with no file there, and the
    last close of a removed file gives back exactly the file's sectors. -/
theorem sectors_owned_exactly (h : Reached store ledger) : ∃ owned, Ownership store ledger owned := by
  obtain ⟨hn, p, a, hstands, hrepresents, rfl⟩ := h.represents
  exact ⟨_, hrepresents.ownership hn hstands⟩

end Ownership

/-- A file with a block, removed while it is open. -/
theorem sectors_owned_exactly_removed :
    ∃ (store : Store RamDisk 1) (ledger : Ledger) (owned : SectorId → List SectorId),
      ledger.LastOfRemoved ⟨0⟩ ∧ Ownership store ledger owned := by
  have hwritten : Reached _ (openedLedger.after (.write ⟨0⟩ 3 #[7]) (.ok (1 : Nat))) :=
    openedStore_reached.next (by decide +kernel) (by decide +kernel)
  have hremoved : Reached _ ((openedLedger.after (.write ⟨0⟩ 3 #[7]) (.ok (1 : Nat))).after
      (.remove ⟨0⟩) (.ok ())) := hwritten.next (by decide +kernel) (by decide +kernel)
  obtain ⟨owned, h⟩ := sectors_owned_exactly hremoved
  exact ⟨_, _, owned, by decide +kernel, h⟩

end InodeStore
