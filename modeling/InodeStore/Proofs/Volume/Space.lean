import InodeStore.Proofs.Volume.Placement

/-!
# `Proofs.Volume.Space` — what there is room for

Whether a file can be made or lengthened is seen from the outside: its length must not be above the maximum,
and the sectors that it needs besides those it has must be free. The store finds out one sector at a time, but
it refuses exactly where that many are not free (`claim_decides`), and a write that is not refused is done in
full. `space_exact` says so for `create`, `createAt` and `write`, wherever a caller has got to.
-/

namespace InodeStore

open Inode

variable {δ : Type} {n : Nat} [BlockDevice δ] [LawfulDevice δ] {store : Store δ n} {ledger : Ledger}
  {p : Plain} {a : Archive} {handle : Handle} {length : Nat}

/-- A file can be put at any sector that is taken, and there it is done if its claim is granted. -/
theorem Represents.createAt_decides (h : Represents p a) (hn : 0 < n) (hs : Stands store p) {x : SectorId}
    (hx : x.toNat < store.freeMap.sectors) (hheld : store.freeMap.isAllocated x = .ok true) (length : Nat)
    (isDir : Bool) : ∃ answer store' log,
      (Operation.createAt x length isDir).run store = ⟨.ok answer, store', log⟩ ∧
        Decides (length ≤ maxFileSize ∧ totalBlocks length ≤ store.freeMap.freeCount) (maxFileSize < length)
          answer := by
  have hmap := h.lawful
  rw [hs.freeMap] at hx hheld ⊢
  have htaken := (isAllocated_iff hmap hx).mp hheld
  have hdecides := claim_decides_empty hmap length
  cases hclaim : claim p.freeMap 0 length with
  | ok new =>
    obtain ⟨p', d, hruns, -⟩ : ∃ p' d, Runs true (Inode.createAt x length isDir) p (.ok ()) p' ∧
        Made p p' x d (.zeros isDir length new) new := createAt_runs hmap h.inside htaken hx hclaim
    obtain ⟨store', log, hrun, -⟩ := hruns.run_eq hn hs
    rw [hclaim] at hdecides
    exact ⟨_, store', log, hrun, hdecides.map fun _ => ()⟩
  | error e =>
    obtain ⟨p', hruns, -⟩ : ∃ p', Runs true (Inode.createAt x length isDir) p (.error (.refused e)) p' ∧
        Unharmed p p' [] := createAt_refused hmap h.inside htaken hx hclaim
    obtain ⟨store', log, hrun, -⟩ := hruns.run_eq hn hs
    rw [hclaim] at hdecides
    exact ⟨_, store', log, hrun, hdecides.map fun _ => ()⟩

/-- **What there is room for**, wherever a caller has got to, with a store or a volume. A file is made if its
    length is not above the maximum and its sectors and one for the descriptor are free, and put at a sector that
    is taken if its sectors are. A write that is not denied and not empty is done in full if it does not end above
    the maximum and the sectors that a longer file needs besides are free. -/
theorem space_exact (h : Reached store ledger ∨ InUse store ledger) :
    (∀ length isDir, ∃ answer store' log,
      (Operation.create length isDir).run store = ⟨.ok answer, store', log⟩ ∧
        Decides (length ≤ maxFileSize ∧ totalBlocks length + 1 ≤ store.freeMap.freeCount)
          (maxFileSize < length ∧ 1 ≤ store.freeMap.freeCount) answer) ∧
    (∀ x length isDir, x.toNat < store.freeMap.sectors → store.freeMap.isAllocated x = .ok true →
      ∃ answer store' log, (Operation.createAt x length isDir).run store = ⟨.ok answer, store', log⟩ ∧
        Decides (length ≤ maxFileSize ∧ totalBlocks length ≤ store.freeMap.freeCount)
          (maxFileSize < length) answer) ∧
    ∀ handle offset data, ledger.HasOpen handle → ¬ ledger.Skips handle data → ∃ length answer store' log,
      ((Operation.length handle).run store).result = .ok (.ok length) ∧
        (Operation.write handle offset data).run store = ⟨.ok answer, store', log⟩ ∧
        Decides (offset + data.size ≤ maxFileSize ∧ (length < offset + data.size →
            totalBlocks (offset + data.size) - totalBlocks length ≤ store.freeMap.freeCount))
          (maxFileSize < offset + data.size) answer ∧
        ∀ count, answer = .ok count → count = data.size := by
  obtain ⟨hn, p, a, hs, hrepresents, rfl⟩ := represented h
  have hmap : store.freeMap = a.freeMap := hs.freeMap.trans hrepresents.freeMap
  have hlawful := hrepresents.sound.lawful
  refine ⟨fun length isDir => ?_, fun x length isDir hx hheld => ?_, fun handle offset data hopen hcarries => ?_⟩
  · obtain ⟨store', log, p', hrun, -⟩ := hrepresents.answered hn hs (.create length isDir) trivial
    exact ⟨_, store', log, hrun, hmap ▸ Archive.create_decides hlawful length isDir⟩
  · exact hrepresents.createAt_decides hn hs hx hheld length isDir
  · have hlength := hrepresents.result_eq hn hs (o := .length handle) hopen
    obtain ⟨store', log, p', hrun, -⟩ := hrepresents.answered hn hs (.write handle offset data) hopen
    refine ⟨_, _, store', log, hlength, hrun, ?_⟩
    rw [hmap]
    exact Archive.write_decides hlawful hcarries
      (congrArg (fun f => f.bytes.size) (a.ledger_file handle)).symm offset

/-- In a small store one sector is free, which is enough for a byte in an empty file but not for a new file
    with a byte in it. -/
theorem space_exact_opened : openedStore.freeMap.freeCount = 1 ∧
    ((Operation.create 1 false).run openedStore).result = .ok (.error .allocationExhausted) ∧
    ((Operation.write ⟨0⟩ 511 #[7]).run openedStore).result = .ok (.ok (1 : Nat)) := by
  have hfree : openedStore.freeMap.freeCount = 1 := by decide +kernel
  have hopen : openedLedger.HasOpen ⟨0⟩ := by decide +kernel
  have hcarries : ¬ openedLedger.Skips ⟨0⟩ #[7] := by decide +kernel
  have hbefore : (openedLedger.file ⟨0⟩).bytes.size = 0 := by decide +kernel
  obtain ⟨hcreate, -, hwrite⟩ := space_exact (.inl openedStore_reached)
  refine ⟨hfree, ?_, ?_⟩
  · obtain ⟨answer, store', log, hrun, hdecides⟩ := hcreate 1 false
    rw [hfree] at hdecides
    rw [hrun]
    cases hdecides with
    | ok a hdone hshort => exact absurd hdone (by decide)
    | tooLong hnot hlong => exact absurd hlong (by decide)
    | exhausted hnot hshort => rfl
  · obtain ⟨length, answer, store', log, hlength, hrun, hdecides, hfull⟩ := hwrite ⟨0⟩ 511 #[7] hopen hcarries
    rw [openedStore_reached.length_eq hopen, hbefore] at hlength
    obtain rfl : 0 = length := Except.ok.inj (Except.ok.inj hlength)
    rw [hfree] at hdecides
    rw [hrun]
    cases hdecides with
    | ok a hdone hshort => rw [hfull a rfl]; rfl
    | tooLong hnot hlong => exact absurd hlong (by decide)
    | exhausted hnot hshort => exact absurd ⟨by decide, fun _ => by decide⟩ hnot

end InodeStore
