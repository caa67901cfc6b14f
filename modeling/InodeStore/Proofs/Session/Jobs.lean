import InodeStore.Proofs.Session.Archive
import InodeStore.Store.Writers
import Mathlib.Algebra.BigOperators.Group.Finset.Basic

/-!
# `Proofs.Session.Jobs` — what several writers are to do

A `Job` is a write that a party is to make through an open handle. What all jobs come to does not depend on
who makes them when: a file is in the end as long as it was or as the job that reaches farthest
(`Ledger.finalLength`), and a byte is then one that a job has for it (`Offered`), or the one that was there.

`Ledger.Grants` says what it takes: the handles are open and writing is not denied, every job has some
bytes and none reaches beyond the longest file, and there are sectors for all that is to be lengthened.
-/

namespace InodeStore

/-- A write that a party is to make. -/
structure Job where
  handle : Handle
  write : Store.Write

namespace Job

/-- The file that is written to. -/
def sector (j : Job) : SectorId := j.handle.sector

/-- Where the bytes end. -/
def last (j : Job) : Nat := j.write.offset + j.write.bytes.size

/-- The job has a byte for this place of a file. -/
def Covers (j : Job) (x : SectorId) (q : Nat) : Prop := j.sector = x ∧ j.write.offset ≤ q ∧ q < j.last

instance (j : Job) (x : SectorId) (q : Nat) : Decidable (j.Covers x q) :=
  inferInstanceAs (Decidable (_ ∧ _))

theorem covers_self {j : Job} {q : Nat} : j.Covers j.sector q ↔ j.write.offset ≤ q ∧ q < j.last :=
  and_iff_right rfl

/-- The byte that it has for a place. -/
def value (j : Job) (q : Nat) : UInt8 := j.write.bytes[q - j.write.offset]?.getD 0

end Job

/-- Do jobs one after the other. The answer is how much was written of each. -/
def writeJobs : List Job → Routine (List Nat)
  | [] => return []
  | j :: rest => do
    let written ← Inode.write j.handle j.write.offset j.write.bytes
    return written :: (← writeJobs rest)

/-- Writing to one file is doing jobs that all go through one handle. -/
theorem writeAll_eq (handle : Handle) (writes : List Store.Write) :
    Store.writeAll handle writes = writeJobs (writes.map fun w => ⟨handle, w⟩) := by
  induction writes with
  | nil => rfl
  | cons w rest ih =>
    rw [Store.writeAll, List.map_cons, writeJobs, ih]

/-- Some job has this byte for a place. -/
def Offered (jobs : List Job) (x : SectorId) (q : Nat) (b : UInt8) : Prop :=
  ∃ j ∈ jobs, j.Covers x q ∧ b = j.value q

/-- A place that one job covers alone. -/
theorem Offered.eq_value {jobs : List Job} {x : SectorId} {q : Nat} {b : UInt8} {j : Job}
    (h : Offered jobs x q b) (hone : jobs.filter (·.Covers x q) = [j]) : b = j.value q := by
  obtain ⟨j', hj', hcovers, rfl⟩ := h
  have hmem : j' ∈ jobs.filter (·.Covers x q) := by simpa [hj'] using hcovers
  rw [hone, List.mem_singleton] at hmem
  rw [hmem]

/-- A place that no job covers. -/
theorem Offered.not_of_nil {jobs : List Job} {x : SectorId} {q : Nat} {b : UInt8}
    (hnone : jobs.filter (·.Covers x q) = []) : ¬ Offered jobs x q b := by
  rintro ⟨j, hj, hcovers, -⟩
  have hmem : j ∈ jobs.filter (·.Covers x q) := by simpa [hj] using hcovers
  rw [hnone] at hmem
  cases hmem

/-! ## Lengths -/

/-- How long a file of `length` bytes is when all jobs are done. -/
def lengthAfter (length : Nat) (x : SectorId) : List Job → Nat
  | [] => length
  | j :: rest => if j.sector = x then max j.last (lengthAfter length x rest) else lengthAfter length x rest

section Lengths

variable {length k : Nat} {x : SectorId} {jobs : List Job}

theorem le_lengthAfter : length ≤ lengthAfter length x jobs := by
  induction jobs with
  | nil => exact Nat.le_refl _
  | cons j rest ih =>
    unfold lengthAfter
    split
    · exact Nat.le_trans ih (Nat.le_max_right _ _)
    · exact ih

theorem last_le_lengthAfter {j : Job} (hj : j ∈ jobs) (hx : j.sector = x) :
    j.last ≤ lengthAfter length x jobs := by
  induction jobs with
  | nil => cases hj
  | cons j' rest ih =>
    unfold lengthAfter
    rcases List.mem_cons.mp hj with rfl | hj
    · rw [if_pos hx]
      exact Nat.le_max_left _ _
    · split
      · exact Nat.le_trans (ih hj) (Nat.le_max_right _ _)
      · exact ih hj

/-- It is no longer than it has to be. -/
theorem lengthAfter_le (hlength : length ≤ k) (hjobs : ∀ j ∈ jobs, j.sector = x → j.last ≤ k) :
    lengthAfter length x jobs ≤ k := by
  induction jobs with
  | nil => exact hlength
  | cons j rest ih =>
    have hrest := ih fun j hj => hjobs j (List.mem_cons_of_mem _ hj)
    unfold lengthAfter
    split
    · next hx => exact Nat.max_le.mpr ⟨hjobs j List.mem_cons_self hx, hrest⟩
    · exact hrest

end Lengths

/-! ## Ledgers -/

/-- The files that jobs write to. -/
def filesOf (jobs : List Job) : Finset SectorId := (jobs.map Job.sector).toFinset

theorem mem_filesOf {jobs : List Job} {x : SectorId} : x ∈ filesOf jobs ↔ ∃ j ∈ jobs, j.sector = x := by
  simp [filesOf]

namespace Ledger

/-- How long a file is when all jobs are done. -/
def finalLength (ledger : Ledger) (jobs : List Job) (x : SectorId) : Nat :=
  lengthAfter (ledger.file ⟨x⟩).bytes.size x jobs

/-- The sectors that all jobs take together. -/
def growth (ledger : Ledger) (jobs : List Job) : Nat :=
  ∑ x ∈ filesOf jobs,
    (totalBlocks (ledger.finalLength jobs x) - totalBlocks (ledger.file ⟨x⟩).bytes.size)

/-- The jobs can be done, with so many sectors free. -/
structure Grants (ledger : Ledger) (jobs : List Job) (free : Nat) : Prop where
  isOpen : ∀ j ∈ jobs, ledger.HasOpen j.handle
  allowed : ∀ j ∈ jobs, (ledger.entry j.handle).denyCount = 0
  some : ∀ j ∈ jobs, 0 < j.write.bytes.size
  fits : ∀ j ∈ jobs, j.last ≤ maxFileSize
  room : ledger.growth jobs ≤ free

instance (ledger : Ledger) (jobs : List Job) (free : Nat) : Decidable (ledger.Grants jobs free) :=
  decidable_of_iff
    ((∀ j ∈ jobs, ledger.HasOpen j.handle) ∧ (∀ j ∈ jobs, (ledger.entry j.handle).denyCount = 0) ∧
      (∀ j ∈ jobs, 0 < j.write.bytes.size) ∧ (∀ j ∈ jobs, j.last ≤ maxFileSize) ∧
      ledger.growth jobs ≤ free)
    ⟨fun ⟨hopen, hallowed, hsome, hfits, hroom⟩ => ⟨hopen, hallowed, hsome, hfits, hroom⟩,
      fun h => ⟨h.isOpen, h.allowed, h.some, h.fits, h.room⟩⟩

end Ledger

end InodeStore
