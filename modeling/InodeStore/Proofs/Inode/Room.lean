import InodeStore.Proofs.FreeMap.Lowest
import InodeStore.Proofs.Inode.Making

/-!
# `Proofs.Inode.Room` — which claims are granted

A claim takes one sector at a time, but it is granted exactly if as many are free as it needs: for a file that is
lengthened those of the new blocks (`claim_decides`), and for a new one the descriptor's besides, which is taken
first (`claimNew_decides`). `Decides` says how such an operation ends, done or refused, and with which error.
-/

namespace InodeStore

open Inode

variable {length : Nat}

/-! ## Decisions -/

/-- How an operation that takes sectors ends: it is done exactly if `done` holds, and refused as too long
    exactly if `tooLong` does. What else is refused is so for want of sectors. -/
inductive Decides {α : Type} (done tooLong : Prop) : Except Error α → Prop
  | ok (a : α) (hdone : done) (hshort : ¬ tooLong) : Decides done tooLong (.ok a)
  | tooLong (hnot : ¬ done) (hlong : tooLong) : Decides done tooLong (.error .fileTooLarge)
  | exhausted (hnot : ¬ done) (hshort : ¬ tooLong) : Decides done tooLong (.error .allocationExhausted)

section Decides

variable {α β : Type} {answer : Except Error α} {done done' tooLong tooLong' : Prop}

/-- What is answered when it is done does not matter. -/
theorem Decides.map (h : Decides done tooLong answer) (f : α → β) : Decides done tooLong (answer.map f) := by
  cases h with
  | ok a hdone hshort => exact .ok (f a) hdone hshort
  | tooLong hnot hlong => exact .tooLong hnot hlong
  | exhausted hnot hshort => exact .exhausted hnot hshort

theorem Decides.congr (h : Decides done tooLong answer) (hdone : done ↔ done') (hlong : tooLong ↔ tooLong') :
    Decides done' tooLong' answer := propext hdone ▸ propext hlong ▸ h

end Decides

/-! ## Claims -/

theorem claim_ok {map : FreeMap} {old : Nat} {new : List SectorId} (h : claim map old length = .ok new) :
    length ≤ maxFileSize := by
  unfold claim at h
  by_cases hlong : maxFileSize < length
  · rw [if_pos hlong] at h
    cases h
  · exact Nat.le_of_not_lt hlong

/-- A file that is no longer needs no sectors, and one that is needs those of the new blocks. -/
theorem length_spotsBetween_le_iff {old free : Nat} (hlength : length ≤ maxFileSize) :
    (spotsBetween old length).length ≤ free ↔ (old < length → totalBlocks length - totalBlocks old ≤ free) := by
  by_cases hgrows : old < length
  · have hcount := length_spotsBetween (Nat.le_of_lt hgrows) hlength
    have hneeds : (spotsBetween old length).length = totalBlocks length - totalBlocks old := by omega
    rw [hneeds]
    exact ⟨fun h _ => h, fun h => h hgrows⟩
  · have hblocks := dataBlocks_mono (Nat.le_of_not_lt hgrows)
    have hnone : spotsBetween old length = [] := by
      rw [spotsBetween, Nat.sub_eq_zero_of_le hblocks]
      rfl
    rw [hnone]
    exact ⟨fun _ h => absurd h hgrows, fun _ => Nat.zero_le _⟩

/-- **A claim is granted** if the length is not above the maximum and so many sectors are free. -/
theorem claim_decides {map : FreeMap} (hmap : map.Lawful) (old length : Nat) :
    Decides (length ≤ maxFileSize ∧ (old < length → totalBlocks length - totalBlocks old ≤ map.freeCount))
      (maxFileSize < length) (claim map old length) := by
  unfold claim
  by_cases hlong : maxFileSize < length
  · rw [if_pos hlong]
    exact .tooLong (fun h => absurd h.1 (Nat.not_le.mpr hlong)) hlong
  · rw [if_neg hlong]
    have hlength := Nat.le_of_not_lt hlong
    have htaken := hmap.takeEach_eq (spotsBetween old length).length
    have hcount : (map.takeEach (spotsBetween old length).length).length =
        min (spotsBetween old length).length map.freeCount := by
      rw [htaken, List.length_take, hmap.length_freeSectors]
    rw [hcount]
    by_cases hfree : (spotsBetween old length).length ≤ map.freeCount
    · rw [if_pos (Nat.min_eq_left hfree)]
      exact .ok _ ⟨hlength, (length_spotsBetween_le_iff hlength).mp hfree⟩ hlong
    · rw [if_neg (by omega)]
      exact .exhausted (fun h => hfree ((length_spotsBetween_le_iff hlength).mpr h.2)) hlong

/-- An empty file needs no sectors. -/
theorem claim_decides_empty {map : FreeMap} (hmap : map.Lawful) (length : Nat) :
    Decides (length ≤ maxFileSize ∧ totalBlocks length ≤ map.freeCount) (maxFileSize < length)
      (claim map 0 length) := by
  have hempty : totalBlocks 0 = 0 := rfl
  refine (claim_decides hmap 0 length).congr ?_ Iff.rfl
  rw [hempty]
  rcases Nat.eq_zero_or_pos length with rfl | hpos
  · simp [hempty]
  · simp [hpos]

/-- A new file needs one sector more, and that first. -/
theorem claimNew_decides {map : FreeMap} (hmap : map.Lawful) (length : Nat) :
    Decides (length ≤ maxFileSize ∧ totalBlocks length + 1 ≤ map.freeCount)
      (maxFileSize < length ∧ 1 ≤ map.freeCount) (claimNew map length) := by
  unfold claimNew
  cases hnext : map.nextFree? with
  | none =>
    have hnone : map.freeCount = 0 := by
      by_contra hsome
      obtain ⟨s, hs⟩ := hmap.nextFree?_of_pos (Nat.pos_of_ne_zero hsome)
      cases hnext.symm.trans hs
    exact .exhausted (by omega) (by omega)
  | some x =>
    have hfree := hmap.nextFree?_free hnext
    have hcount := FreeMap.freeCount_assign hfree
    have hclaim := claim_decides_empty (hmap.assign (hmap.lt_sectors hfree) true) length
    exact (hclaim.map _).congr (by omega) (by omega)

end InodeStore
