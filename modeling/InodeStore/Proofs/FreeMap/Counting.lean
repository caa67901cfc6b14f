import InodeStore.Proofs.FreeMap.FirstFit
import Mathlib.Algebra.Group.Embedding
import Mathlib.Data.Finset.Card

/-!
# `Proofs.FreeMap.Counting` — how many sectors are free

`freeCount` counts the clear bits of a map group by group, which is the number of sectors that are not
taken (`freeCount_eq`). Taking one makes it less by one (`freeCount_assign`), and as long as it is not zero
a search finds a sector (`Lawful.nextFree?_of_pos`).
-/

namespace InodeStore.FreeMap

variable {map : FreeMap}

/-! ## Counts -/

/-- The sectors that are not taken. -/
def free (map : FreeMap) : Finset Nat := (Finset.range (64 * map.groups.size)).filter (map.taken · = false)

theorem mem_free {s : Nat} : s ∈ map.free ↔ s < 64 * map.groups.size ∧ map.taken s = false := by
  simp [free]

/-- A sector that has no bit counts as taken. -/
theorem lt_of_free {s : Nat} (hs : map.taken s = false) : s / 64 < map.groups.size := by
  by_contra hge
  rw [taken, bit?, Array.getElem?_eq_none (Nat.le_of_not_lt hge)] at hs
  cases hs

/-- The clear bits of a group. -/
theorem clearCount_eq (group : UInt64) :
    clearCount group = ((Finset.range 64).filter (hasBit group · = false)).card := by
  have hcount : (List.range 64).countP (fun i => !hasBit group i) =
      ((Finset.range 64).filter (hasBit group · = false)).card := by
    have hset : (Finset.range 64).filter (hasBit group · = false) =
        ((List.range 64).filter fun i => !hasBit group i).toFinset := by
      ext i
      simp
    rw [hset, List.toFinset_card_of_nodup (List.nodup_range.filter _), List.countP_eq_length_filter]
  unfold clearCount
  split
  · next hfull =>
    subst hfull
    symm
    apply Finset.card_eq_zero.mpr
    apply Finset.filter_eq_empty_iff.mpr
    intro i hi
    have hset := hasBit_fullGroup_shiftLeft (by decide : 0 < 64) (Finset.mem_range.mp hi)
    have hbit : hasBit fullGroup i = true := hset.trans (decide_eq_true (Nat.zero_le i))
    simp [hbit]
  · exact hcount

/-- **The count of a map** is that of its free sectors. -/
theorem freeCount_eq (map : FreeMap) : map.freeCount = map.free.card := by
  -- after `k` groups the sectors of these have been counted
  let below (k : Nat) : Finset Nat := (Finset.range (64 * k)).filter (map.taken · = false)
  refine Array.foldl_induction (fun k count => count = (below k).card) rfl ?_
  intro g count hcount
  have hsplit : below (g.val + 1) = below g.val ∪
      ((Finset.range 64).filter (hasBit map.groups[g] · = false)).map (addLeftEmbedding (64 * g.val)) := by
    ext s
    have hgroup : ∀ i < 64, map.taken (64 * g.val + i) = hasBit map.groups[g] i := by
      intro i hi
      have hdiv : (64 * g.val + i) / 64 = g.val := by omega
      have hmod : (64 * g.val + i) % 64 = i := by omega
      rw [taken_eq (by rw [hdiv]; exact g.isLt)]
      simp only [hdiv, hmod, Fin.getElem_fin]
    simp only [below, Finset.mem_union, Finset.mem_filter, Finset.mem_range, Finset.mem_map,
      addLeftEmbedding_apply]
    constructor
    · rintro ⟨hlt, hfree⟩
      by_cases hs : s < 64 * g.val
      · exact .inl ⟨hs, hfree⟩
      · refine .inr ⟨s - 64 * g.val, ⟨by omega, ?_⟩, by omega⟩
        rw [← hgroup _ (by omega), Nat.add_sub_cancel' (by omega), hfree]
    · rintro (⟨hlt, hfree⟩ | ⟨i, ⟨hi, hfree⟩, rfl⟩)
      · exact ⟨by omega, hfree⟩
      · exact ⟨by omega, (hgroup i hi).trans hfree⟩
  have hdisjoint : Disjoint (below g.val)
      (((Finset.range 64).filter (hasBit map.groups[g] · = false)).map
        (addLeftEmbedding (64 * g.val))) := by
    rw [Finset.disjoint_left]
    intro s hs hs'
    obtain ⟨i, -, rfl⟩ := Finset.mem_map.mp hs'
    have hlt := Finset.mem_range.mp (Finset.mem_filter.mp hs).1
    rw [addLeftEmbedding_apply] at hlt
    omega
  rw [hsplit, Finset.card_union_of_disjoint hdisjoint, Finset.card_map, hcount, clearCount_eq]

/-- A sector that is taken is one free sector less. -/
theorem freeCount_assign {s : Nat} (hs : map.taken s = false) :
    (map.assign s true).freeCount + 1 = map.freeCount := by
  have hgroup := lt_of_free hs
  have herase : (map.assign s true).free = map.free.erase s := by
    ext t
    rw [Finset.mem_erase, mem_free, mem_free, assign_size, taken_assign hgroup]
    by_cases ht : t = s
    · simp [ht]
    · simp [ht]
  rw [freeCount_eq, freeCount_eq, herase]
  apply Finset.card_erase_add_one
  exact mem_free.mpr ⟨by omega, hs⟩

/-- So are any number of them. -/
theorem Fresh.freeCount_takeAll {l : List SectorId} (hl : map.Fresh l) :
    (map.takeAll l).freeCount + l.length = map.freeCount := by
  induction l generalizing map with
  | nil => rfl
  | cons s rest ih =>
    have hs := hl.free s List.mem_cons_self
    obtain ⟨hfirst, hnodup⟩ := List.nodup_cons.mp hl.nodup
    have hrest : (map.assign s.toNat true).Fresh rest := by
      refine ⟨hnodup, fun t ht => ?_⟩
      have hne : t.toNat ≠ s.toNat := fun he => hfirst (UInt32.toNat_inj.mp he ▸ ht)
      rw [taken_assign (lt_of_free hs), if_neg hne]
      exact hl.free t (List.mem_cons_of_mem _ ht)
    have htaken := ih hrest
    have hcount := freeCount_assign hs
    show ((map.assign s.toNat true).takeAll rest).freeCount + (rest.length + 1) = map.freeCount
    omega

/-! ## The search -/

/-- A search for one sector that finds none passes over sectors that are taken only. -/
theorem taken_of_scan_none {bit : Nat} (hmap : map.Lawful) (h : map.scan 1 bit 0 = none) {s : Nat}
    (hs : bit ≤ s) : map.taken s = true := by
  cases hfree : map.taken s with
  | true => rfl
  | false =>
    obtain ⟨p, -, hfound⟩ := scan_finds_one hs (hmap.lt_sectors hfree) hfree
    rw [h] at hfound
    cases hfound

/-- **Where a sector is free one is found.** -/
theorem Lawful.nextFree?_of_pos (h : map.Lawful) (hpos : 0 < map.freeCount) :
    ∃ s, map.nextFree? = some s := by
  rw [freeCount_eq] at hpos
  obtain ⟨s, hs⟩ := Finset.card_pos.mp hpos
  have hfree := (mem_free.mp hs).2
  cases hnext : map.nextFree? with
  | some s => exact ⟨s, rfl⟩
  | none =>
    have htaken := taken_of_scan_none h (Option.map_eq_none_iff.mp hnext) (Nat.zero_le s)
    rw [hfree] at htaken
    cases htaken

end InodeStore.FreeMap
