import InodeStore.Proofs.FreeMap.Counting

/-!
# `Proofs.FreeMap.Lowest` — the lowest free sectors

A search for one sector finds the lowest one that is free (`scan_lowest`). So sectors that are taken one
after the other are the lowest free ones, in ascending order (`Lawful.takeEach_eq`).
-/

namespace InodeStore.FreeMap

variable {map : FreeMap} {first s : Nat}

/-- The numbers of the free sectors, in ascending order. -/
def freeNumbers (map : FreeMap) : List Nat := (List.range map.sectors).filter fun s => !map.taken s

/-- The free sectors, in ascending order. -/
def freeSectors (map : FreeMap) : List SectorId := map.freeNumbers.map UInt32.ofNat

theorem mem_freeNumbers : s ∈ map.freeNumbers ↔ s < map.sectors ∧ map.taken s = false := by
  simp [freeNumbers]

/-- A search for one sector passes over sectors that are taken only. -/
theorem scan_lowest {bit : Nat} (h : map.scan 1 bit 0 = some first) (hs : bit ≤ s) (hlow : s < first) :
    map.taken s = true := by
  have hlast := (scan_sound (Nat.zero_le _) Nat.one_pos (fun s hs hs' => by omega) h).1
  cases hfree : map.taken s with
  | true => rfl
  | false =>
    obtain ⟨p, hp, hfound⟩ := scan_finds_one hs (by omega) hfree
    rw [h] at hfound
    have := Option.some.inj hfound
    omega

/-- **What is found is the lowest free sector.** -/
theorem freeNumbers_of_firstFit? (h : map.firstFit? 1 = some first) :
    ∃ rest, map.freeNumbers = first :: rest := by
  obtain ⟨hle, hrun⟩ := scan_sound (Nat.zero_le _) Nat.one_pos (fun s hs hs' => by omega) h
  have hmem : first ∈ map.freeNumbers :=
    mem_freeNumbers.mpr ⟨hle, hrun first (Nat.le_refl _) (Nat.lt_succ_self _)⟩
  have hsorted : map.freeNumbers.Pairwise (· < ·) := List.pairwise_lt_range.filter _
  cases hlist : map.freeNumbers with
  | nil =>
    rw [hlist] at hmem
    cases hmem
  | cons low rest =>
    rw [hlist] at hmem hsorted
    rcases List.mem_cons.mp hmem with rfl | hlater
    · exact ⟨rest, rfl⟩
    · -- a lower one would have been passed over although it is free
      have hlow : low < first := (List.pairwise_cons.mp hsorted).1 first hlater
      have hfree := (mem_freeNumbers.mp (hlist ▸ List.mem_cons_self : low ∈ map.freeNumbers)).2
      rw [scan_lowest h (Nat.zero_le _) hlow] at hfree
      cases hfree

/-- Once the lowest free sector is taken the others are free. -/
theorem Lawful.freeNumbers_assign (h : map.Lawful) {rest : List Nat} (hfree : map.freeNumbers = first :: rest) :
    (map.assign first true).freeNumbers = rest := by
  have hfirst := mem_freeNumbers.mp (hfree ▸ List.mem_cons_self : first ∈ map.freeNumbers)
  have hothers : (map.assign first true).freeNumbers = map.freeNumbers.filter (· ≠ first) := by
    unfold freeNumbers
    rw [List.filter_filter]
    refine List.filter_congr fun s _ => ?_
    rw [taken_assign (h.group_lt hfirst.1)]
    by_cases hs : s = first
    · simp [hs]
    · simp [hs]
  have hsorted : map.freeNumbers.Pairwise (· < ·) := List.pairwise_lt_range.filter _
  rw [hothers, hfree]
  rw [hfree, List.pairwise_cons] at hsorted
  rw [List.filter_cons_of_neg (by simp), List.filter_eq_self]
  intro s hs
  simpa using Nat.ne_of_gt (hsorted.1 s hs)

/-- Where none is found none is free. -/
theorem Lawful.freeNumbers_of_none (h : map.Lawful) (hnone : map.firstFit? 1 = none) : map.freeNumbers = [] := by
  refine List.eq_nil_iff_forall_not_mem.mpr fun s hs => ?_
  have hfree := (mem_freeNumbers.mp hs).2
  rw [taken_of_scan_none h hnone (Nat.zero_le s)] at hfree
  cases hfree

/-- The sector that is taken next is the first of the free ones. -/
theorem Lawful.freeSectors_of_some (h : map.Lawful) {x : SectorId} (hx : map.nextFree? = some x) :
    map.freeSectors = x :: (map.assign x.toNat true).freeSectors := by
  obtain ⟨first, hfirst, rfl⟩ := Option.map_eq_some_iff.mp hx
  obtain ⟨rest, hfree⟩ := freeNumbers_of_firstFit? hfirst
  have hlt := (mem_freeNumbers.mp (hfree ▸ List.mem_cons_self : first ∈ map.freeNumbers)).1
  have haddress := h.addressable
  rw [UInt32.toNat_ofNat_of_lt' (by omega), freeSectors, freeSectors, h.freeNumbers_assign hfree, hfree,
    List.map_cons]

/-- **Sectors taken one after the other** are the lowest free ones. -/
theorem Lawful.takeEach_eq (h : map.Lawful) (count : Nat) : map.takeEach count = map.freeSectors.take count := by
  induction count generalizing map with
  | zero => rfl
  | succ count ih =>
    cases hnext : map.nextFree? with
    | none =>
      have hnone := h.freeNumbers_of_none (Option.map_eq_none_iff.mp hnext)
      rw [takeEach_of_none hnext, freeSectors, hnone]
      rfl
    | some x =>
      have hlt := h.lt_sectors (h.nextFree?_free hnext)
      rw [takeEach_of_some hnext, h.freeSectors_of_some hnext, List.take_succ_cons, ih (h.assign hlt true)]

/-- The free sectors are as many as the map counts. -/
theorem Lawful.length_freeSectors (h : map.Lawful) : map.freeSectors.length = map.freeCount := by
  have hset : map.free = map.freeNumbers.toFinset := by
    ext s
    rw [mem_free, List.mem_toFinset, mem_freeNumbers]
    refine and_congr_left fun hfree => ⟨fun _ => h.lt_sectors hfree, fun hs => ?_⟩
    have := h.group_lt hs
    omega
  have hnodup : map.freeNumbers.Nodup := List.nodup_range.filter _
  rw [freeSectors, List.length_map, freeCount_eq, hset, List.toFinset_card_of_nodup hnodup]

/-- They are free, and none of them is taken twice. -/
theorem Lawful.fresh_takeEach (h : map.Lawful) (count : Nat) : map.Fresh (map.takeEach count) := by
  have haddress := h.addressable
  have hnumber : ∀ s ∈ map.freeNumbers, (UInt32.ofNat s).toNat = s := by
    intro s hs
    have hlt := (mem_freeNumbers.mp hs).1
    exact UInt32.toNat_ofNat_of_lt' (by omega)
  rw [h.takeEach_eq]
  constructor
  · have hnodup : map.freeSectors.Nodup := by
      refine (List.nodup_range.filter _).map_on fun s hs t ht he => ?_
      rw [← hnumber s hs, ← hnumber t ht, he]
    exact hnodup.sublist (List.take_sublist _ _)
  · intro x hx
    obtain ⟨s, hs, rfl⟩ := List.mem_map.mp (List.mem_of_mem_take hx)
    rw [hnumber s hs]
    exact (mem_freeNumbers.mp hs).2

end InodeStore.FreeMap
