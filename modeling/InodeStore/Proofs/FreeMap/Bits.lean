import InodeStore.FreeMap
import Mathlib.Data.Nat.Bitwise

/-!
# `Proofs.FreeMap.Bits` — the free map as a set of sectors

A free map is known by its number of sectors and by which of them are `taken` (`ext_taken`), and what an
operation does is what it does to that set. `Lawful` are the maps that can come up: their bits are those
of the sectors, and every bit that stands for no sector is set.

## Contents
- **Groups.** Bits of a group that was changed, and groups that agree in every bit.
- **Maps.** `taken`, `Lawful`, `ext_taken`, `taken_assign`, `Lawful.assign`, `blank_lawful`.
- **Operations.** `mark_cases`, `mark_eq`, `isAllocated_eq`, `release_eq`, `release_ok`.
- **Sizes.** No operation changes how many groups there are.
-/

namespace InodeStore.FreeMap

/-! ## Groups -/

theorem hasBit_eq_testBit (group : UInt64) {i : Nat} (hi : i < 64) :
    hasBit group i = group.toNat.testBit i := by
  have hmod : i % 18446744073709551616 % 64 = i := by omega
  rw [hasBit, Nat.testBit_eq_decide_div_mod_eq, Bool.eq_iff_iff, bne_iff_ne, ne_eq,
    ← UInt64.toNat_inj, UInt64.toNat_and, UInt64.toNat_shiftRight, UInt64.toNat_ofNat',
    hmod, Nat.shiftRight_eq_div_pow]
  show ¬ (group.toNat / 2 ^ i &&& 1) = 0 ↔ _
  rw [Nat.and_one_is_mod, decide_eq_true_iff]
  omega

/-- Groups with the same bits are the same. -/
theorem ext_hasBit {group group' : UInt64} (h : ∀ i < 64, hasBit group i = hasBit group' i) :
    group = group' := by
  apply UInt64.toNat_inj.mp
  apply Nat.eq_of_testBit_eq
  intro i
  by_cases hi : i < 64
  · rw [← hasBit_eq_testBit group hi, ← hasBit_eq_testBit group' hi, h i hi]
  · have hbeyond : ∀ g : UInt64, g.toNat.testBit i = false := fun g =>
      Nat.testBit_lt_two_pow (Nat.lt_of_lt_of_le g.toNat_lt
        (Nat.pow_le_pow_right (by decide) (Nat.le_of_not_lt hi)))
    rw [hbeyond, hbeyond]

theorem toNat_one_shiftLeft {i : Nat} (hi : i < 64) :
    ((1 : UInt64) <<< UInt64.ofNat i).toNat = 2 ^ i := by
  have hmod : i % 18446744073709551616 % 64 = i := by omega
  rw [UInt64.toNat_shiftLeft, UInt64.toNat_ofNat', hmod, Nat.shiftLeft_eq]
  show 1 * 2 ^ i % 2 ^ 64 = 2 ^ i
  rw [Nat.one_mul, Nat.mod_eq_of_lt (Nat.pow_lt_pow_right (by decide) hi)]

theorem hasBit_or (group group' : UInt64) {i : Nat} (hi : i < 64) :
    hasBit (group ||| group') i = (hasBit group i || hasBit group' i) := by
  rw [hasBit_eq_testBit _ hi, hasBit_eq_testBit _ hi, hasBit_eq_testBit _ hi, UInt64.toNat_or,
    Nat.testBit_or]

theorem hasBit_setBit (group : UInt64) {i j : Nat} (hi : i < 64) (hj : j < 64) :
    hasBit (setBit group j) i = (decide (i = j) || hasBit group i) := by
  rw [setBit, hasBit_or _ _ hi, hasBit_eq_testBit ((1 : UInt64) <<< UInt64.ofNat j) hi,
    toNat_one_shiftLeft hj, Nat.testBit_two_pow, Bool.or_comm]
  congr 1
  exact decide_eq_decide.mpr eq_comm

theorem hasBit_clearBit (group : UInt64) {i j : Nat} (hi : i < 64) (hj : j < 64) :
    hasBit (clearBit group j) i = (!decide (i = j) && hasBit group i) := by
  have hnot : UInt64.size - 1 - 2 ^ j = 2 ^ 64 - (2 ^ j + 1) := by
    show 2 ^ 64 - 1 - 2 ^ j = _
    omega
  rw [hasBit_eq_testBit _ hi, hasBit_eq_testBit _ hi, clearBit, UInt64.toNat_and, Nat.testBit_and,
    UInt64.toNat_not, toNat_one_shiftLeft hj, hnot,
    Nat.testBit_two_pow_sub_succ (Nat.pow_lt_pow_right (by decide) hj), Nat.testBit_two_pow,
    decide_eq_true hi, Bool.true_and, Bool.and_comm]
  congr 2
  exact decide_eq_decide.mpr eq_comm

/-- Every bit of the full group is set, and from `k` on they are after a shift by `k`. -/
theorem hasBit_fullGroup_shiftLeft {k i : Nat} (hk : k < 64) (hi : i < 64) :
    hasBit (fullGroup <<< UInt64.ofNat k) i = decide (k ≤ i) := by
  have hmod : k % 18446744073709551616 % 64 = k := by omega
  rw [hasBit_eq_testBit _ hi, UInt64.toNat_shiftLeft, UInt64.toNat_ofNat', hmod,
    Nat.testBit_mod_two_pow, Nat.testBit_shiftLeft, decide_eq_true hi, Bool.true_and]
  show (decide (k ≤ i) && (2 ^ 64 - 1).testBit (i - k)) = _
  rw [Nat.testBit_two_pow_sub_one, decide_eq_true (by omega : i - k < 64), Bool.and_true]

/-! ## Maps -/

/-- Is a sector taken? Those beyond the last group count as taken. -/
def taken (map : FreeMap) (sector : Nat) : Bool := (map.bit? sector).getD true

/-- The maps that can come up. -/
structure Lawful (map : FreeMap) : Prop where
  /-- There are as many groups as the sectors fill or begin to fill. -/
  size : map.groups.size = (map.sectors + 63) / 64
  /-- What stands for no sector is taken. -/
  sealed : ∀ s, map.sectors ≤ s → map.taken s = true
  /-- Every sector has a number. -/
  addressable : map.sectors ≤ UInt32.size

theorem bit?_eq {map : FreeMap} {s : Nat} (hs : s / 64 < map.groups.size) :
    map.bit? s = some (hasBit map.groups[s / 64] (s % 64)) := by
  rw [bit?, Array.getElem?_eq_getElem hs]
  rfl

theorem taken_eq {map : FreeMap} {s : Nat} (hs : s / 64 < map.groups.size) :
    map.taken s = hasBit map.groups[s / 64] (s % 64) := by
  rw [taken, bit?_eq hs]
  rfl

theorem bit?_eq_taken {map : FreeMap} {s : Nat} (hs : s < 64 * map.groups.size) :
    map.bit? s = some (map.taken s) := by
  have hgroup : s / 64 < map.groups.size := by omega
  rw [bit?_eq hgroup, taken_eq hgroup]

theorem lt_of_bit? {map : FreeMap} {s : Nat} {b : Bool} (h : map.bit? s = some b) : s < 64 * map.groups.size := by
  by_contra hge
  rw [bit?, Array.getElem?_eq_none (by omega)] at h
  cases h

theorem isAllocated_iff {map : FreeMap} {s : SectorId} {b : Bool} :
    map.isAllocated s = .ok b ↔ map.bit? s.toNat = some b := by
  unfold isAllocated
  cases map.bit? s.toNat with
  | none => simp
  | some taken => simp

theorem Lawful.group_lt {map : FreeMap} (h : map.Lawful) {s : Nat} (hs : s < map.sectors) :
    s / 64 < map.groups.size := by
  rw [h.size]
  omega

theorem Lawful.bit?_eq_taken {map : FreeMap} (h : map.Lawful) {s : Nat} (hs : s < map.sectors) :
    map.bit? s = some (map.taken s) := by
  rw [bit?_eq (h.group_lt hs), taken_eq (h.group_lt hs)]

/-- A sector that is not taken is one of the map's. -/
theorem Lawful.lt_sectors {map : FreeMap} (h : map.Lawful) {s : Nat} (hs : map.taken s = false) :
    s < map.sectors := by
  by_contra hge
  rw [h.sealed s (Nat.le_of_not_lt hge)] at hs
  cases hs

/-- Maps of as many groups with the same sectors taken are the same. -/
theorem ext_taken {map map' : FreeMap} (hsectors : map.sectors = map'.sectors)
    (hsize : map.groups.size = map'.groups.size) (htaken : ∀ s, map.taken s = map'.taken s) :
    map = map' := by
  obtain ⟨sectors, groups⟩ := map
  obtain ⟨sectors', groups'⟩ := map'
  obtain rfl : sectors = sectors' := hsectors
  congr 1
  refine Array.ext hsize fun g hg hg' => ext_hasBit ?_
  intro i hi
  have hdiv : (64 * g + i) / 64 = g := by omega
  have hmod : (64 * g + i) % 64 = i := by omega
  have := htaken (64 * g + i)
  rw [taken_eq (by simpa only [hdiv] using hg), taken_eq (by simpa only [hdiv] using hg')] at this
  simpa only [hdiv, hmod] using this

theorem assign_size (map : FreeMap) (s : Nat) (b : Bool) :
    (map.assign s b).groups.size = map.groups.size := Array.size_modify

/-- Setting or clearing the bit of a sector changes whether it is taken, and nothing else. -/
theorem taken_assign {map : FreeMap} {s : Nat} (hs : s / 64 < map.groups.size) (b : Bool) (t : Nat) :
    (map.assign s b).taken t = if t = s then b else map.taken t := by
  have hi : t % 64 < 64 := Nat.mod_lt _ (by decide)
  have hj : s % 64 < 64 := Nat.mod_lt _ (by decide)
  unfold taken bit? assign
  rw [Array.getElem?_modify]
  by_cases hgroup : s / 64 = t / 64
  · have hbit : decide (t % 64 = s % 64) = decide (t = s) := decide_eq_decide.mpr (by omega)
    rw [if_pos hgroup, Array.getElem?_eq_getElem (hgroup ▸ hs)]
    simp only [Option.map_some, Option.getD_some]
    cases b with
    | true =>
      rw [if_pos rfl, hasBit_setBit _ hi hj, hbit]
      by_cases h : t = s
      · simp [h]
      · simp [h]
    | false =>
      rw [if_neg Bool.false_ne_true, hasBit_clearBit _ hi hj, hbit]
      by_cases h : t = s
      · simp [h]
      · simp [h]
  · have hne : t ≠ s := by
      rintro rfl
      exact hgroup rfl
    rw [if_neg hgroup, if_neg hne]

/-- A change of one bit leaves the others. -/
theorem bit?_assign_of_ne {map : FreeMap} {s t : Nat} {b : Bool} (hs : s < 64 * map.groups.size) (ht : t ≠ s) :
    (map.assign s b).bit? t = map.bit? t := by
  have hsize := map.assign_size s b
  by_cases hlt : t < 64 * map.groups.size
  · rw [bit?_eq_taken hlt, bit?_eq_taken (by rw [hsize]; exact hlt), taken_assign (by omega), if_neg ht]
  · rw [bit?, bit?, Array.getElem?_eq_none (by omega), Array.getElem?_eq_none (by omega)]

/-- A bit was cleared. -/
theorem isAllocated_assign {map : FreeMap} {s : SectorId} (hs : map.isAllocated s = .ok true) (t : SectorId) :
    (map.assign s.toNat false).isAllocated t = if t = s then .ok false else map.isAllocated t := by
  have hin := lt_of_bit? (isAllocated_iff.mp hs)
  by_cases ht : t = s
  · subst ht
    have hin' : t.toNat < 64 * (map.assign t.toNat false).groups.size := by
      rw [assign_size]
      exact hin
    rw [if_pos rfl, isAllocated, bit?_eq_taken hin', taken_assign (by omega), if_pos rfl]
  · have hne : t.toNat ≠ s.toNat := fun he => ht (UInt32.toNat_inj.mp he)
    rw [if_neg ht, isAllocated, isAllocated, bit?_assign_of_ne hin hne]

theorem Lawful.assign {map : FreeMap} (h : map.Lawful) {s : Nat} (hs : s < map.sectors) (b : Bool) :
    (map.assign s b).Lawful where
  size := (assign_size map s b).trans h.size
  sealed t ht := by
    have ht : map.sectors ≤ t := ht
    rw [taken_assign (h.group_lt hs), if_neg (by omega)]
    exact h.sealed t ht
  addressable := h.addressable

/-- Sealing takes what stands for no sector, and nothing else. -/
theorem taken_sealUnused {n : Nat} {groups : Array UInt64} (hsize : groups.size = (n + 63) / 64)
    (s : Nat) :
    (FreeMap.mk n (sealUnused n groups)).taken s = (decide (n ≤ s) || (FreeMap.mk n groups).taken s) := by
  have hi : s % 64 < 64 := Nat.mod_lt _ (by decide)
  unfold taken bit? sealUnused
  by_cases hfull : n % 64 = 0
  · rw [if_pos hfull]
    by_cases hs : n ≤ s
    · have hbeyond : groups[s / 64]? = none := Array.getElem?_eq_none (by omega)
      simp [hbeyond]
    · simp [hs]
  · rw [if_neg hfull]
    show ((groups.modify _ _)[s / 64]?.map _).getD true = (_ || (groups[s / 64]?.map _).getD true)
    rw [Array.getElem?_modify]
    by_cases hs : s / 64 < groups.size
    · rw [Array.getElem?_eq_getElem hs]
      by_cases hlast : groups.size - 1 = s / 64
      · rw [if_pos hlast]
        simp only [Option.map_some, Option.getD_some]
        rw [hasBit_or _ _ hi, hasBit_fullGroup_shiftLeft (Nat.mod_lt _ (by decide)) hi, Bool.or_comm]
        congr 1
        exact decide_eq_decide.mpr (by omega)
      · have hlt : ¬ n ≤ s := by omega
        simp [hlast, hlt]
    · rw [Array.getElem?_eq_none (Nat.le_of_not_lt hs)]
      simp

/-- In the map of free sectors nothing is taken but what stands for no sector. -/
theorem taken_blank (n s : Nat) : (blank n).taken s = decide (n ≤ s) := by
  rw [blank, taken_sealUnused Array.size_replicate]
  by_cases hs : n ≤ s
  · simp [hs]
  · have hgroup : s / 64 < (n + 63) / 64 := by omega
    have hzero : hasBit 0 (s % 64) = false := by
      rw [hasBit_eq_testBit _ (Nat.mod_lt _ (by decide))]
      exact Nat.zero_testBit _
    simp [hs, taken, bit?, hgroup, hzero]

/-- The map of free sectors is lawful. -/
theorem blank_lawful {n : Nat} (hn : n ≤ UInt32.size) : (blank n).Lawful where
  size := by
    unfold blank sealUnused
    split <;> simp
  sealed s hs := by
    rw [taken_blank]
    exact decide_eq_true hs
  addressable := hn

/-! ## Operations -/

section Operations

variable {map : FreeMap} {s : SectorId}

/-- A sector is reserved if its bit is clear, and else refused. -/
theorem mark_cases (map : FreeMap) (s : SectorId) :
    map.bit? s.toNat = some false ∧ mark s map = ⟨.ok (), map.assign s.toNat true, []⟩ ∨
      ∃ e, (map.bit? s.toNat = some true ∧ e = .sectorInUse s ∨ map.bit? s.toNat = none ∧ e = .indexOutOfBounds) ∧
        (mark s map).result = .error e := by
  unfold mark
  cases hbit : map.bit? s.toNat with
  | none => exact .inr ⟨_, .inr ⟨rfl, rfl⟩, rfl⟩
  | some taken =>
    cases taken with
    | true => exact .inr ⟨_, .inl ⟨rfl, rfl⟩, rfl⟩
    | false => exact .inl ⟨rfl, rfl⟩

/-- A sector that is not taken can be reserved. -/
theorem Lawful.mark_eq (h : map.Lawful) (hs : map.taken s.toNat = false) :
    mark s map = ⟨.ok (), map.assign s.toNat true, []⟩ := by
  unfold mark
  rw [h.bit?_eq_taken (h.lt_sectors hs), hs]

theorem Lawful.isAllocated_eq (h : map.Lawful) (hs : s.toNat < map.sectors) :
    map.isAllocated s = .ok (map.taken s.toNat) := by
  unfold isAllocated
  rw [h.bit?_eq_taken hs]

/-- A sector that is taken can be given back. -/
theorem Lawful.release_eq (h : map.Lawful) (hs : s.toNat < map.sectors)
    (htaken : map.taken s.toNat = true) :
    release s 1 map = ⟨.ok (), map.assign s.toNat false, []⟩ := by
  have hsum : s.toNat + 1 < UInt64.size := by
    have := s.toNat_lt
    show _ < 2 ^ 64
    omega
  unfold release
  rw [if_pos hsum]
  simp only [releaseRun, h.bit?_eq_taken hs, htaken]

/-- A sector that has a bit and is taken is allocated. -/
theorem isAllocated_of_taken (hs : s.toNat < 64 * map.groups.size) (htaken : map.taken s.toNat = true) :
    map.isAllocated s = .ok true := by
  rw [isAllocated_iff, bit?_eq_taken hs, htaken]

/-- A sector that can be given back is taken, and its bit is cleared. -/
theorem release_ok (h : (release s 1 map).result = .ok ()) :
    map.bit? s.toNat = some true ∧ (release s 1 map).state = map.assign s.toNat false := by
  unfold release at h ⊢
  split at h
  · next hsum =>
    rw [if_pos hsum]
    unfold releaseRun at h ⊢
    cases hbit : map.bit? s.toNat with
    | none =>
      rw [hbit] at h
      cases h
    | some taken =>
      rw [hbit] at h
      cases taken with
      | false => cases h
      | true => exact ⟨rfl, rfl⟩
  · cases h

/-- A sector that was given back is not allocated. -/
theorem not_allocated_of_release (h : (release s 1 map).result = .ok ()) :
    (release s 1 map).state.isAllocated s = .ok false := by
  obtain ⟨hbit, hstate⟩ := release_ok h
  rw [hstate, isAllocated_assign (isAllocated_iff.mpr hbit), if_pos rfl]

end Operations

/-! ## Sizes -/

theorem assignRun_size (map : FreeMap) (first : Nat) (b : Bool) (count : Nat) :
    (map.assignRun first b count).groups.size = map.groups.size := by
  induction count generalizing map first with
  | zero => rfl
  | succ count ih => exact (ih (map.assign first b) (first + 1)).trans (map.assign_size first b)

theorem releaseRun_size (map : FreeMap) (first count : Nat) :
    (releaseRun first count map).state.groups.size = map.groups.size := by
  induction count generalizing map first with
  | zero => rfl
  | succ count ih =>
    unfold releaseRun
    cases map.bit? first with
    | none => rfl
    | some taken =>
      cases taken with
      | false => rfl
      | true => exact (ih (map.assign first false) (first + 1)).trans (map.assign_size first false)

theorem sealUnused_size (sectors : Nat) (groups : Array UInt64) :
    (sealUnused sectors groups).size = groups.size := by
  unfold sealUnused
  split
  · rfl
  · exact Array.size_modify

theorem blank_size (sectors : Nat) : (blank sectors).groups.size = (sectors + 63) / 64 :=
  (sealUnused_size _ _).trans Array.size_replicate

theorem load_size (map : FreeMap) (bytes : Bytes) :
    (load bytes map).state.groups.size = map.groups.size := by
  unfold load
  split
  · exact (sealUnused_size _ _).trans Array.size_mapIdx
  · rfl

end InodeStore.FreeMap
