import InodeStore.Proofs.FreeMap.Bits

/-!
# `Proofs.FreeMap.FirstFit` — taking sectors and giving them back

What a search finds is free (`scan_sound`), so that a sector that was allocated was not taken before
(`Lawful.nextFree?_free`), and where there is something to find, a search finds the lowest (`scan_finds`).
Sectors taken one after the other and given back leave the map as it was, bit for bit (`giveAll_takeAll`).
-/

namespace InodeStore.FreeMap

variable {map : FreeMap}

/-! ## The search -/

/-- The bit that a search looks at. -/
theorem taken_eq_getD (map : FreeMap) (s : Nat) :
    map.taken s = hasBit (map.groups[s / 64]?.getD fullGroup) (s % 64) := by
  unfold taken bit?
  cases map.groups[s / 64]? with
  | some group => rfl
  | none =>
    have hfull := hasBit_fullGroup_shiftLeft (by decide : 0 < 64) (Nat.mod_lt s (by decide : 0 < 64))
    exact (hfull.trans (decide_eq_true (Nat.zero_le _))).symm

/-- All sectors of a full group are taken. -/
theorem taken_of_full {bit s : Nat} (hfull : map.groups[bit / 64]?.getD fullGroup = fullGroup)
    (hdiv : s / 64 = bit / 64) : map.taken s = true := by
  have hset := hasBit_fullGroup_shiftLeft (by decide : 0 < 64) (Nat.mod_lt s (by decide : 0 < 64))
  rw [taken_eq_getD, hdiv, hfull]
  exact hset.trans (decide_eq_true (Nat.zero_le _))

/-- Sectors from `first` up to `last`, `last` left out, are free. -/
def FreeRun (map : FreeMap) (first last : Nat) : Prop :=
  ∀ s, first ≤ s → s < last → map.taken s = false

/-- What a search finds is a run of free sectors of the map. -/
theorem scan_sound {count bit run first : Nat} (hrun : run ≤ bit) (hcount : run < count)
    (hfree : map.FreeRun (bit - run) bit) (h : map.scan count bit run = some first) :
    first + count ≤ map.sectors ∧ map.FreeRun first (first + count) := by
  -- the run in hand, from `bit - run` up to `bit`, is free at every step
  induction bit, run using scan.induct map count with
  | case1 bit run hbit group hfull ih =>
    rw [scan, if_pos hbit, if_pos hfull] at h
    exact ih (Nat.zero_le _) (by omega) (fun s hs hs' => by omega) h
  | case2 bit run hbit group hfull htaken ih =>
    rw [scan, if_pos hbit, if_neg hfull, if_pos htaken] at h
    exact ih (Nat.zero_le _) (by omega) (fun s hs hs' => by omega) h
  | case3 bit run hbit group hfull htaken hlast =>
    rw [scan, if_pos hbit, if_neg hfull, if_neg htaken, if_pos hlast] at h
    obtain rfl : bit + 1 - count = first := Option.some.inj h
    refine ⟨by omega, ?_⟩
    intro s hs hs'
    by_cases he : s = bit
    · rw [he, taken_eq_getD]
      exact Bool.eq_false_iff.mpr htaken
    · exact hfree s (by omega) (by omega)
  | case4 bit run hbit group hfull htaken hlast ih =>
    rw [scan, if_pos hbit, if_neg hfull, if_neg htaken, if_neg hlast] at h
    refine ih (by omega) (by omega) ?_ h
    intro s hs hs'
    by_cases he : s = bit
    · rw [he, taken_eq_getD]
      exact Bool.eq_false_iff.mpr htaken
    · exact hfree s (by omega) (by omega)
  | case5 bit run hbit =>
    rw [scan, if_neg hbit] at h
    cases h

/-- **Where there is a run of free sectors**, a search finds one, and none that is higher. -/
theorem scan_finds {count bit run first : Nat} (hrun : run ≤ bit) (hcount : run < count)
    (hstart : bit - run ≤ first) (hlast : first + count ≤ map.sectors)
    (hfree : map.FreeRun first (first + count)) : ∃ p ≤ first, map.scan count bit run = some p := by
  -- the free run does not begin before the one in hand, so it begins after a bit that is set
  induction bit, run using scan.induct map count with
  | case1 bit run hbit group hfull ih =>
    rw [scan, if_pos hbit, if_pos hfull]
    have hskip : bit + 64 ≤ first := by
      by_contra hlt
      have hset := taken_of_full (s := max bit first) hfull.2 (by omega)
      rw [hfree _ (Nat.le_max_right _ _) (by omega)] at hset
      cases hset
    exact ih (Nat.zero_le _) (by omega) hskip
  | case2 bit run hbit group hfull htaken ih =>
    rw [scan, if_pos hbit, if_neg hfull, if_pos htaken]
    have hskip : bit < first := by
      by_contra hle
      have hset : map.taken bit = true := (taken_eq_getD map bit).trans htaken
      rw [hfree bit (Nat.le_of_not_lt hle) (by omega)] at hset
      cases hset
    exact ih (Nat.zero_le _) (by omega) hskip
  | case3 bit run hbit group hfull htaken hfound =>
    rw [scan, if_pos hbit, if_neg hfull, if_neg htaken, if_pos hfound]
    exact ⟨_, by omega, rfl⟩
  | case4 bit run hbit group hfull htaken hfound ih =>
    rw [scan, if_pos hbit, if_neg hfull, if_neg htaken, if_neg hfound]
    exact ih (by omega) (by omega) (by omega)
  | case5 bit run hbit => omega

/-- A search for one sector that begins at or before a free one. -/
theorem scan_finds_one {bit s : Nat} (hbit : bit ≤ s) (hs : s < map.sectors) (hfree : map.taken s = false) :
    ∃ p ≤ s, map.scan 1 bit 0 = some p := by
  refine scan_finds (Nat.zero_le _) Nat.one_pos hbit hs fun t ht ht' => ?_
  obtain rfl : t = s := by omega
  exact hfree

/-! ## One sector -/

/-- The sector that is taken next. -/
def nextFree? (map : FreeMap) : Option SectorId := (map.firstFit? 1).map UInt32.ofNat

/-- The sector that is taken next is free. -/
theorem Lawful.nextFree?_free (h : map.Lawful) {s : SectorId} (hs : map.nextFree? = some s) :
    map.taken s.toNat = false := by
  obtain ⟨first, hfirst, rfl⟩ := Option.map_eq_some_iff.mp hs
  obtain ⟨hle, hrun⟩ := scan_sound (Nat.zero_le _) (by decide) (fun s hs hs' => by omega) hfirst
  have haddress := h.addressable
  rw [UInt32.toNat_ofNat_of_lt' (by omega)]
  exact hrun first (Nat.le_refl _) (by omega)

theorem Lawful.allocate_of_nextFree? (h : map.Lawful) {s : SectorId} (hs : map.nextFree? = some s) :
    allocate 1 map = ⟨.ok (.ok s), map.assign s.toNat true, []⟩ := by
  obtain ⟨first, hfirst, rfl⟩ := Option.map_eq_some_iff.mp hs
  have hle := (scan_sound (Nat.zero_le _) (by decide) (fun s hs hs' => by omega) hfirst).1
  have haddress := h.addressable
  unfold allocate
  simp only [Nat.one_ne_zero, if_false, hfirst]
  rw [UInt32.toNat_ofNat_of_lt' (by omega)]
  rfl

theorem allocate_of_exhausted (hs : map.nextFree? = none) :
    allocate 1 map = ⟨.ok (.error .allocationExhausted), map, [.mapExhausted 1]⟩ := by
  unfold allocate
  simp only [Nat.one_ne_zero, if_false, Option.map_eq_none_iff.mp hs]

/-! ## Several sectors -/

/-- The sectors that are taken next one after the other, `count` of them or as many as there are. -/
def takeEach (map : FreeMap) : (count : Nat) → List SectorId
  | 0 => []
  | count + 1 =>
    match map.nextFree? with
    | none => []
    | some s => s :: takeEach (map.assign s.toNat true) count

theorem takeEach_of_some {s : SectorId} (hs : map.nextFree? = some s) (count : Nat) :
    map.takeEach (count + 1) = s :: (map.assign s.toNat true).takeEach count := by
  rw [takeEach, hs]

theorem takeEach_of_none (hs : map.nextFree? = none) (count : Nat) : map.takeEach count = [] := by
  cases count with
  | zero => rfl
  | succ count => rw [takeEach, hs]

/-- Take sectors. -/
def takeAll (map : FreeMap) (l : List SectorId) : FreeMap :=
  l.foldl (fun map s => map.assign s.toNat true) map

/-- Give sectors back. -/
def giveAll (map : FreeMap) (l : List SectorId) : FreeMap :=
  l.foldl (fun map s => map.assign s.toNat false) map

/-- The sectors are free, and none is listed twice. -/
structure Fresh (map : FreeMap) (l : List SectorId) : Prop where
  nodup : l.Nodup
  free : ∀ s ∈ l, map.taken s.toNat = false

/-- Setting the bits of sectors of the map one after the other. -/
theorem foldl_assign (h : map.Lawful) (b : Bool) {l : List SectorId}
    (hl : ∀ s ∈ l, s.toNat < map.sectors) :
    let map' := l.foldl (fun map s => map.assign s.toNat b) map
    map'.Lawful ∧ map'.sectors = map.sectors ∧ map'.groups.size = map.groups.size ∧
      ∀ t : SectorId, map'.taken t.toNat = if t ∈ l then b else map.taken t.toNat := by
  induction l generalizing map with
  | nil => exact ⟨h, rfl, rfl, fun t => by simp⟩
  | cons s rest ih =>
    have hs := hl s List.mem_cons_self
    obtain ⟨hlawful, hsectors, hsize, htaken⟩ :=
      ih (h.assign hs b) fun t ht => hl t (List.mem_cons_of_mem _ ht)
    refine ⟨hlawful, hsectors, hsize.trans (assign_size _ _ _), ?_⟩
    intro t
    rw [List.foldl_cons, htaken, taken_assign (h.group_lt hs)]
    by_cases ht : t = s
    · simp [ht]
    · have hne : t.toNat ≠ s.toNat := fun he => ht (UInt32.toNat_inj.mp he)
      simp [ht, hne]

theorem Fresh.lt_sectors {l : List SectorId} (hl : map.Fresh l) (h : map.Lawful) :
    ∀ s ∈ l, s.toNat < map.sectors := fun s hs => h.lt_sectors (hl.free s hs)

/-- A sector that is taken is none of them. -/
theorem Fresh.not_mem {l : List SectorId} (hl : map.Fresh l) {s : SectorId}
    (hs : map.taken s.toNat = true) : s ∉ l := by
  intro hmem
  rw [hl.free s hmem] at hs
  cases hs

theorem takeAll_lawful (h : map.Lawful) {l : List SectorId} (hl : map.Fresh l) :
    (map.takeAll l).Lawful := (foldl_assign h true (hl.lt_sectors h)).1

theorem taken_takeAll (h : map.Lawful) {l : List SectorId} (hl : map.Fresh l) (t : SectorId) :
    (map.takeAll l).taken t.toNat = (decide (t ∈ l) || map.taken t.toNat) := by
  apply ((foldl_assign h true (hl.lt_sectors h)).2.2.2 t).trans
  by_cases ht : t ∈ l
  · simp [ht]
  · simp [ht]

/-- Fresh sectors that were taken and given back leave no trace. -/
theorem giveAll_takeAll (h : map.Lawful) {l : List SectorId} (hl : map.Fresh l) :
    (map.takeAll l).giveAll l = map := by
  obtain ⟨htakeLawful, htakeSectors, htakeSize, htake⟩ := foldl_assign h true (hl.lt_sectors h)
  obtain ⟨hgiveLawful, hgiveSectors, hgiveSize, hgive⟩ :=
    foldl_assign htakeLawful false fun s hs => htakeSectors ▸ hl.lt_sectors h s hs
  have hsectors := hgiveSectors.trans htakeSectors
  apply ext_taken hsectors (hgiveSize.trans htakeSize)
  intro s
  by_cases hs : s < map.sectors
  · have haddress := h.addressable
    have hnat : (UInt32.ofNat s).toNat = s := UInt32.toNat_ofNat_of_lt' (by omega)
    rw [← hnat]
    apply (hgive _).trans
    rw [htake]
    -- a fresh sector is free again, and no other bit was touched
    by_cases hmem : UInt32.ofNat s ∈ l
    · rw [if_pos hmem, hl.free _ hmem]
    · rw [if_neg hmem, if_neg hmem]
  · have hs := Nat.le_of_not_lt hs
    rw [h.sealed s hs]
    exact hgiveLawful.sealed s (hsectors ▸ hs)

/-! ## What is taken afterwards -/

/-- A sector is not taken by the change of another one. -/
theorem taken_of_assign {s t : Nat} {b : Bool} (h : (map.assign s b).taken t = true) :
    b = true ∧ t = s ∨ map.taken t = true := by
  by_cases hs : s / 64 < map.groups.size
  · rw [taken_assign hs] at h
    split at h
    · next he => exact .inl ⟨h, he⟩
    · exact .inr h
  · -- there is no such group to change
    unfold taken bit? assign at h
    rw [Array.getElem?_modify] at h
    split at h
    · next he =>
      rw [he] at hs
      exact .inr (by rw [taken, bit?, Array.getElem?_eq_none (Nat.le_of_not_lt hs)]; rfl)
    · exact .inr h

theorem taken_of_allocate {t : SectorId} (h : (allocate 1 map).state.taken t.toNat = true) :
    map.taken t.toNat = true ∨ (allocate 1 map).result = .ok (.ok t) := by
  unfold allocate at h ⊢
  rw [if_neg Nat.one_ne_zero] at h ⊢
  cases hfirst : map.firstFit? 1 with
  | none =>
    rw [hfirst] at h
    exact .inl h
  | some first =>
    rw [hfirst] at h
    rcases taken_of_assign h with ⟨-, rfl⟩ | htaken
    · exact .inr (congrArg (fun s => Except.ok (Except.ok s)) UInt32.ofNat_toNat)
    · exact .inl htaken

theorem taken_of_release {s : SectorId} {t : Nat} (h : (release s 1 map).state.taken t = true) :
    map.taken t = true := by
  unfold release at h
  split at h
  · unfold releaseRun at h
    split at h
    · exact h
    · exact h
    · rcases taken_of_assign h with ⟨hb, -⟩ | htaken
      · cases hb
      · exact htaken
  · exact h

/-- What was given back was taken. -/
theorem taken_of_release_ok {s : SectorId} (h : (release s 1 map).result = .ok ()) :
    map.taken s.toNat = true := by
  rw [taken, (release_ok h).1]
  rfl

end InodeStore.FreeMap
