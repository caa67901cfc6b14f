import InodeStore.Proofs.FreeMap.Runs

/-!
# `Proofs.FreeMap.Changes` — the free map as a set that is changed

The maps that come up are those `Obtained` from the map of free sectors by changes of which none faulted.
Whatever the changes were, such a map acts as the set of the sectors that it calls allocated (`ActsAsSet`,
`map_acts_as_set`): the lowest run that is not in the set is taken, what is marked is added, what is released is
removed.

One change does more than that. The bits that stand for no sector are set like those of taken sectors, so that
a run that reaches beyond the last sector can be released (`released_beyond_last`). The number of clear bits
is that of the sectors outside the set as long as no run does.

## Contents
- `Change`, `Change.run`, `Change.Leaves`, `Obtained`, `SparesTail`.
- `allocated` and what each change does to it.
- `ActsAsSet`, `map_acts_as_set`, `released_beyond_last`.
-/

namespace InodeStore.FreeMap

/-! ## Changes -/

/-- What changes a free map. -/
inductive Change where
  | mark (sector : SectorId)
  | allocate (count : Nat)
  | release (sector : SectorId) (count : Nat)
  | load (bytes : Bytes)

namespace Change

/-- What a change answers. -/
abbrev Answer : Change → Type
  | .allocate _ => Except Error SectorId
  | .mark _ | .release _ _ | .load _ => Unit

/-- Make a change. -/
def run : (change : Change) → Action FreeMap change.Answer
  | .mark sector => FreeMap.mark sector
  | .allocate count => FreeMap.allocate count
  | .release sector count => FreeMap.release sector count
  | .load bytes => FreeMap.load bytes

/-- The runs that are released end with the last sector or before. -/
def StaysInside (sectors : UInt32) : Change → Prop
  | .release sector count => count = 0 ∨ sector.toNat + count ≤ sectors.toNat
  | .mark _ | .allocate _ | .load _ => True

/-- What a change that does not fault leaves behind. -/
def Leaves (map map' : FreeMap) : Change → Prop
  | .mark sector => map.bit? sector.toNat = some false ∧ map' = map.assign sector.toNat true
  | .allocate count => map' = map ∨ ∃ p, p + count ≤ map.sectors ∧ map' = map.assignRun p true count
  | .release sector count => map' = map.assignRun sector.toNat false count
  | .load bytes => map' = map.loaded bytes

variable {map map' : FreeMap} {change : Change} {answer : change.Answer} {log : List Event}

theorem leaves (hrun : change.run map = ⟨.ok answer, map', log⟩) : change.Leaves map map' := by
  have hresult : (change.run map).result = .ok answer := congrArg Reply.result hrun
  cases change with
  | mark sector =>
    rcases mark_cases map sector with ⟨hbit, heq⟩ | ⟨e, -, hfault⟩
    · cases heq.symm.trans hrun
      exact ⟨hbit, rfl⟩
    · cases hfault.symm.trans hresult
  | allocate count =>
    rcases Nat.eq_zero_or_pos count with rfl | hpos
    · cases hresult
    · rcases allocate_cases map hpos with ⟨p, hp, heq⟩ | ⟨-, heq⟩
      · cases heq.symm.trans hrun
        exact .inr ⟨p, hp.1.1, rfl⟩
      · cases heq.symm.trans hrun
        exact .inl rfl
  | release sector count =>
    rcases release_cases map sector count with ⟨-, -, heq⟩ | ⟨-, hfault⟩ | ⟨t, e, -, -, -, hfault⟩
    · cases heq.symm.trans hrun
      exact rfl
    · cases hfault.symm.trans hresult
    · cases hfault.symm.trans hresult
  | load bytes =>
    by_cases hsize : bytes.size = map.byteLength
    · cases (load_eq hsize).symm.trans hrun
      exact rfl
    · cases (load_refused hsize).symm.trans hrun

theorem Leaves.sectors (h : change.Leaves map map') : map'.sectors = map.sectors := by
  cases change with
  | mark sector =>
    obtain ⟨-, rfl⟩ := h
    rfl
  | allocate count =>
    rcases h with rfl | ⟨p, -, rfl⟩
    · rfl
    · exact assignRun_sectors _ _ _ _
  | release sector count =>
    obtain rfl : map' = _ := h
    exact assignRun_sectors _ _ _ _
  | load bytes =>
    obtain rfl : map' = _ := h
    rfl

theorem Leaves.size (h : change.Leaves map map') : map'.groups.size = map.groups.size := by
  cases change with
  | mark sector =>
    obtain ⟨-, rfl⟩ := h
    exact assign_size _ _ _
  | allocate count =>
    rcases h with rfl | ⟨p, -, rfl⟩
    · rfl
    · exact assignRun_size _ _ _ _
  | release sector count =>
    obtain rfl : map' = _ := h
    exact assignRun_size _ _ _ _
  | load bytes =>
    obtain rfl : map' = _ := h
    exact loaded_size _ _

/-- What stands for no sector stays sealed under a change that releases no such bit. -/
theorem Leaves.lawful {sectors : UInt32} (h : change.Leaves map map') (hmap : map.Lawful)
    (hsectors : map.sectors = sectors.toNat) (hinside : change.StaysInside sectors) : map'.Lawful := by
  cases change with
  | mark sector =>
    obtain ⟨hbit, rfl⟩ := h
    exact hmap.assign (hmap.lt_sectors (congrArg (Option.getD · true) hbit)) true
  | allocate count =>
    rcases h with rfl | ⟨p, hlast, rfl⟩
    · exact hmap
    · exact hmap.assignRun hlast true
  | release sector count =>
    obtain rfl : map' = _ := h
    rcases hinside with rfl | hlast
    · exact hmap
    · exact hmap.assignRun (hsectors ▸ hlast) false
  | load bytes =>
    obtain rfl : map' = _ := h
    exact hmap.shaped.lawful_loaded bytes

end Change

/-- The maps that come of `sectors` free sectors by permitted changes, none of which faulted. -/
inductive Obtained (permitted : Change → Prop) (sectors : UInt32) : FreeMap → Prop
  | blank : Obtained permitted sectors (FreeMap.blank sectors.toNat)
  | change {map map' : FreeMap} {change : Change} {answer : change.Answer} {log : List Event} :
      Obtained permitted sectors map → permitted change →
        change.run map = ⟨.ok answer, map', log⟩ → Obtained permitted sectors map'

section Obtained

variable {permitted : Change → Prop} {sectors : UInt32} {map : FreeMap}

theorem Obtained.sectors_eq (h : Obtained permitted sectors map) : map.sectors = sectors.toNat := by
  induction h with
  | blank => rfl
  | change _ _ hrun ih => exact (Change.leaves hrun).sectors.trans ih

theorem blank_lawful_of_number (sectors : UInt32) : (FreeMap.blank sectors.toNat).Lawful :=
  blank_lawful (Nat.le_of_lt sectors.toNat_lt)

theorem Obtained.shaped (h : Obtained permitted sectors map) : map.Shaped := by
  induction h with
  | blank => exact (blank_lawful_of_number sectors).shaped
  | change _ _ hrun ih =>
    have hleaves := Change.leaves hrun
    exact ih.congr hleaves.sectors hleaves.size

/-- Released runs stay away from the bits that stand for no sector, or there are none. -/
def SparesTail (permitted : Change → Prop) (sectors : UInt32) : Prop :=
  sectors.toNat % 64 = 0 ∨ ∀ change, permitted change → change.StaysInside sectors

/-- What stands for no sector is sealed as long as no run that is released reaches there. -/
theorem Obtained.lawful (h : Obtained permitted sectors map) (hspares : SparesTail permitted sectors) :
    map.Lawful := by
  rcases hspares with hwhole | hinside
  · exact h.shaped.lawful_of_whole (h.sectors_eq ▸ hwhole)
  · induction h with
    | blank => exact blank_lawful_of_number sectors
    | change hmap hpermitted hrun ih =>
      exact (Change.leaves hrun).lawful ih hmap.sectors_eq (hinside _ hpermitted)

end Obtained

/-! ## The set -/

/-- The sectors that are allocated. -/
def allocated (map : FreeMap) : Finset Nat :=
  (Finset.range map.sectors).filter fun s => map.isAllocated (UInt32.ofNat s) = .ok true

section Allocated

variable {map : FreeMap} {first count s : Nat}

theorem Shaped.isAllocated_ofNat (h : map.Shaped) (hs : s < map.sectors) :
    map.isAllocated (UInt32.ofNat s) = .ok (map.taken s) := by
  have haddress := h.addressable
  have hnumber : (UInt32.ofNat s).toNat = s := UInt32.toNat_ofNat_of_lt' (by omega)
  unfold isAllocated
  rw [hnumber, bit?_eq_taken (h.lt_bits hs)]

theorem Shaped.mem_allocated (h : map.Shaped) : s ∈ map.allocated ↔ s < map.sectors ∧ map.taken s = true := by
  unfold allocated
  rw [Finset.mem_filter, Finset.mem_range]
  refine and_congr_right fun hs => ?_
  rw [h.isAllocated_ofNat hs]
  exact ⟨Except.ok.inj, congrArg Except.ok⟩

/-- A run that is set or cleared is added to the set or removed, as far as there are sectors. -/
theorem Shaped.mem_allocated_assignRun (h : map.Shaped) (hlast : first + count ≤ 64 * map.groups.size) (b : Bool) :
    s ∈ (map.assignRun first b count).allocated ↔
      s < map.sectors ∧ (if first ≤ s ∧ s < first + count then b else map.taken s) = true := by
  rw [(h.assignRun first b count).mem_allocated, assignRun_sectors, taken_assignRun hlast]

theorem Shaped.allocated_take (h : map.Shaped) (hlast : first + count ≤ map.sectors) :
    (map.assignRun first true count).allocated = map.allocated ∪ Finset.Ico first (first + count) := by
  have hbits := h.size
  ext s
  rw [h.mem_allocated_assignRun (by omega), Finset.mem_union, Finset.mem_Ico, h.mem_allocated]
  split
  · next hrun => exact ⟨fun _ => .inr hrun, fun _ => ⟨by omega, rfl⟩⟩
  · next hrun => exact ⟨.inl, fun hs => hs.resolve_right hrun⟩

theorem Shaped.allocated_give (h : map.Shaped) (hlast : first + count ≤ 64 * map.groups.size) :
    (map.assignRun first false count).allocated = map.allocated \ Finset.Ico first (first + count) := by
  ext s
  rw [h.mem_allocated_assignRun hlast, Finset.mem_sdiff, Finset.mem_Ico, h.mem_allocated]
  split
  · next hrun => exact ⟨fun hs => (Bool.false_ne_true hs.2).elim, fun hs => (hs.2 hrun).elim⟩
  · next hrun => exact ⟨fun hs => ⟨hs, hrun⟩, fun hs => hs.1⟩

/-- A run is free if it is apart from the set. -/
theorem Shaped.freeRun_iff (h : map.Shaped) (hlast : first + count ≤ map.sectors) :
    map.FreeRun first (first + count) ↔ Disjoint (Finset.Ico first (first + count)) map.allocated := by
  rw [Finset.disjoint_left]
  constructor
  · intro hfree s hs hmem
    have hs := Finset.mem_Ico.mp hs
    have htaken := (h.mem_allocated.mp hmem).2
    rw [hfree s hs.1 hs.2] at htaken
    cases htaken
  · intro hapart s hs hs'
    by_contra htaken
    exact hapart (Finset.mem_Ico.mpr ⟨hs, hs'⟩)
      (h.mem_allocated.mpr ⟨by omega, Bool.eq_true_of_not_eq_false htaken⟩)

/-- A run is taken if its sectors are in the set and its other bits are set. -/
theorem Shaped.fullRun_iff (h : map.Shaped) {last : Nat} :
    map.FullRun first last ↔ Finset.Ico first (min last map.sectors) ⊆ map.allocated ∧
      ∀ s, max first map.sectors ≤ s → s < last → map.bit? s = some true := by
  constructor
  · refine fun hfull => ⟨fun s hs => ?_, fun s hs hs' => hfull s (by omega) hs'⟩
    have hs := Finset.mem_Ico.mp hs
    have hbit := hfull s hs.1 (by omega)
    rw [bit?_eq_taken (lt_of_bit? hbit)] at hbit
    exact h.mem_allocated.mpr ⟨by omega, Option.some.inj hbit⟩
  · rintro ⟨hset, hrest⟩ s hs hs'
    by_cases hlt : s < map.sectors
    · have hmem := h.mem_allocated.mp (hset (Finset.mem_Ico.mpr ⟨hs, by omega⟩))
      rw [bit?_eq_taken (h.lt_bits hlt), hmem.2]
    · exact hrest s (by omega) hs'

end Allocated

/-! ## Changes of the set -/

/-- A map acts as the set of its allocated sectors. -/
structure ActsAsSet (map : FreeMap) : Prop where
  /-- The lowest run apart from the set is added to it, if there is one. -/
  allocates : ∀ count, 0 < count →
    (∃ s map', allocate count map = ⟨.ok (.ok s), map', []⟩ ∧
        IsLeast {p | p + count ≤ map.sectors ∧ Disjoint (Finset.Ico p (p + count)) map.allocated} s.toNat ∧
        map'.allocated = map.allocated ∪ Finset.Ico s.toNat (s.toNat + count)) ∨
      (∀ p, p + count ≤ map.sectors → ¬ Disjoint (Finset.Ico p (p + count)) map.allocated) ∧
        allocate count map = ⟨.ok (.error .allocationExhausted), map, [.mapExhausted count]⟩
  /-- A sector that is not in the set is added. -/
  marks : ∀ s : SectorId, s.toNat < map.sectors →
    s.toNat ∉ map.allocated ∧
        (∃ map', mark s map = ⟨.ok (), map', []⟩ ∧ map'.allocated = insert s.toNat map.allocated) ∨
      s.toNat ∈ map.allocated ∧ (mark s map).result = .error (.sectorInUse s)
  /-- A run is removed if all of it is in the set. -/
  releases : ∀ (s : SectorId) count, s.toNat + count ≤ map.sectors →
    Finset.Ico s.toNat (s.toNat + count) ⊆ map.allocated ∧
        (∃ map', release s count map = ⟨.ok (), map', []⟩ ∧
          map'.allocated = map.allocated \ Finset.Ico s.toNat (s.toNat + count)) ∨
      ∃ t ∈ Finset.Ico s.toNat (s.toNat + count), t ∉ map.allocated ∧
        (release s count map).result = .error (.sectorNotInUse t)
  /-- So is one that reaches beyond the last sector, if its other bits are set too. -/
  overshoots : ∀ (s : SectorId) count, s.toNat < map.sectors → map.sectors < s.toNat + count →
    (∃ map', release s count map = ⟨.ok (), map', []⟩ ∧
        map'.allocated = map.allocated \ Finset.Ico s.toNat (s.toNat + count)) ∧
        Finset.Ico s.toNat map.sectors ⊆ map.allocated ∧
        (∀ t, map.sectors ≤ t → t < s.toNat + count → map.bit? t = some true) ∨
      (∃ e, (release s count map).result = .error e) ∧
        ¬ (Finset.Ico s.toNat map.sectors ⊆ map.allocated ∧
          ∀ t, map.sectors ≤ t → t < s.toNat + count → map.bit? t = some true)
  /-- The set is that of the bits that are loaded. -/
  loads : ∀ bytes : Bytes,
    bytes.size = map.byteLength ∧ (∃ map', load bytes map = ⟨.ok (), map', []⟩ ∧
        map'.allocated =
          (Finset.range map.sectors).filter fun s => (bytes[s / 8]?.getD 0).toNat.testBit (s % 8) = true) ∨
      bytes.size ≠ map.byteLength ∧ (load bytes map).result = .error .mapSizeMismatch

theorem Shaped.actsAsSet {map : FreeMap} (h : map.Shaped) : map.ActsAsSet where
  allocates count hcount := by
    rcases allocate_cases map hcount with ⟨p, ⟨⟨hlast, hfree⟩, hleast⟩, hrun⟩ | ⟨hnone, hrun⟩
    · have haddress := h.addressable
      have hnumber : (UInt32.ofNat p).toNat = p := UInt32.toNat_ofNat_of_lt' (by omega)
      refine .inl ⟨_, _, hrun, ?_, ?_⟩
      · rw [hnumber]
        refine ⟨⟨hlast, (h.freeRun_iff hlast).mp hfree⟩, ?_⟩
        rintro q ⟨hq, hapart⟩
        exact hleast ⟨hq, (h.freeRun_iff hq).mpr hapart⟩
      · rw [hnumber]
        exact h.allocated_take hlast
    · exact .inr ⟨fun p hlast hapart => hnone p hlast ((h.freeRun_iff hlast).mpr hapart), hrun⟩
  marks s hs := by
    have hbit := bit?_eq_taken (h.lt_bits hs)
    rcases mark_cases map s with ⟨hclear, hrun⟩ | ⟨e, ⟨hset, rfl⟩ | ⟨hnone, -⟩, hfault⟩
    · have hfree : map.taken s.toNat = false := Option.some.inj (hbit.symm.trans hclear)
      refine .inl ⟨fun hmem => ?_, _, hrun, ?_⟩
      · rw [(h.mem_allocated.mp hmem).2] at hfree
        cases hfree
      · have htake : (map.assignRun s.toNat true 1).allocated =
            map.allocated ∪ Finset.Ico s.toNat (s.toNat + 1) := h.allocated_take hs
        rw [Nat.Ico_succ_singleton] at htake
        exact htake.trans (Finset.union_comm _ _)
    · exact .inr ⟨h.mem_allocated.mpr ⟨hs, Option.some.inj (hbit.symm.trans hset)⟩, hfault⟩
    · cases hbit.symm.trans hnone
  releases s count hlast := by
    have hmin : min (s.toNat + count) map.sectors = s.toNat + count := Nat.min_eq_left hlast
    rcases release_cases map s count with ⟨-, hfull, hrun⟩ | ⟨hsum, -⟩ | ⟨t, e, ht, ht', hobjects, hfault⟩
    · have hset := (h.fullRun_iff.mp hfull).1
      have hbits := h.size
      rw [hmin] at hset
      exact .inl ⟨hset, _, hrun, h.allocated_give (by omega)⟩
    · have haddress : map.sectors ≤ 2 ^ 32 := h.addressable
      have hsum : ¬ s.toNat + count < 2 ^ 64 := hsum
      omega
    · have hbit := bit?_eq_taken (h.lt_bits (by omega : t < map.sectors))
      rcases hobjects with ⟨hclear, rfl⟩ | ⟨hnone, -⟩
      · refine .inr ⟨t, Finset.mem_Ico.mpr ⟨ht, ht'⟩, fun hmem => ?_, hfault⟩
        have hset := (h.mem_allocated.mp hmem).2
        rw [hclear, hset] at hbit
        cases hbit
      · cases hbit.symm.trans hnone
  overshoots s count hs hlast := by
    have hiff : map.FullRun s.toNat (s.toNat + count) ↔ Finset.Ico s.toNat map.sectors ⊆ map.allocated ∧
        ∀ t, map.sectors ≤ t → t < s.toNat + count → map.bit? t = some true := by
      rw [h.fullRun_iff, Nat.min_eq_right (Nat.le_of_lt hlast), Nat.max_eq_right (Nat.le_of_lt hs)]
    by_cases hfull : map.FullRun s.toNat (s.toNat + count)
    · have hbits := hfull.last_le (by omega)
      exact .inl ⟨⟨_, h.release_full hfull, h.allocated_give hbits⟩, hiff.mp hfull⟩
    · exact .inr ⟨release_refused hfull, fun hset => hfull (hiff.mpr hset)⟩
  loads bytes := by
    by_cases hsize : bytes.size = map.byteLength
    · refine .inl ⟨hsize, _, load_eq hsize, ?_⟩
      ext s
      rw [(h.lawful_loaded bytes).shaped.mem_allocated, taken_loaded h.size, Finset.mem_filter,
        Finset.mem_range]
      refine and_congr_right fun hs => ?_
      have hs : s < map.sectors := hs
      rw [decide_eq_false (Nat.not_le.mpr hs), Bool.false_or]
      exact Iff.rfl
    · exact .inr ⟨hsize, congrArg Reply.result (load_refused hsize)⟩

/-- The clear bits of a sealed map are those of the sectors that are not in the set. -/
theorem Lawful.free_eq {map : FreeMap} (h : map.Lawful) : map.free = Finset.range map.sectors \ map.allocated := by
  ext s
  rw [mem_free, Finset.mem_sdiff, Finset.mem_range, h.shaped.mem_allocated]
  constructor
  · rintro ⟨-, hfree⟩
    refine ⟨h.lt_sectors hfree, fun hset => ?_⟩
    rw [hset.2] at hfree
    cases hfree
  · rintro ⟨hs, hnot⟩
    exact ⟨h.shaped.lt_bits hs, Bool.eq_false_iff.mpr fun htaken => hnot ⟨hs, htaken⟩⟩

theorem Lawful.freeCount_add_card {map : FreeMap} (h : map.Lawful) :
    map.freeCount + map.allocated.card = map.sectors := by
  have hsubset : map.allocated ⊆ Finset.range map.sectors := Finset.filter_subset _ _
  rw [freeCount_eq, h.free_eq, Finset.card_sdiff_add_card_eq_card hsubset, Finset.card_range]

theorem allocated_blank (sectors : UInt32) : (FreeMap.blank sectors.toNat).allocated = ∅ := by
  refine Finset.eq_empty_of_forall_notMem fun s hs => ?_
  obtain ⟨hlt, htaken⟩ := (blank_lawful_of_number sectors).shaped.mem_allocated.mp hs
  have hlt : s < sectors.toNat := hlt
  rw [taken_blank, decide_eq_false (by omega)] at htaken
  cases htaken

/-- **The map is a set of sectors.** It begins as the empty set, and whatever was done to it, it acts as the set
of the sectors it calls allocated. As long as every run that was released ended with the last sector or before,
the sectors that are not in the set are also those that it counts as free. -/
theorem map_acts_as_set {permitted : Change → Prop} {sectors : UInt32} {map : FreeMap}
    (h : Obtained permitted sectors map) :
    map.sectors = sectors.toNat ∧ (FreeMap.blank sectors.toNat).allocated = ∅ ∧ map.ActsAsSet ∧
      (SparesTail permitted sectors → map.freeCount + map.allocated.card = sectors.toNat) := by
  refine ⟨h.sectors_eq, allocated_blank sectors, h.shaped.actsAsSet, fun hspares => ?_⟩
  rw [(h.lawful hspares).freeCount_add_card, h.sectors_eq]

/-- Three sectors, of which the last is marked. -/
theorem obtained_marked (permitted : Change → Prop) (hmark : permitted (.mark 2)) :
    Obtained permitted 3 ((FreeMap.blank 3).assign 2 true) := by
  have hrun : (Change.mark 2).run (FreeMap.blank 3) = ⟨.ok (), (FreeMap.blank 3).assign 2 true, []⟩ := rfl
  exact .change .blank hmark hrun

theorem map_acts_as_set_marked : ∃ map, Obtained (Change.StaysInside 3) 3 map ∧ map.allocated = {2} ∧
    map.sectors = (3 : UInt32).toNat ∧ (FreeMap.blank (3 : UInt32).toNat).allocated = ∅ ∧ map.ActsAsSet ∧
      map.freeCount + map.allocated.card = (3 : UInt32).toNat := by
  have h := obtained_marked (Change.StaysInside 3) trivial
  obtain ⟨hsectors, hblank, hacts, hcount⟩ := map_acts_as_set h
  exact ⟨_, h, by decide +kernel, hsectors, hblank, hacts, hcount (.inr fun _ => id)⟩

/-- A run is released although its second sector is not in the set, and does not even exist. -/
theorem released_beyond_last : ∃ map map', Obtained (fun _ => True) 3 map ∧ map.sectors = 3 ∧
    2 ∈ map.allocated ∧ 3 ∉ map.allocated ∧ release 2 2 map = ⟨.ok (), map', []⟩ ∧
      map'.freeCount + map'.allocated.card ≠ map'.sectors :=
  ⟨_, _, obtained_marked _ trivial, rfl, by decide +kernel, by decide +kernel, rfl, by decide +kernel⟩

end InodeStore.FreeMap
