import InodeStore.Cache.Access
import InodeStore.Proofs.Device.Lawful
import Mathlib.Data.Fintype.Card
import Mathlib.Data.List.Basic

/-!
# `Proofs.Cache.Coherence` — the invariant of the cache

A cache in front of a lawful device stands for an array of blocks. `Sound` is how its parts fit
together: the frames are split between `recency` and `free`, those in use carry different sectors of
the device, the others carry none, and nothing is on its way out. `Coherent cache a` adds that the
cache stands for the array `a`: a sector's frame holds the block of the array, and where no dirty
frame carries the sector the device holds it.

An access passes through a state that is not coherent: a frame given to a sector that is about to be
overwritten still holds the block of another one. `CoherentOff` allows one such sector.

## Contents
- `Carries`, `isDirty`, `Unpinned`, and what a change of one frame does to them.
- `Sound`, `CoherentOff`, `Coherent`, and what keeps them: `Sound.congr`, `CoherentOff.mapPins`,
  `CoherentOff.amend`, `CoherentOff.rearrange`.
-/

namespace InodeStore.Cache

variable {δ : Type} {n : Nat}

/-- The frame is in use and has the number of the sector. -/
def Carries (cache : Cache δ n) (i : Fin n) (s : SectorId) : Prop :=
  i ∈ cache.recency ∧ (cache.frame i).sector = some s

/-- Is there newer content of a sector in the cache than on the device? -/
def isDirty (cache : Cache δ n) (s : SectorId) : Bool :=
  match cache.frameOf? s with
  | some i => (cache.frame i).dirty
  | none => false

/-- Nobody needs a frame to stay where it is. -/
def Unpinned (cache : Cache δ n) : Prop := ∀ i, (cache.frame i).pins = 0

/-! ## Frames -/

theorem frame_mapFrame (cache : Cache δ n) (i j : Fin n) (change : Frame → Frame) :
    (cache.mapFrame i change).frame j = if j = i then change (cache.frame i) else cache.frame j := by
  show (cache.frames.set i.val (change (cache.frames.get i)) i.isLt)[j.val] = _
  rw [Vector.getElem_set]
  by_cases h : j = i
  · subst h
    simp only [if_true]
    rfl
  · rw [if_neg (fun he => h (Fin.ext he.symm)), if_neg h]
    rfl

theorem frame_mapFrame_self (cache : Cache δ n) (i : Fin n) (change : Frame → Frame) :
    (cache.mapFrame i change).frame i = change (cache.frame i) := by
  rw [frame_mapFrame, if_pos rfl]

theorem frame_mapFrame_of_ne (cache : Cache δ n) {i j : Fin n} (change : Frame → Frame) (h : j ≠ i) :
    (cache.mapFrame i change).frame j = cache.frame j := by
  rw [frame_mapFrame, if_neg h]

/-- What a change keeps of its frame is kept of every frame. -/
theorem mapFrame_keeps {α : Type} (part : Frame → α) {cache : Cache δ n} {i : Fin n} {change : Frame → Frame}
    (h : part (change (cache.frame i)) = part (cache.frame i)) (j : Fin n) :
    part ((cache.mapFrame i change).frame j) = part (cache.frame j) := by
  rw [frame_mapFrame]
  split
  · next hj => rw [h, hj]
  · rfl

/-- A frame carries one sector. -/
theorem Carries.sector_eq {cache : Cache δ n} {i : Fin n} {s t : SectorId} (h : cache.Carries i t)
    (h' : cache.Carries i s) : t = s := Option.some.inj (h.2.symm.trans h'.2)

/-- A sector's frame is one in use that carries it. -/
theorem carries_of_frameOf? {cache : Cache δ n} {s : SectorId} {i : Fin n}
    (h : cache.frameOf? s = some i) : cache.Carries i s :=
  ⟨List.mem_of_find?_eq_some h, by simpa using List.find?_some h⟩

/-- A sector without a frame is carried by none. -/
theorem not_carries_of_frameOf? {cache : Cache δ n} {s : SectorId}
    (h : cache.frameOf? s = none) (i : Fin n) : ¬ cache.Carries i s := by
  rintro ⟨hi, hs⟩
  have := List.find?_eq_none.mp h i hi
  simp [hs] at this

/-- A change of a frame that leaves it with its sector does not change what is carried. -/
theorem carries_mapFrame {cache : Cache δ n} {i j : Fin n} {change : Frame → Frame} {t : SectorId}
    (hsector : (change (cache.frame i)).sector = (cache.frame i).sector) :
    (cache.mapFrame i change).Carries j t ↔ cache.Carries j t := by
  unfold Carries
  rw [mapFrame_keeps Frame.sector hsector]
  rfl

theorem frame_blank (d : δ) (i : Fin n) : (blank n d).frame i = Frame.blank := Vector.getElem_replicate i.isLt

/-- The frames of an empty cache are not pinned. -/
theorem blank_unpinned (d : δ) : (blank n d).Unpinned := by
  intro i
  rw [frame_blank]
  rfl

section Invariant

variable [BlockDevice δ] [LawfulDevice δ]

/-! ## The invariant -/

/-- The frames, the two lists and the device fit together. -/
structure Sound (cache : Cache δ n) : Prop where
  /-- The device can do its work. -/
  device : LawfulDevice.Sound cache.device
  /-- No frame is listed twice. -/
  nodup : (cache.recency ++ cache.free).Nodup
  /-- Every frame is listed. -/
  covers : ∀ i, i ∈ cache.recency ∨ i ∈ cache.free
  /-- A frame in use has the content of a sector of the device. -/
  used : ∀ i ∈ cache.recency, (cache.frame i).valid = true ∧
    ∃ s, (cache.frame i).sector = some s ∧ s.toNat < BlockDevice.sectorCount cache.device
  /-- A sector has one frame at most. -/
  unique : ∀ {i j s}, cache.Carries i s → cache.Carries j s → i = j
  /-- A frame not in use has nothing in it. -/
  unused : ∀ i ∈ cache.free, (cache.frame i).sector = none ∧ (cache.frame i).valid = false ∧
    (cache.frame i).dirty = false ∧ (cache.frame i).pins = 0
  /-- Nothing is on its way out. -/
  evicting : cache.evicting = []

/-- The cache stands for an array of blocks, but for the sector of the hole. -/
structure CoherentOff (hole : Option SectorId) (cache : Cache δ n) (a : SectorArray) : Prop
    extends cache.Sound where
  /-- A sector's frame holds its block. -/
  data : ∀ {i s}, cache.Carries i s → hole ≠ some s → (cache.frame i).data = a s
  /-- The device holds the block of every sector that no dirty frame carries. -/
  clean : ∀ {s : SectorId}, s.toNat < BlockDevice.sectorCount cache.device → hole ≠ some s →
    (∀ i, cache.Carries i s → (cache.frame i).dirty = false) → LawfulDevice.block cache.device s = a s

/-- The cache stands for an array of blocks. -/
abbrev Coherent (cache : Cache δ n) (a : SectorArray) : Prop := cache.CoherentOff none a

variable {cache : Cache δ n} {a : SectorArray} {s : SectorId} {i : Fin n} {hole : Option SectorId}

/-- An empty cache stands for the content of its device. -/
theorem blank_coherent {d : δ} (hd : LawfulDevice.Sound d) :
    (blank n d).Coherent (LawfulDevice.block d) where
  device := hd
  nodup := by simpa [blank] using List.nodup_finRange n
  covers i := Or.inr (List.mem_finRange i)
  used i hi := absurd hi (by simp [blank])
  unique hi := absurd hi.1 (by simp [blank])
  unused i _ := by
    rw [frame_blank]
    exact ⟨rfl, rfl, rfl, rfl⟩
  evicting := rfl
  data hi := absurd hi.1 (by simp [blank])
  clean _ _ _ := rfl

/-- Under the invariant a sector that no frame in use carries as dirty is not dirty. -/
theorem Sound.isDirty_eq_false_iff (hc : cache.Sound) :
    cache.isDirty s = false ↔ ∀ i, cache.Carries i s → (cache.frame i).dirty = false := by
  unfold isDirty
  cases h : cache.frameOf? s with
  | none => exact ⟨fun _ i hi => absurd hi (not_carries_of_frameOf? h i), fun _ => rfl⟩
  | some i =>
    refine ⟨?_, fun hall => hall i (carries_of_frameOf? h)⟩
    intro hi j hj
    rw [hc.unique hj (carries_of_frameOf? h)]
    exact hi

/-- A frame in use is not a free one. -/
theorem Sound.not_mem_free (hc : cache.Sound) (hi : i ∈ cache.recency) : i ∉ cache.free :=
  fun hf => (List.nodup_append.mp hc.nodup).2.2 i hi i hf rfl

/-- A frame that is dirty or pinned is in use. -/
theorem Sound.mem_recency (hc : cache.Sound)
    (hi : (cache.frame i).dirty = true ∨ 0 < (cache.frame i).pins) : i ∈ cache.recency := by
  rcases hc.covers i with h | h
  · exact h
  · obtain ⟨_, _, hd, hp⟩ := hc.unused i h
    rcases hi with hi | hi
    · rw [hd] at hi
      cases hi
    · omega

/-! ## One frame -/

/-- What matters is which frames are listed and what they carry, not their order and their content. -/
theorem Sound.congr (hc : cache.Sound) {cache' : Cache δ n}
    (hrecency : cache'.recency.Perm cache.recency) (hfree : cache'.free = cache.free)
    (hevicting : cache'.evicting = cache.evicting) (hdevice : LawfulDevice.Sound cache'.device)
    (hcount : BlockDevice.sectorCount cache'.device = BlockDevice.sectorCount cache.device)
    (hsector : ∀ j, (cache'.frame j).sector = (cache.frame j).sector)
    (hvalid : ∀ j, (cache'.frame j).valid = (cache.frame j).valid)
    (hunused : ∀ j ∈ cache.free, cache'.frame j = cache.frame j) : cache'.Sound where
  device := hdevice
  nodup := hfree ▸ (hrecency.append_right _).nodup_iff.mpr hc.nodup
  covers j := by
    rw [hfree, hrecency.mem_iff]
    exact hc.covers j
  used j hj := by
    rw [hsector, hvalid, hcount]
    exact hc.used j (hrecency.mem_iff.mp hj)
  unique hj hk := hc.unique ⟨hrecency.mem_iff.mp hj.1, (hsector _).symm.trans hj.2⟩
    ⟨hrecency.mem_iff.mp hk.1, (hsector _).symm.trans hk.2⟩
  unused j hj := by
    rw [hfree] at hj
    rw [hunused j hj]
    exact hc.unused j hj
  evicting := hevicting.trans hc.evicting

/-- A change of a frame in use that leaves it with its sector keeps the parts fitted together. -/
theorem Sound.mapFrame (hc : cache.Sound) (hi : i ∈ cache.recency) {change : Frame → Frame}
    (hsector : (change (cache.frame i)).sector = (cache.frame i).sector)
    (hvalid : (change (cache.frame i)).valid = (cache.frame i).valid) :
    (cache.mapFrame i change).Sound := by
  refine hc.congr (List.Perm.refl _) rfl rfl hc.device rfl (mapFrame_keeps Frame.sector hsector)
    (mapFrame_keeps Frame.valid hvalid) ?_
  intro j hj
  exact frame_mapFrame_of_ne _ _ fun h => hc.not_mem_free (h ▸ hi) hj

/-- The number of pins of a frame in use does not matter. -/
theorem CoherentOff.mapPins (hc : cache.CoherentOff hole a) (hi : i ∈ cache.recency)
    (pins : Nat → Nat) :
    (cache.mapFrame i fun frame => { frame with pins := pins frame.pins }).CoherentOff hole a where
  toSound := hc.toSound.mapFrame hi rfl rfl
  data hj hs := by
    rw [carries_mapFrame rfl] at hj
    rw [frame_mapFrame]
    split
    · next h => exact hc.data (h ▸ hj) hs
    · exact hc.data hj hs
  clean hs hne hall := by
    apply hc.clean hs hne
    intro j hj
    have := hall j ((carries_mapFrame rfl).mpr hj)
    rw [frame_mapFrame] at this
    split at this
    · next h => exact h ▸ this
    · exact this

theorem hole_ne {t : SectorId} (hole_eq : hole = none ∨ hole = some s) (hts : t ≠ s) :
    hole ≠ some t := by
  rcases hole_eq with rfl | rfl
  · exact nofun
  · exact fun he => hts (Option.some.inj he).symm

/-- Changing the data of a sector's frame changes the array at that sector, and fills the hole there. -/
theorem CoherentOff.amend (hc : cache.CoherentOff hole a) (hole_eq : hole = none ∨ hole = some s)
    (hi : cache.Carries i s) {b : Block} {change : Block → Block}
    (hb : change (cache.frame i).data = b) :
    (cache.mapFrame i fun frame =>
      { frame with data := change frame.data, dirty := true }).Coherent (Function.update a s b) where
  toSound := hc.toSound.mapFrame hi.1 rfl rfl
  data {j t} hj _ := by
    rw [carries_mapFrame rfl] at hj
    rw [frame_mapFrame]
    -- no other frame carries the sector
    by_cases h : j = i
    · subst h
      have hts : t = s := hj.sector_eq hi
      rw [if_pos rfl, hts, Function.update_self]
      exact hb
    · have hts : t ≠ s := fun he => h (hc.unique hj (he ▸ hi))
      rw [if_neg h, Function.update_of_ne hts]
      exact hc.data hj (hole_ne hole_eq hts)
  clean {t} ht _ hall := by
    have hts : t ≠ s := by
      rintro rfl
      have := hall i ((carries_mapFrame rfl).mpr hi)
      rw [frame_mapFrame_self] at this
      cases this
    rw [Function.update_of_ne hts]
    apply hc.clean ht (hole_ne hole_eq hts)
    intro j hj
    have hji : j ≠ i := by
      rintro rfl
      exact hts (hj.sector_eq hi)
    have hclean := hall j ((carries_mapFrame rfl).mpr hj)
    rwa [frame_mapFrame_of_ne _ _ hji] at hclean

/-- The order of the frames in use and the counters do not matter. -/
theorem CoherentOff.rearrange (hc : cache.CoherentOff hole a) {cache' : Cache δ n}
    (hframes : cache'.frames = cache.frames) (hdevice : cache'.device = cache.device)
    (hevicting : cache'.evicting = cache.evicting) (hrecency : cache'.recency.Perm cache.recency)
    (hfree : cache'.free = cache.free) : cache'.CoherentOff hole a := by
  have hframe : ∀ j, cache'.frame j = cache.frame j := by
    intro j
    show cache'.frames.get j = cache.frames.get j
    rw [hframes]
  have hcarries : ∀ {j t}, cache'.Carries j t ↔ cache.Carries j t := by
    intro j t
    unfold Carries
    rw [hframe, hrecency.mem_iff]
  refine ⟨hc.congr hrecency hfree hevicting (hdevice ▸ hc.device) (hdevice ▸ rfl)
    (fun j => hframe j ▸ rfl) (fun j => hframe j ▸ rfl) fun j _ => hframe j, ?_, ?_⟩
  · intro j t hj ht
    rw [hframe]
    exact hc.data (hcarries.mp hj) ht
  · intro t ht hne hall
    rw [hdevice] at ht ⊢
    exact hc.clean ht hne fun j hj => hframe j ▸ hall j (hcarries.mpr hj)

end Invariant

end InodeStore.Cache
