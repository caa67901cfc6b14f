import InodeStore.Proofs.Cache.Coherence

/-!
# `Proofs.Cache.Replacement` — a frame changes its sector

A sector that is not in the cache gets a frame that nobody has pinned. `claim?` finds the frame
(`Claimed`), it is given to the sector (`handOver`), what its old sector has left in it goes to the
device, and it is filled (`Transfer`). `Replaced` is what all of these keep, from the moment the frame
is given: one frame carries the new sector and is pinned once, and the others are as they were. Once
the frame is filled the parts of the cache fit together again (`Replaced.sound`), and the cache stands
for the same array (`Replaced.coherentOff`).
-/

namespace InodeStore.Cache

section Replacement

variable {δ : Type} {n : Nat} [BlockDevice δ] [LawfulDevice δ] {cache cache' : Cache δ n}
  {a : SectorArray} {s : SectorId} {i : Fin n}

/-! ## Transfers -/

/-- What a transfer for one frame leaves as it was. -/
structure Transfer (i : Fin n) (cache cache' : Cache δ n) : Prop where
  recency : cache'.recency = cache.recency
  free : cache'.free = cache.free
  evicting : cache'.evicting = cache.evicting
  other : ∀ j, j ≠ i → cache'.frame j = cache.frame j
  device : LawfulDevice.Sound cache'.device
  count : BlockDevice.sectorCount cache'.device = BlockDevice.sectorCount cache.device

theorem readDevice_eq (hd : LawfulDevice.Sound cache.device)
    (hs : s.toNat < BlockDevice.sectorCount cache.device) :
    ∃ cache', readDevice s cache = ⟨.ok (LawfulDevice.block cache.device s), cache', []⟩ ∧
      cache'.frames = cache.frames ∧ Transfer i cache cache' ∧
      LawfulDevice.block cache'.device = LawfulDevice.block cache.device := by
  obtain ⟨d', hread, hsound, hcount, hblock⟩ := LawfulDevice.read_eq hd hs
  refine ⟨{ cache with device := d', deviceReads := cache.deviceReads + 1 }, ?_, rfl,
    ⟨rfl, rfl, rfl, fun _ _ => rfl, hsound, hcount⟩, hblock⟩
  unfold readDevice
  rw [hread]

theorem writeDevice_eq (b : Block) (hd : LawfulDevice.Sound cache.device)
    (hs : s.toNat < BlockDevice.sectorCount cache.device) :
    ∃ cache', writeDevice s b cache = ⟨.ok (), cache', []⟩ ∧
      cache'.frames = cache.frames ∧ Transfer i cache cache' ∧
      LawfulDevice.block cache'.device = Function.update (LawfulDevice.block cache.device) s b := by
  obtain ⟨d', hwrite, hsound, hcount, hblock⟩ := LawfulDevice.write_eq b hd hs
  refine ⟨{ cache with device := d', deviceWrites := cache.deviceWrites + 1 }, ?_, rfl,
    ⟨rfl, rfl, rfl, fun _ _ => rfl, hsound, hcount⟩, hblock⟩
  unfold writeDevice
  rw [hwrite]

/-- A transfer may be followed by a change of its frame. -/
theorem Transfer.mapFrame {cache' : Cache δ n} (h : Transfer i cache cache')
    (change : Frame → Frame) : Transfer i cache (cache'.mapFrame i change) where
  recency := h.recency
  free := h.free
  evicting := h.evicting
  other j hj := (frame_mapFrame_of_ne _ _ hj).trans (h.other j hj)
  device := h.device
  count := h.count

/-- Filling a frame: from the device, or not at all where the content is to be replaced. -/
theorem fetch_eq (fill : Fill) (hd : LawfulDevice.Sound cache.device)
    (hs : s.toNat < BlockDevice.sectorCount cache.device) :
    ∃ cache', fetch i s fill cache = ⟨.ok (), cache', [.loaded s i.val]⟩ ∧ Transfer i cache cache' ∧
      LawfulDevice.block cache'.device = LawfulDevice.block cache.device ∧
      ∃ b, cache'.frame i = { cache.frame i with data := b, dirty := false, valid := true } ∧
        (fill = .readThrough → b = LawfulDevice.block cache.device s) := by
  cases fill with
  | readThrough =>
    obtain ⟨read, hread, hframes, htransfer, hblock⟩ := readDevice_eq (i := i) hd hs
    have hframe : read.frame i = cache.frame i := congrArg (Vector.get · i) hframes
    refine ⟨(read.mapFrame i fun frame =>
        { frame with data := LawfulDevice.block cache.device s }).mapFrame i fun frame =>
        { frame with dirty := false, valid := true }, ?_, (htransfer.mapFrame _).mapFrame _, hblock,
        LawfulDevice.block cache.device s, ?_, fun _ => rfl⟩
    · unfold fetch
      simp only [if_true, Action.bind_def, hread, Action.modify, Action.emit]
      rfl
    · rw [frame_mapFrame_self, frame_mapFrame_self, hframe]
  | overwrite =>
    refine ⟨cache.mapFrame i fun frame => { frame with dirty := false, valid := true }, ?_,
      Transfer.mapFrame ⟨rfl, rfl, rfl, fun _ _ => rfl, hd, rfl⟩ _, rfl, (cache.frame i).data, ?_, nofun⟩
    · unfold fetch
      simp only [reduceCtorEq, if_false, Action.bind_def, Action.modify, Action.emit]
      rfl
    · rw [frame_mapFrame_self]

/-- Bringing what a sector has left in a frame to the device. -/
theorem spill_eq {old : SectorId} (hd : LawfulDevice.Sound cache.device)
    (hold : old.toNat < BlockDevice.sectorCount cache.device) :
    ∃ cache', spill i old cache = ⟨.ok (), cache', []⟩ ∧ Transfer i cache cache' ∧
      cache'.frame i = { cache.frame i with dirty := false } ∧
      LawfulDevice.block cache'.device =
        Function.update (LawfulDevice.block cache.device) old (cache.frame i).data := by
  obtain ⟨written, hwrite, hframes, htransfer, hblock⟩ :=
    writeDevice_eq (i := i) (cache.frame i).data hd hold
  have hframe : written.frame i = cache.frame i := congrArg (Vector.get · i) hframes
  refine ⟨written.mapFrame i fun frame => { frame with dirty := false }, ?_, htransfer.mapFrame _, ?_,
    hblock⟩
  · unfold spill
    simp only [Action.bind_def, Action.get, hwrite, Action.modify]
    rfl
  · rw [frame_mapFrame_self, hframe]

/-! ## Claiming -/

/-- Frame `i`, which nobody has pinned, was taken out of its list. -/
structure Claimed (cache : Cache δ n) (i : Fin n) (claimed : Cache δ n) : Prop where
  frames : claimed.frames = cache.frames
  device : claimed.device = cache.device
  evicting : claimed.evicting = cache.evicting
  unpinned : (cache.frame i).pins = 0
  recency : claimed.recency ⊆ cache.recency
  free : claimed.free ⊆ cache.free
  lists : ((i :: claimed.recency) ++ claimed.free).Perm (cache.recency ++ cache.free)

omit [BlockDevice δ] [LawfulDevice δ] in
/-- Where some frame is not pinned, a frame can be had for a new sector. -/
theorem claim?_eq (hcovers : ∀ i, i ∈ cache.recency ∨ i ∈ cache.free)
    (hunused : ∀ i ∈ cache.free, (cache.frame i).pins = 0) (hfree : ∃ j, (cache.frame j).pins = 0) :
    ∃ i claimed, cache.claim? = some (i, claimed) ∧ Claimed cache i claimed := by
  unfold Cache.claim?
  cases hlist : cache.free with
  | cons i rest =>
    have hpins := hunused i (hlist ▸ List.mem_cons_self)
    refine ⟨i, { cache with free := rest }, rfl, rfl, rfl, rfl, hpins, List.Subset.refl _, ?_, ?_⟩
    · rw [hlist]
      exact List.subset_cons_self _ _
    · rw [hlist]
      exact List.perm_middle.symm
  | nil =>
    obtain ⟨j, hj⟩ := hfree
    have hmem : j ∈ cache.recency := by
      rcases hcovers j with h | h
      · exact h
      · rw [hlist] at h
        cases h
    cases hfind : cache.recency.reverse.find? fun i => (cache.frame i).pins == 0 with
    | none =>
      have := List.find?_eq_none.mp hfind j (List.mem_reverse.mpr hmem)
      rw [hj] at this
      exact absurd rfl this
    | some i =>
      have hi : i ∈ cache.recency := List.mem_reverse.mp (List.mem_of_find?_eq_some hfind)
      have hpins : (cache.frame i).pins = 0 := by
        have := List.find?_some hfind
        exact beq_iff_eq.mp this
      refine ⟨i, { cache with recency := cache.recency.erase i, free := [] }, rfl, rfl, rfl, rfl, hpins,
        List.erase_subset, List.nil_subset _, ?_⟩
      rw [hlist]
      exact (List.perm_cons_erase hi).symm.append_right _

/-! ## Handing over -/

/-- A frame once it was given to a sector: pinned, and not filled yet. -/
def givenFrame (s : SectorId) (frame : Frame) : Frame :=
  { frame with sector := some s, valid := false, pins := frame.pins + 1 }

/-- The cache once a claimed frame was given to a sector, with what is then on its way out. -/
def handOver (claimed : Cache δ n) (i : Fin n) (s : SectorId) (out : List (SectorId × Fin n)) :
    Cache δ n :=
  { claimed.mapFrame i (givenFrame s) with
    recency := i :: claimed.recency
    evicting := out }

/-- Frame `i` carries `s` now and is pinned once. No frame but this one changed. -/
structure Replaced (cache : Cache δ n) (s : SectorId) (i : Fin n) (cache' : Cache δ n) : Prop where
  unpinned : (cache.frame i).pins = 0
  first : i ∈ cache'.recency
  recency : cache'.recency ⊆ i :: cache.recency
  free : cache'.free ⊆ cache.free
  lists : (cache'.recency ++ cache'.free).Perm (cache.recency ++ cache.free)
  sector : (cache'.frame i).sector = some s
  pins : (cache'.frame i).pins = 1
  other : ∀ j, j ≠ i → cache'.frame j = cache.frame j
  device : LawfulDevice.Sound cache'.device
  count : BlockDevice.sectorCount cache'.device = BlockDevice.sectorCount cache.device

omit [BlockDevice δ] [LawfulDevice δ] in
theorem Claimed.frame_eq {claimed : Cache δ n} (h : Claimed cache i claimed) (j : Fin n) :
    claimed.frame j = cache.frame j := congrArg (Vector.get · j) h.frames

omit [BlockDevice δ] [LawfulDevice δ] in
/-- The frame that is given away still has the data of its old sector. -/
theorem Claimed.handOver_frame {claimed : Cache δ n} (h : Claimed cache i claimed)
    (out : List (SectorId × Fin n)) : (handOver claimed i s out).frame i =
      { cache.frame i with sector := some s, valid := false, pins := 1 } := by
  show (claimed.mapFrame i (givenFrame s)).frame i = _
  rw [frame_mapFrame_self, h.frame_eq, givenFrame, h.unpinned]

theorem Claimed.handOver_replaced {claimed : Cache δ n} (h : Claimed cache i claimed)
    (hd : LawfulDevice.Sound cache.device) (out : List (SectorId × Fin n)) :
    Replaced cache s i (handOver claimed i s out) where
  unpinned := h.unpinned
  first := List.mem_cons_self
  recency := List.cons_subset_cons i h.recency
  free := h.free
  lists := h.lists
  sector := by rw [h.handOver_frame]
  pins := by rw [h.handOver_frame]
  other j hj := (frame_mapFrame_of_ne claimed (givenFrame s) hj).trans (h.frame_eq j)
  device := show LawfulDevice.Sound claimed.device from h.device ▸ hd
  count := congrArg BlockDevice.sectorCount h.device

/-- A transfer for the frame leaves it with its sector and its pin. -/
theorem Replaced.transfer {cache'' : Cache δ n} (h : Replaced cache s i cache')
    (ht : Transfer i cache' cache'') (hsector : (cache''.frame i).sector = (cache'.frame i).sector)
    (hpins : (cache''.frame i).pins = (cache'.frame i).pins) : Replaced cache s i cache'' where
  unpinned := h.unpinned
  first := ht.recency ▸ h.first
  recency := ht.recency ▸ h.recency
  free := ht.free ▸ h.free
  lists := by
    rw [ht.recency, ht.free]
    exact h.lists
  sector := hsector.trans h.sector
  pins := hpins.trans h.pins
  other j hj := (ht.other j hj).trans (h.other j hj)
  device := ht.device
  count := ht.count.trans h.count

/-- What is on its way out does not matter. -/
theorem Replaced.settle (h : Replaced cache s i cache') (out : List (SectorId × Fin n)) :
    Replaced cache s i { cache' with evicting := out } :=
  ⟨h.unpinned, h.first, h.recency, h.free, h.lists, h.sector, h.pins, h.other, h.device, h.count⟩

/-! ## The cache afterwards -/

/-- A frame that carries a sector afterwards is the new one or carried the sector before. -/
theorem Replaced.carries {j : Fin n} {t : SectorId} (h : Replaced cache s i cache')
    (hj : cache'.Carries j t) : (j = i ∧ t = s) ∨ (j ≠ i ∧ cache.Carries j t) := by
  by_cases hji : j = i
  · subst hji
    have hs : some s = some t := h.sector.symm.trans hj.2
    exact Or.inl ⟨rfl, (Option.some.inj hs).symm⟩
  · rcases List.mem_cons.mp (h.recency hj.1) with he | hm
    · exact absurd he hji
    · exact Or.inr ⟨hji, hm, h.other j hji ▸ hj.2⟩

/-- The other frames go on carrying their sectors. -/
theorem Replaced.carries_of_ne {j : Fin n} {t : SectorId} (h : Replaced cache s i cache')
    (hnodup : (cache.recency ++ cache.free).Nodup) (hji : j ≠ i) (hj : cache.Carries j t) :
    cache'.Carries j t := by
  refine ⟨?_, h.other j hji ▸ hj.2⟩
  rcases List.mem_append.mp (h.lists.mem_iff.mpr (List.mem_append_left _ hj.1)) with hm | hm
  · exact hm
  · exact absurd rfl ((List.nodup_append.mp hnodup).2.2 j hj.1 j (h.free hm))

/-- Once the frame is filled and nothing is on its way out, the parts fit together again. -/
theorem Replaced.sound (h : Replaced cache s i cache') (hc : cache.Sound)
    (hs : s.toNat < BlockDevice.sectorCount cache.device) (hmiss : ∀ j, ¬ cache.Carries j s)
    (hvalid : (cache'.frame i).valid = true) (hevicting : cache'.evicting = []) : cache'.Sound where
  device := h.device
  nodup := h.lists.nodup_iff.mpr hc.nodup
  covers j := List.mem_append.mp (h.lists.mem_iff.mpr (List.mem_append.mpr (hc.covers j)))
  used j hj := by
    rw [h.count]
    by_cases hji : j = i
    · subst hji
      exact ⟨hvalid, s, h.sector, hs⟩
    · rw [h.other j hji]
      rcases List.mem_cons.mp (h.recency hj) with he | hm
      · exact absurd he hji
      · exact hc.used j hm
  unique {j k t} hj hk := by
    -- the new frame carries a sector that no frame carried before
    rcases h.carries hj with ⟨rfl, rfl⟩ | ⟨_, hj⟩
    · rcases h.carries hk with ⟨rfl, -⟩ | ⟨-, hk⟩
      · rfl
      · exact absurd hk (hmiss k)
    · rcases h.carries hk with ⟨-, rfl⟩ | ⟨-, hk⟩
      · exact absurd hj (hmiss j)
      · exact hc.unique hj hk
  unused j hj := by
    have hnodup : (cache'.recency ++ cache'.free).Nodup := h.lists.nodup_iff.mpr hc.nodup
    have hji : j ≠ i := by
      rintro rfl
      exact (List.nodup_append.mp hnodup).2.2 j h.first j hj rfl
    rw [h.other j hji]
    exact hc.unused j (h.free hj)
  evicting := hevicting

/-- The cache stands for the array it stood for, where the device has every sector by now that no other
    frame has newer data of, and the frame has the block of its sector unless that is the hole. -/
theorem Replaced.coherentOff {hole : Option SectorId} (h : Replaced cache s i cache')
    (hc : cache.Coherent a) (hsound : cache'.Sound)
    (hdata : hole ≠ some s → (cache'.frame i).data = a s)
    (hwritten : ∀ t : SectorId, t.toNat < BlockDevice.sectorCount cache.device →
      (∀ j, j ≠ i → cache.Carries j t → (cache.frame j).dirty = false) →
      LawfulDevice.block cache'.device t = a t) : cache'.CoherentOff hole a where
  toSound := hsound
  data {j t} hj ht := by
    rcases h.carries hj with ⟨rfl, rfl⟩ | ⟨hji, hj⟩
    · exact hdata ht
    · rw [h.other j hji]
      exact hc.data hj nofun
  clean {t} ht _ hall := by
    apply hwritten t (h.count ▸ ht)
    intro j hji hj
    rw [← h.other j hji]
    exact hall j (h.carries_of_ne hc.nodup hji hj)

end Replacement

end InodeStore.Cache
