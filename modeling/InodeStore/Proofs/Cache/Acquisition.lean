import InodeStore.Proofs.Cache.Replacement

/-!
# `Proofs.Cache.Acquisition` — getting a frame with a sector's content

`acquire` finds the frame of a sector or makes one. On a coherent cache with a frame that nobody has
pinned it does so (`acquire_coherent`), and `Acquired` is what it comes to: the cache still stands for
the same array, one frame carries the sector and is pinned once more, and the frames pinned before are
as they were. A dirty frame that is taken from its sector has reached the device by then.
-/

namespace InodeStore.Cache

section Acquisition

variable {δ : Type} {n : Nat} [BlockDevice δ] [LawfulDevice δ] {cache : Cache δ n} {a : SectorArray}
  {s : SectorId} {i : Fin n} {hole : Option SectorId}

/-! ## Access -/

/-- What an access comes to: the frame `i`, with one pin more, carries the sector. Other pinned frames
    are as they were. The block of a sector to be overwritten is not yet in its frame. -/
structure Acquired (cache : Cache δ n) (a : SectorArray) (fill : Fill) (s : SectorId) (i : Fin n)
    (cache' : Cache δ n) : Prop where
  coherent : cache'.CoherentOff (if fill = .overwrite then some s else none) a
  carries : cache'.Carries i s
  pins : ∀ j, (cache'.frame j).pins = (cache.frame j).pins + if j = i then 1 else 0
  held : ∀ j, 0 < (cache.frame j).pins → j ≠ i → cache'.frame j = cache.frame j
  /-- A frame that was pinned before is one that carried the sector. -/
  home : 0 < (cache.frame i).pins → cache.Carries i s
  count : BlockDevice.sectorCount cache'.device = BlockDevice.sectorCount cache.device

/-- With a hole, less is asked of the cache. -/
theorem CoherentOff.weaken (hc : cache.Coherent a) : cache.CoherentOff hole a where
  toSound := hc.toSound
  data hi _ := hc.data hi nofun
  clean hs _ hall := hc.clean hs nofun hall

/-- A sector in the cache is found there. -/
theorem acquire_hit (hc : cache.Coherent a) (fill : Fill) (hit : cache.frameOf? s = some i) :
    ∃ cache', acquire fill s cache = ⟨.ok i, cache', []⟩ ∧ Acquired cache a fill s i cache' := by
  have hi : cache.Carries i s := carries_of_frameOf? hit
  let touched : Cache δ n :=
    { cache with
      recency := i :: cache.recency.erase i
      accesses := cache.accesses + 1
      hits := cache.hits + 1 }
  have htouched : touched.Coherent a :=
    hc.rearrange rfl rfl rfl (List.perm_cons_erase hi.1).symm rfl
  refine ⟨touched.pin i, ?_, ?_, ?_, ?_, ?_, fun _ => hi, rfl⟩
  · unfold acquire
    rw [Action.bind_def]
    simp only [seek, hit]
    rfl
  · exact (CoherentOff.weaken htouched).mapPins List.mem_cons_self _
  · exact (carries_mapFrame rfl).mpr ⟨List.mem_cons_self, hi.2⟩
  · intro j
    show (Frame.pins (Cache.frame (mapFrame i _ touched) j)) = _
    rw [frame_mapFrame]
    by_cases h : j = i
    · subst h
      rw [if_pos rfl, if_pos rfl]
      rfl
    · rw [if_neg h, if_neg h]
      rfl
  · intro j _ hj
    exact frame_mapFrame_of_ne touched _ hj

/-! ## A miss -/

/-- A frame was given to the sector and filled; the device has what the frame's old sector had left in
    it. -/
theorem Replaced.acquired {fill : Fill} {cache' : Cache δ n} (h : Replaced cache s i cache')
    (hc : cache.Coherent a) (hs : s.toNat < BlockDevice.sectorCount cache.device)
    (hmiss : ∀ j, ¬ cache.Carries j s) (hvalid : (cache'.frame i).valid = true)
    (hevicting : cache'.evicting = []) (hdata : fill = .readThrough → (cache'.frame i).data = a s)
    (hwritten : ∀ t : SectorId, t.toNat < BlockDevice.sectorCount cache.device →
      (∀ j, j ≠ i → cache.Carries j t → (cache.frame j).dirty = false) →
      LawfulDevice.block cache'.device t = a t) : Acquired cache a fill s i cache' where
  coherent := by
    refine h.coherentOff hc (h.sound hc.toSound hs hmiss hvalid hevicting) ?_ hwritten
    intro hhole
    cases fill with
    | readThrough => exact hdata rfl
    | overwrite => exact absurd rfl hhole
  carries := ⟨h.first, h.sector⟩
  pins j := by
    by_cases hji : j = i
    · subst hji
      rw [if_pos rfl, h.pins, h.unpinned]
    · rw [if_neg hji, h.other j hji]
      rfl
  held j _ hji := h.other j hji
  home hpins := by
    have := h.unpinned
    omega
  count := h.count

omit [BlockDevice δ] [LawfulDevice δ] in
/-- The sector whose changed data are in a frame. -/
def leaving (cache : Cache δ n) (i : Fin n) : Option SectorId :=
  if (cache.frame i).dirty then (cache.frame i).sector else none

omit [BlockDevice δ] [LawfulDevice δ] in
/-- A sector that is neither in the cache nor on its way out is given a frame that nobody has pinned. -/
theorem seek_claimed (hmiss : cache.frameOf? s = none) (hout : cache.evicting.lookup s = none)
    (hcovers : ∀ i, i ∈ cache.recency ∨ i ∈ cache.free)
    (hunused : ∀ i ∈ cache.free, (cache.frame i).pins = 0) (hfree : ∃ j, (cache.frame j).pins = 0) :
    ∃ i claimed log, Claimed cache i claimed ∧
      Cache.claim? { cache with accesses := cache.accesses + 1 } = some (i, claimed) ∧
      seek s cache = ⟨.ok (.miss i (cache.leaving i)),
        handOver claimed i s (((cache.leaving i).map fun old => (old, i)).toList ++ cache.evicting),
        log⟩ := by
  let counted : Cache δ n := { cache with accesses := cache.accesses + 1 }
  obtain ⟨i, claimed, hclaim, h⟩ :=
    claim?_eq (show ∀ i, i ∈ counted.recency ∨ i ∈ counted.free from hcovers) hunused hfree
  have hclaimed : Claimed cache i claimed :=
    ⟨h.frames, h.device, h.evicting, h.unpinned, h.recency, h.free, h.lists⟩
  refine ⟨i, claimed, ((cache.frame i).sector.map fun old => Event.evicted old i.val).toList, hclaimed,
    hclaim, ?_⟩
  unfold seek
  simp only [hmiss, hout]
  rw [show Cache.claim? { cache with accesses := cache.accesses + 1 } = some (i, claimed) from hclaim]
  simp only [assign, hclaimed.frame_eq, hclaimed.evicting]
  rfl

/-- With one party nothing else is on its way out. -/
theorem seek_miss (hc : cache.Sound) (hmiss : cache.frameOf? s = none)
    (hfree : ∃ j, (cache.frame j).pins = 0) :
    ∃ i claimed log, Claimed cache i claimed ∧
      Cache.claim? { cache with accesses := cache.accesses + 1 } = some (i, claimed) ∧
      seek s cache = ⟨.ok (.miss i (cache.leaving i)),
        handOver claimed i s ((cache.leaving i).map fun old => (old, i)).toList, log⟩ := by
  have hout : cache.evicting.lookup s = none := by
    rw [hc.evicting]
    rfl
  obtain ⟨i, claimed, log, hclaimed, hclaim, hseek⟩ :=
    seek_claimed hmiss hout hc.covers (fun i hi => (hc.unused i hi).2.2.2) hfree
  rw [hc.evicting, List.append_nil] at hseek
  exact ⟨i, claimed, log, hclaimed, hclaim, hseek⟩

omit [LawfulDevice δ] in
/-- An access that displaces nothing fills its frame at once. -/
theorem acquire_of_clean_miss {fill : Fill} {given filled : Cache δ n} {log log' : List Event}
    (hseek : seek s cache = ⟨.ok (.miss i none), given, log⟩)
    (hfetch : fetch i s fill given = ⟨.ok (), filled, log'⟩) :
    acquire fill s cache = ⟨.ok i, filled, log ++ log'⟩ := by
  unfold acquire
  rw [Action.bind_def, hseek]
  simp only [Action.onFault, Action.bind_def, Action.pure_def, hfetch, List.append_nil]

omit [LawfulDevice δ] in
/-- An access that displaces changed data brings them to the device before it fills its frame. -/
theorem acquire_of_dirty_miss {fill : Fill} {old : SectorId} {given spilt filled : Cache δ n}
    {log log' log'' : List Event}
    (hseek : seek s cache = ⟨.ok (.miss i (some old)), given, log⟩)
    (hspill : spill i old given = ⟨.ok (), spilt, log'⟩)
    (hfetch : fetch i s fill
      { spilt with evicting := spilt.evicting.eraseP fun entry => entry.1 == old } =
        ⟨.ok (), filled, log''⟩) :
    acquire fill s cache = ⟨.ok i, filled, log ++ (log' ++ log'')⟩ := by
  unfold acquire
  rw [Action.bind_def, hseek]
  simp only [Action.onFault, Action.bind_def, Action.pure_def, hspill, settle, Action.modify, hfetch,
    List.append_nil, List.nil_append]

/-- A frame without changed data is filled at once: the device has all there is to its old sector. -/
theorem acquire_clean_miss {fill : Fill} {claimed : Cache δ n} {log : List Event}
    (hc : cache.Coherent a) (hs : s.toNat < BlockDevice.sectorCount cache.device)
    (hmiss : ∀ j, ¬ cache.Carries j s) (hdirty : (cache.frame i).dirty = false)
    (hclaimed : Claimed cache i claimed)
    (hseek : seek s cache = ⟨.ok (.miss i none), handOver claimed i s [], log⟩) :
    ∃ cache' log, acquire fill s cache = ⟨.ok i, cache', log⟩ ∧ Acquired cache a fill s i cache' := by
  have hgiven : Replaced cache s i (handOver claimed i s []) := hclaimed.handOver_replaced hc.device []
  obtain ⟨filled, hfetch, hfill, hsame, b, hframe, hb⟩ :=
    fetch_eq (i := i) (s := s) fill hgiven.device (hgiven.count ▸ hs)
  have hblock : LawfulDevice.block filled.device = LawfulDevice.block cache.device :=
    hsame.trans (congrArg LawfulDevice.block hclaimed.device)
  have hwritten : ∀ t : SectorId, t.toNat < BlockDevice.sectorCount cache.device →
      (∀ j, j ≠ i → cache.Carries j t → (cache.frame j).dirty = false) →
      LawfulDevice.block filled.device t = a t := by
    intro t ht hall
    rw [hblock]
    apply hc.clean ht nofun
    intro j hj
    by_cases hji : j = i
    · rw [hji]
      exact hdirty
    · exact hall j hji hj
  have hreplaced : Replaced cache s i filled :=
    hgiven.transfer hfill (by rw [hframe]) (by rw [hframe])
  refine ⟨filled, _, acquire_of_clean_miss hseek hfetch,
    hreplaced.acquired hc hs hmiss (by rw [hframe]) hfill.evicting ?_ hwritten⟩
  intro hfill
  rw [hframe]
  have hfresh := hwritten s hs fun j _ hj => absurd hj (hmiss j)
  exact (hb hfill).trans ((congrFun hsame s).symm.trans hfresh)

/-- Changed data of the frame's old sector reach the device before the frame is filled. -/
theorem acquire_dirty_miss {fill : Fill} {claimed : Cache δ n} {old : SectorId} {log : List Event}
    (hc : cache.Coherent a) (hs : s.toNat < BlockDevice.sectorCount cache.device)
    (hmiss : ∀ j, ¬ cache.Carries j s) (hold : cache.Carries i old)
    (hrange : old.toNat < BlockDevice.sectorCount cache.device) (hclaimed : Claimed cache i claimed)
    (hseek : seek s cache = ⟨.ok (.miss i (some old)), handOver claimed i s [(old, i)], log⟩) :
    ∃ cache' log, acquire fill s cache = ⟨.ok i, cache', log⟩ ∧ Acquired cache a fill s i cache' := by
  have hgiven : Replaced cache s i (handOver claimed i s [(old, i)]) :=
    hclaimed.handOver_replaced hc.device [(old, i)]
  obtain ⟨spilt, hspill, hout, hspilt, hput⟩ :=
    spill_eq (i := i) hgiven.device (hgiven.count ▸ hrange)
  -- nothing is on its way out once the old sector is on the device
  let settled : Cache δ n :=
    { spilt with evicting := spilt.evicting.eraseP fun entry => entry.1 == old }
  have hnone : settled.evicting = [] := by
    show spilt.evicting.eraseP _ = []
    rw [hout.evicting]
    simp [handOver]
  have hsettled : Replaced cache s i settled :=
    (hgiven.transfer hout (by rw [hspilt]) (by rw [hspilt])).settle _
  obtain ⟨filled, hfetch, hfill, hsame, b, hframe, hb⟩ :=
    fetch_eq (i := i) (s := s) fill hsettled.device (hsettled.count ▸ hs)
  have hblock : LawfulDevice.block filled.device =
      Function.update (LawfulDevice.block cache.device) old (a old) := by
    rw [← hc.data hold nofun, ← hclaimed.device]
    exact hsame.trans (hput.trans (by rw [hclaimed.handOver_frame]; rfl))
  have hwritten : ∀ t : SectorId, t.toNat < BlockDevice.sectorCount cache.device →
      (∀ j, j ≠ i → cache.Carries j t → (cache.frame j).dirty = false) →
      LawfulDevice.block filled.device t = a t := by
    intro t ht hall
    rw [hblock]
    by_cases hto : t = old
    · rw [hto, Function.update_self]
    · rw [Function.update_of_ne hto]
      apply hc.clean ht nofun
      intro j hj
      have hji : j ≠ i := by
        rintro rfl
        exact hto (hj.sector_eq hold)
      exact hall j hji hj
  have hreplaced : Replaced cache s i filled :=
    hsettled.transfer hfill (by rw [hframe]) (by rw [hframe])
  refine ⟨filled, _, acquire_of_dirty_miss hseek hspill hfetch,
    hreplaced.acquired hc hs hmiss (by rw [hframe]) (hfill.evicting.trans hnone) ?_ hwritten⟩
  intro hfill
  rw [hframe]
  have hfresh := hwritten s hs fun j _ hj => absurd hj (hmiss j)
  exact (hb hfill).trans ((congrFun hsame s).symm.trans hfresh)

/-- A sector that is not in the cache gets a frame, where some frame is not pinned. -/
theorem acquire_miss (hc : cache.Coherent a) (hs : s.toNat < BlockDevice.sectorCount cache.device)
    (hnone : cache.frameOf? s = none) (hfree : ∃ j, (cache.frame j).pins = 0) (fill : Fill) :
    ∃ i cache' log, acquire fill s cache = ⟨.ok i, cache', log⟩ ∧
      Acquired cache a fill s i cache' := by
  have hmiss : ∀ j, ¬ cache.Carries j s := not_carries_of_frameOf? hnone
  obtain ⟨i, claimed, log, hclaimed, -, hseek⟩ := seek_miss hc.toSound hnone hfree
  refine ⟨i, ?_⟩
  cases hdirty : (cache.frame i).dirty with
  | false =>
    have hleaving : cache.leaving i = none := by rw [leaving, hdirty]; rfl
    rw [hleaving] at hseek
    exact acquire_clean_miss hc hs hmiss hdirty hclaimed hseek
  | true =>
    have hi : i ∈ cache.recency := hc.mem_recency (Or.inl hdirty)
    obtain ⟨_, old, hold, hrange⟩ := hc.used i hi
    have hleaving : cache.leaving i = some old := by rw [leaving, hdirty]; exact hold
    rw [hleaving] at hseek
    exact acquire_dirty_miss hc hs hmiss ⟨hi, hold⟩ hrange hclaimed hseek

/-- **An access succeeds** where some frame is not pinned, and gives a frame with the sector. -/
theorem acquire_coherent (hc : cache.Coherent a) (fill : Fill)
    (hs : s.toNat < BlockDevice.sectorCount cache.device) (hfree : ∃ j, (cache.frame j).pins = 0) :
    ∃ i cache' log, acquire fill s cache = ⟨.ok i, cache', log⟩ ∧
      Acquired cache a fill s i cache' := by
  cases hit : cache.frameOf? s with
  | some i =>
    obtain ⟨cache', hrun, hacquired⟩ := acquire_hit hc fill hit
    exact ⟨i, cache', [], hrun, hacquired⟩
  | none => exact acquire_miss hc hs hit hfree fill

/-- What an access is known to have come to. -/
theorem acquired_of_eq {fill : Fill} {held : Cache δ n} {log : List Event} (hc : cache.Coherent a)
    (hs : s.toNat < BlockDevice.sectorCount cache.device) (hfree : ∃ j, (cache.frame j).pins = 0)
    (hrun : acquire fill s cache = ⟨.ok i, held, log⟩) : Acquired cache a fill s i held := by
  obtain ⟨j, cache', log', hrun', h⟩ := acquire_coherent hc fill hs hfree
  rw [hrun] at hrun'
  cases hrun'
  exact h

end Acquisition

end InodeStore.Cache
