import InodeStore.Proofs.Cache.Acquisition

/-!
# `Proofs.Cache.Operations` — the cache as an array of blocks

What each operation of the cache does to the array it stands for: `view_coherent` answers with a block,
`store_coherent` and `update_coherent` change one, `flush_coherent` and `reset_coherent` change none and
bring every block to the device. An operation leaves every frame that is pinned meanwhile as it was
(`Undisturbed`), so it may be made while other frames are held.
-/

namespace InodeStore.Cache

section Operations

variable {δ : Type} {n : Nat} [BlockDevice δ] [LawfulDevice δ] {cache : Cache δ n} {a : SectorArray}
  {s : SectorId} {i : Fin n} {hole : Option SectorId}

/-! ## Use of a frame -/

/-- What a complete operation leaves as it was: the pins, and all of a pinned frame. -/
structure Undisturbed (cache cache' : Cache δ n) : Prop where
  pins : ∀ j, (cache'.frame j).pins = (cache.frame j).pins
  held : ∀ j, 0 < (cache.frame j).pins → cache'.frame j = cache.frame j
  count : BlockDevice.sectorCount cache'.device = BlockDevice.sectorCount cache.device

omit [LawfulDevice δ] in
theorem Undisturbed.refl (cache : Cache δ n) : cache.Undisturbed cache :=
  ⟨fun _ => rfl, fun _ _ => rfl, rfl⟩

omit [LawfulDevice δ] in
theorem Undisturbed.trans {cache₁ cache₂ cache₃ : Cache δ n} (h : cache₁.Undisturbed cache₂)
    (h' : cache₂.Undisturbed cache₃) : cache₁.Undisturbed cache₃ where
  pins j := (h'.pins j).trans (h.pins j)
  held j hj := (h'.held j (h.pins j ▸ hj)).trans (h.held j hj)
  count := h'.count.trans h.count

omit [LawfulDevice δ] in
theorem Undisturbed.unpinned {cache' : Cache δ n} (h : cache.Undisturbed cache')
    (hc : cache.Unpinned) : cache'.Unpinned :=
  fun i => (h.pins i).trans (hc i)

omit [LawfulDevice δ] in
/-- Where no frame is pinned there is nothing but the pins to disturb. -/
theorem Unpinned.undisturbed {cache' : Cache δ n} (hc : cache.Unpinned)
    (hpins : ∀ j, (cache'.frame j).pins = (cache.frame j).pins)
    (hcount : BlockDevice.sectorCount cache'.device = BlockDevice.sectorCount cache.device) :
    cache.Undisturbed cache' :=
  ⟨hpins, fun j hj => absurd (hc j) (Nat.ne_of_gt hj), hcount⟩

variable {fill : Fill} {held used : Cache δ n}

/-- A frame that was acquired is pinned. -/
theorem Acquired.pinned (h : Acquired cache a fill s i held) : 0 < (held.frame i).pins := by
  rw [h.pins, if_pos rfl]
  omega

/-- The frame of a sector is the same after other operations. -/
theorem Acquired.carries_used (h : Acquired cache a fill s i held) (hu : held.Undisturbed used)
    (hsound : used.Sound) : used.Carries i s := by
  refine ⟨hsound.mem_recency (Or.inr ?_), ?_⟩
  · rw [hu.pins]
    exact h.pinned
  · rw [hu.held i h.pinned]
    exact h.carries.2

/-- After a frame was acquired, used and unpinned, the other pinned frames and all pins are as they were
    before. -/
theorem Acquired.release (h : Acquired cache a fill s i held) (hu : held.Undisturbed used)
    (hfree : ∀ j, 0 < (cache.frame j).pins → (cache.frame j).sector ≠ some s) {changed : Cache δ n}
    (hother : ∀ j, j ≠ i → changed.frame j = used.frame j)
    (hpins : (changed.frame i).pins = (used.frame i).pins)
    (hcount : changed.device = used.device) : cache.Undisturbed (changed.unpin i) where
  pins j := by
    rw [unpin, frame_mapFrame]
    by_cases hj : j = i
    · subst hj
      rw [if_pos rfl, hpins, hu.pins, h.pins, if_pos rfl]
      rfl
    · rw [if_neg hj, hother j hj, hu.pins, h.pins, if_neg hj]
      rfl
  held j hj := by
    have hji : j ≠ i := by
      rintro rfl
      exact hfree j hj (h.home hj).2
    have hpinned : 0 < (held.frame j).pins := by
      rw [h.pins, if_neg hji]
      exact hj
    rw [unpin, frame_mapFrame_of_ne _ _ hji, hother j hji, hu.held j hpinned, h.held j hj hji]
  count := (congrArg _ hcount).trans (hu.count.trans h.count)

/-- A frame that was acquired is let go. -/
theorem Acquired.letGo {a' : SectorArray} (h : Acquired cache a fill s i held)
    (hu : held.Undisturbed used) (hc : used.Coherent a')
    (hfree : ∀ j, 0 < (cache.frame j).pins → (cache.frame j).sector ≠ some s) :
    (used.unpin i).Coherent a' ∧ cache.Undisturbed (used.unpin i) :=
  ⟨hc.mapPins (h.carries_used hu hc.toSound).1 (· - 1), h.release hu hfree (fun _ _ => rfl) rfl rfl⟩

/-- A frame that was acquired is changed and let go, and the array changes with it. -/
theorem Acquired.amendFrame {a' : SectorArray} {b : Block} (h : Acquired cache a fill s i held)
    (change : Block → Block) (hu : held.Undisturbed used) (hc : used.CoherentOff hole a')
    (hole_eq : hole = none ∨ hole = some s) (hb : change (used.frame i).data = b)
    (hfree : ∀ j, 0 < (cache.frame j).pins → (cache.frame j).sector ≠ some s) :
    ∃ cache', amendFrame i change used = ⟨.ok (), cache', []⟩ ∧ (cache'.frame i).data = b ∧
      (cache'.unpin i).Coherent (Function.update a' s b) ∧ cache.Undisturbed (cache'.unpin i) := by
  have hi : used.Carries i s := h.carries_used hu hc.toSound
  refine ⟨_, rfl, ?_, (hc.amend hole_eq hi hb).mapPins hi.1 (· - 1), ?_⟩
  · rw [frame_mapFrame_self]
    exact hb
  · apply h.release hu hfree (fun _ hj => frame_mapFrame_of_ne _ _ hj) ?_ rfl
    rw [frame_mapFrame_self]

omit [LawfulDevice δ] in
/-- A frame is used once it was acquired, and unpinned after that. -/
theorem withFrame_eq {α : Type} {body : Fin n → Action (Cache δ n) α} {result : Except Fault α}
    {log log' : List Event} (hacquire : acquire fill s cache = ⟨.ok i, held, log⟩)
    (hbody : body i held = ⟨result, used, log'⟩) :
    withFrame fill s body cache = ⟨result, used.unpin i, log ++ log'⟩ := by
  unfold withFrame
  rw [Action.bind_def, hacquire]
  simp only [Action.always, hbody]

/-- **A view** answers with the block of the array. -/
theorem view_coherent (hc : cache.Coherent a) (hs : s.toNat < BlockDevice.sectorCount cache.device)
    (hroom : ∃ j, (cache.frame j).pins = 0)
    (hfree : ∀ j, 0 < (cache.frame j).pins → (cache.frame j).sector ≠ some s) :
    ∃ cache' log, view s cache = ⟨.ok (a s), cache', log⟩ ∧ cache'.Coherent a ∧
      cache.Undisturbed cache' := by
  obtain ⟨i, held, log, hrun, h⟩ := acquire_coherent hc .readThrough hs hroom
  have hcoherent : held.Coherent a := h.coherent
  refine ⟨held.unpin i, log ++ [], ?_, h.letGo (Undisturbed.refl _) hcoherent hfree⟩
  have hdata : frameData i held = ⟨.ok (a s), held, []⟩ := by
    show (⟨.ok (held.frame i).data, held, []⟩ : Reply (Cache δ n) Block) = _
    rw [hcoherent.data h.carries nofun]
  exact withFrame_eq hrun hdata

/-- **A store** replaces the block of the array. -/
theorem store_coherent (hc : cache.Coherent a) (b : Block)
    (hs : s.toNat < BlockDevice.sectorCount cache.device)
    (hroom : ∃ j, (cache.frame j).pins = 0)
    (hfree : ∀ j, 0 < (cache.frame j).pins → (cache.frame j).sector ≠ some s) :
    ∃ cache' log, store s b cache = ⟨.ok (), cache', log⟩ ∧
      cache'.Coherent (Function.update a s b) ∧ cache.Undisturbed cache' := by
  obtain ⟨i, held, log, hrun, h⟩ := acquire_coherent hc .overwrite hs hroom
  obtain ⟨cache', hamend, -, hcoherent, hsame⟩ :=
    h.amendFrame (fun _ => b) (Undisturbed.refl _) h.coherent (Or.inr rfl) rfl hfree
  exact ⟨_, _, withFrame_eq hrun hamend, hcoherent, hsame⟩

/-- **An update** changes the block of the array. -/
theorem update_coherent (hc : cache.Coherent a) (change : Block → Block)
    (hs : s.toNat < BlockDevice.sectorCount cache.device)
    (hroom : ∃ j, (cache.frame j).pins = 0)
    (hfree : ∀ j, 0 < (cache.frame j).pins → (cache.frame j).sector ≠ some s) :
    ∃ cache' log, update s change cache = ⟨.ok (), cache', log⟩ ∧
      cache'.Coherent (Function.update a s (change (a s))) ∧ cache.Undisturbed cache' := by
  obtain ⟨i, held, log, hrun, h⟩ := acquire_coherent hc .readThrough hs hroom
  have hdata : (held.frame i).data = a s := h.coherent.data h.carries nofun
  obtain ⟨cache', hamend, -, hcoherent, hsame⟩ :=
    h.amendFrame change (Undisturbed.refl _) h.coherent (Or.inl rfl) (congrArg change hdata) hfree
  exact ⟨_, _, withFrame_eq hrun hamend, hcoherent, hsame⟩

/-! ## Work on all frames -/

/-- Writing a dirty frame back is one write of the device. -/
theorem writeBack_eq (hd : LawfulDevice.Sound cache.device) (hdirty : (cache.frame i).dirty = true)
    (hs : (cache.frame i).sector = some s) (hrange : s.toNat < BlockDevice.sectorCount cache.device) :
    ∃ cache' log, writeBack i cache = ⟨.ok (), cache', log⟩ ∧ Transfer i cache cache' ∧
      cache'.frame i = { cache.frame i with dirty := false } ∧
      LawfulDevice.block cache'.device =
        Function.update (LawfulDevice.block cache.device) s (cache.frame i).data := by
  obtain ⟨written, hwrite, hframes, htransfer, hblock⟩ :=
    writeDevice_eq (i := i) (cache.frame i).data hd hrange
  have hframe : written.frame i = cache.frame i := congrArg (Vector.get · i) hframes
  refine ⟨written.mapFrame i fun frame => { frame with dirty := false }, [.writtenBack s], ?_,
    htransfer.mapFrame _, ?_, hblock⟩
  · unfold writeBack
    simp only [Action.bind_def, Action.get, hdirty, if_true, hs, Action.emit, hwrite, Action.modify]
    rfl
  · rw [frame_mapFrame_self, hframe]

/-- A frame whose block was written to the device may be called clean. -/
theorem Transfer.coherent {cache' : Cache δ n} (h : Transfer i cache cache') (hc : cache.Coherent a)
    (hi : cache.Carries i s) (hframe : cache'.frame i = { cache.frame i with dirty := false })
    (hblock : LawfulDevice.block cache'.device =
      Function.update (LawfulDevice.block cache.device) s (a s)) : cache'.Coherent a := by
  have hsame : ∀ j, (cache'.frame j).sector = (cache.frame j).sector ∧
      (cache'.frame j).valid = (cache.frame j).valid ∧
      (cache'.frame j).data = (cache.frame j).data := by
    intro j
    by_cases hj : j = i
    · rw [hj, hframe]
      exact ⟨rfl, rfl, rfl⟩
    · rw [h.other j hj]
      exact ⟨rfl, rfl, rfl⟩
  have hcarries : ∀ {j t}, cache'.Carries j t ↔ cache.Carries j t := by
    intro j t
    unfold Carries
    rw [(hsame j).1, h.recency]
  refine ⟨hc.congr (h.recency ▸ List.Perm.refl _) h.free h.evicting h.device h.count
    (fun j => (hsame j).1) (fun j => (hsame j).2.1) ?_, ?_, ?_⟩
  · intro j hj
    exact h.other j fun he => hc.not_mem_free (he ▸ hi.1) hj
  · intro j t hj _
    rw [(hsame j).2.2]
    exact hc.data (hcarries.mp hj) nofun
  · intro t ht _ hall
    rw [hblock]
    -- the sector of the frame was just written; any other was clean before
    by_cases hts : t = s
    · rw [hts, Function.update_self]
    · rw [Function.update_of_ne hts]
      refine hc.clean (h.count ▸ ht) nofun ?_
      intro j hj
      have hji : j ≠ i := by
        rintro rfl
        exact hts (hj.sector_eq hi)
      rw [← h.other j hji]
      exact hall j (hcarries.mpr hj)

/-- Writing a frame back brings its block to the device and makes it clean. -/
theorem writeBack_coherent (hc : cache.Coherent a) (hi : i ∈ cache.recency) :
    ∃ cache' log, writeBack i cache = ⟨.ok (), cache', log⟩ ∧ Transfer i cache cache' ∧
      cache'.frame i = { cache.frame i with dirty := false } ∧ cache'.Coherent a := by
  cases hdirty : (cache.frame i).dirty with
  | false =>
    refine ⟨cache, [], ?_, ⟨rfl, rfl, rfl, fun _ _ => rfl, hc.device, rfl⟩, ?_, hc⟩
    · unfold writeBack
      simp only [Action.bind_def, Action.get, hdirty]
      rfl
    · rw [← hdirty]
  | true =>
    obtain ⟨_, s, hs, hrange⟩ := hc.used i hi
    obtain ⟨cache', log, hrun, htransfer, hframe, hblock⟩ := writeBack_eq hc.device hdirty hs hrange
    rw [hc.data ⟨hi, hs⟩ (Option.some_ne_none s).symm] at hblock
    exact ⟨cache', log, hrun, htransfer, hframe, htransfer.coherent hc ⟨hi, hs⟩ hframe hblock⟩

/-- Writing frames back makes them clean and leaves the others as they were. -/
theorem writeBackAll_coherent {frames : List (Fin n)} (hc : cache.Coherent a)
    (hframes : frames ⊆ cache.recency) :
    ∃ cache' log, writeBackAll frames cache = ⟨.ok (), cache', log⟩ ∧ cache'.Coherent a ∧
      cache'.recency = cache.recency ∧
      BlockDevice.sectorCount cache'.device = BlockDevice.sectorCount cache.device ∧
      ∀ j, cache'.frame j = { cache.frame j with
        dirty := (cache.frame j).dirty && decide (j ∉ frames) } := by
  -- a frame listed twice is clean the second time
  induction frames generalizing cache with
  | nil => exact ⟨cache, [], rfl, hc, rfl, rfl, fun j => by simp⟩
  | cons i rest ih =>
    obtain ⟨first, log, hfirst, htransfer, hframe, hcoherent⟩ :=
      writeBack_coherent hc (hframes List.mem_cons_self)
    obtain ⟨last, log', hlast, hcoherent', hrecency, hcount, hall⟩ := ih hcoherent
      fun j hj => htransfer.recency ▸ hframes (List.mem_cons_of_mem _ hj)
    refine ⟨last, log ++ log', ?_, hcoherent', hrecency.trans htransfer.recency,
      hcount.trans htransfer.count, ?_⟩
    · unfold writeBackAll
      simp only [Action.bind_def, hfirst, hlast]
    · intro j
      rw [hall]
      by_cases hji : j = i
      · rw [hji, hframe]
        simp
      · rw [htransfer.other j hji]
        simp [hji]

/-- **A flush** changes no block and leaves every frame clean. -/
theorem flush_coherent (hc : cache.Coherent a) :
    ∃ cache' log, flush cache = ⟨.ok (), cache', log⟩ ∧ cache'.Coherent a ∧
      cache'.recency = cache.recency ∧
      BlockDevice.sectorCount cache'.device = BlockDevice.sectorCount cache.device ∧
      ∀ j, cache'.frame j = { cache.frame j with dirty := false } := by
  obtain ⟨cache', log, hrun, hcoherent, hrecency, hcount, hall⟩ :=
    writeBackAll_coherent hc fun j (hj : j ∈ cache.recency.reverse) => List.mem_reverse.mp hj
  refine ⟨cache', log, hrun, hcoherent, hrecency, hcount, ?_⟩
  intro j
  rw [hall]
  cases hdirty : (cache.frame j).dirty with
  | false => rfl
  | true => simp [hc.mem_recency (Or.inl hdirty)]

/-- Where every frame is clean, the device has every block. -/
theorem CoherentOff.block_eq (hc : cache.Coherent a) (hclean : ∀ j, (cache.frame j).dirty = false)
    (hs : s.toNat < BlockDevice.sectorCount cache.device) :
    LawfulDevice.block cache.device s = a s :=
  hc.clean hs nofun fun j _ => hclean j

omit [BlockDevice δ] [LawfulDevice δ] in
/-- Taking frames from their sectors changes nothing else. -/
theorem foldl_mapFrame (frames : List (Fin n)) (change : Frame → Frame)
    (hchange : ∀ frame, change (change frame) = change frame) (cache : Cache δ n) :
    let cache' := frames.foldl (fun cache i => cache.mapFrame i change) cache
    cache'.device = cache.device ∧ cache'.recency = cache.recency ∧ cache'.free = cache.free ∧
      cache'.evicting = cache.evicting ∧
      ∀ j, cache'.frame j = if j ∈ frames then change (cache.frame j) else cache.frame j := by
  induction frames generalizing cache with
  | nil => exact ⟨rfl, rfl, rfl, rfl, fun j => by simp⟩
  | cons i rest ih =>
    obtain ⟨hdevice, hrecency, hfree, hevicting, hall⟩ := ih (cache.mapFrame i change)
    refine ⟨hdevice, hrecency, hfree, hevicting, ?_⟩
    intro j
    rw [List.foldl_cons, hall, frame_mapFrame]
    by_cases hji : j = i
    · subst hji
      simp [hchange]
    · simp [hji]

omit [BlockDevice δ] [LawfulDevice δ] in
/-- Does a frame stay with its sector when the cache forgets? -/
def keeps (cache : Cache δ n) (i : Fin n) : Bool := (cache.frame i).pins != 0 || (cache.frame i).dirty

/-- The frames in use that nothing keeps were taken from their sectors, and the others are as they
    were. -/
structure Forgotten (cache cache' : Cache δ n) : Prop where
  device : cache'.device = cache.device
  evicting : cache'.evicting = cache.evicting
  lists : (cache'.recency ++ cache'.free).Perm (cache.recency ++ cache.free)
  recency : ∀ {j}, j ∈ cache'.recency ↔ j ∈ cache.recency ∧ cache.keeps j = true
  kept : ∀ {j}, j ∈ cache'.recency ∨ j ∈ cache.free → cache'.frame j = cache.frame j
  dropped : ∀ {j}, j ∈ cache.recency → cache.keeps j = false →
    cache'.frame j = { cache.frame j with sector := none, valid := false }

omit [BlockDevice δ] [LawfulDevice δ] in
theorem forget_eq (hnodup : (cache.recency ++ cache.free).Nodup) :
    ∃ cache' log, forget cache = ⟨.ok (), cache', log⟩ ∧ Forgotten cache cache' := by
  let kept := cache.recency.filter cache.keeps
  let dropped := cache.recency.filter fun i => !cache.keeps i
  let drop (frame : Frame) : Frame := { frame with sector := none, valid := false }
  let emptied := dropped.foldl (fun cache i => cache.mapFrame i drop) cache
  let cache' : Cache δ n :=
    { emptied with
      recency := kept, free := dropped ++ emptied.free
      accesses := 0, hits := 0, deviceReads := 0, deviceWrites := 0 }
  obtain ⟨hdevice, -, hfree, hevicting, hall⟩ := foldl_mapFrame dropped drop (fun _ => rfl) cache
  have hframe : ∀ j, cache'.frame j = if j ∈ dropped then drop (cache.frame j) else cache.frame j :=
    hall
  have hmem : ∀ j, j ∈ dropped ↔ j ∈ cache.recency ∧ cache.keeps j = false := by
    intro j
    rw [List.mem_filter, Bool.not_eq_true']
  have hrun : forget cache = ⟨.ok (), cache', [.cacheReset kept.length]⟩ := by
    unfold forget
    rw [List.partition_eq_filter_filter]
    rfl
  refine ⟨cache', _, hrun, hdevice, hevicting, ?_, List.mem_filter, ?_, ?_⟩
  · show (kept ++ (dropped ++ emptied.free)).Perm _
    rw [hfree, ← List.append_assoc]
    exact (List.filter_append_perm cache.keeps cache.recency).append_right _
  · intro j hj
    rw [hframe, if_neg]
    intro hd
    obtain ⟨hused, hdrop⟩ := (hmem j).mp hd
    rcases hj with hk | hf
    · rw [(List.mem_filter.mp hk).2] at hdrop
      cases hdrop
    · exact (List.nodup_append.mp hnodup).2.2 j hused j hf rfl
  · intro j hj hkeeps
    rw [hframe, if_pos ((hmem j).mpr ⟨hj, hkeeps⟩)]

omit [BlockDevice δ] [LawfulDevice δ] in
theorem Forgotten.carries {cache' : Cache δ n} (h : Forgotten cache cache') {j : Fin n} {t : SectorId}
    (hj : cache'.Carries j t) : cache.Carries j t :=
  ⟨(h.recency.mp hj.1).1, h.kept (Or.inl hj.1) ▸ hj.2⟩

theorem Forgotten.sound {cache' : Cache δ n} (h : Forgotten cache cache') (hc : cache.Sound) :
    cache'.Sound where
  device := h.device ▸ hc.device
  nodup := h.lists.nodup_iff.mpr hc.nodup
  covers j := List.mem_append.mp (h.lists.mem_iff.mpr (List.mem_append.mpr (hc.covers j)))
  used j hj := by
    rw [h.kept (Or.inl hj), h.device]
    exact hc.used j (h.recency.mp hj).1
  unique hj hk := hc.unique (h.carries hj) (h.carries hk)
  unused j hj := by
    rcases hc.covers j with hused | hfree
    · -- it was in use, and is free now because nothing kept it
      have hkeeps : cache.keeps j = false := by
        apply Bool.eq_false_iff.mpr
        intro hk
        have hnodup := h.lists.nodup_iff.mpr hc.nodup
        exact (List.nodup_append.mp hnodup).2.2 j (h.recency.mpr ⟨hused, hk⟩) j hj rfl
      rw [h.dropped hused hkeeps]
      simp only [keeps, Bool.or_eq_false_iff, bne_eq_false_iff_eq] at hkeeps
      exact ⟨rfl, rfl, hkeeps.2, hkeeps.1⟩
    · rw [h.kept (Or.inr hfree)]
      exact hc.unused j hfree
  evicting := h.evicting.trans hc.evicting

/-- A frame that is taken from its sector held nothing that the device does not hold. -/
theorem Forgotten.coherent {cache' : Cache δ n} (h : Forgotten cache cache') (hc : cache.Coherent a) :
    cache'.Coherent a where
  toSound := h.sound hc.toSound
  data hj _ := by
    rw [h.kept (Or.inl hj.1)]
    exact hc.data (h.carries hj) nofun
  clean ht _ hclean := by
    rw [h.device] at ht ⊢
    apply hc.clean ht nofun
    intro j hj
    cases hk : cache.keeps j with
    | true =>
      have hused : j ∈ cache'.recency := h.recency.mpr ⟨hj.1, hk⟩
      rw [← h.kept (Or.inl hused)]
      exact hclean j ⟨hused, h.kept (Or.inl hused) ▸ hj.2⟩
    | false =>
      simp only [keeps, Bool.or_eq_false_iff] at hk
      exact hk.2

omit [BlockDevice δ] [LawfulDevice δ] in
/-- Pins and dirt stay where they are. -/
theorem Forgotten.frame {cache' : Cache δ n} (h : Forgotten cache cache')
    (hcovers : ∀ j, j ∈ cache.recency ∨ j ∈ cache.free) (j : Fin n) :
    (cache'.frame j).pins = (cache.frame j).pins ∧ (cache'.frame j).dirty = (cache.frame j).dirty := by
  rcases hcovers j with hused | hfree
  · cases hk : cache.keeps j with
    | true =>
      rw [h.kept (Or.inl (h.recency.mpr ⟨hused, hk⟩))]
      exact ⟨rfl, rfl⟩
    | false =>
      rw [h.dropped hused hk]
      exact ⟨rfl, rfl⟩
  · rw [h.kept (Or.inr hfree)]
    exact ⟨rfl, rfl⟩

/-- **A reset** changes no block and leaves every frame clean. -/
theorem reset_coherent (hc : cache.Coherent a) :
    ∃ cache' log, reset cache = ⟨.ok (), cache', log⟩ ∧ cache'.Coherent a ∧
      BlockDevice.sectorCount cache'.device = BlockDevice.sectorCount cache.device ∧
      (∀ j, (cache'.frame j).pins = (cache.frame j).pins) ∧ ∀ j, (cache'.frame j).dirty = false := by
  obtain ⟨flushed, log, hflush, hflushed, -, hcount, hclean⟩ := flush_coherent hc
  obtain ⟨cache', log', hforget, h⟩ := forget_eq hflushed.nodup
  refine ⟨cache', log ++ log', ?_, h.coherent hflushed, h.device ▸ hcount, ?_, ?_⟩
  · unfold reset
    simp only [Action.bind_def, hflush, hforget]
  · intro j
    rw [(h.frame hflushed.covers j).1, hclean]
  · intro j
    rw [(h.frame hflushed.covers j).2, hclean]

end Operations

end InodeStore.Cache
