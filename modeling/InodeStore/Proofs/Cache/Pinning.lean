import InodeStore.Proofs.Cache.Nesting

/-!
# `Proofs.Cache.Pinning` — sectors asked for while others are held

While a party holds sectors of the device, it may ask for further ones as long as there are more frames than
sectors held, and not any longer (`acquire_exhausted`). A frame for a sector that has none is a free one, or
else that of the sector used longest ago of those not held (`Stage.LeastRecent`). What is held stays as it
is. So a tree of requests is answered if and only if it is no deeper than there are frames left, and either
way it leaves the frames that are held, and all pins, as they were (`run_deep`).
-/

namespace InodeStore.Cache

/-! ## Trees of requests -/

namespace Request

mutual

/-- A request for sectors of a device with `count` of them, with further ones made meanwhile, while the
    sectors `held` are held. None is for a sector that is held. -/
def Nests (count : Nat) (held : List SectorId) : Request → Prop
  | .read s | .write s _ => s.toNat < count ∧ s ∉ held
  | .map s inner | .update s _ inner => (s.toNat < count ∧ s ∉ held) ∧ NestsAll count (s :: held) inner
  | _ => False

/-- Such requests, one after the other. -/
def NestsAll (count : Nat) (held : List SectorId) : List Request → Prop
  | [] => True
  | request :: rest => Nests count held request ∧ NestsAll count held rest

end

mutual

/-- How many sectors are held at once for a request. -/
def depth : Request → Nat
  | .read _ | .write _ _ => 1
  | .map _ inner | .update _ _ inner => depthAll inner + 1
  | _ => 0

/-- How many sectors are held at once for requests made one after the other. -/
def depthAll : List Request → Nat
  | [] => 0
  | request :: rest => max (depth request) (depthAll rest)

end

mutual

theorem Nests.fits {count n : Nat} {held : List SectorId} {r : Request} (h : r.Nests count held)
    (hdepth : held.length + r.depth ≤ n) : r.Fits count n held := by
  match r with
  | .read s | .write s b =>
    rw [Nests] at h
    rw [depth] at hdepth
    rw [Fits]
    exact ⟨h.1, h.2, by omega⟩
  | .map s inner | .update s change inner =>
    rw [Nests] at h
    rw [depth] at hdepth
    rw [Fits]
    refine ⟨⟨h.1.1, h.1.2, by omega⟩, NestsAll.fits h.2 ?_⟩
    rw [List.length_cons]
    omega
  | .flush | .reset | .inspect | .sample | .sinceSample => exact absurd h (by simp [Nests])

theorem NestsAll.fits {count n : Nat} {held : List SectorId} {rs : List Request}
    (h : NestsAll count held rs) (hdepth : held.length + depthAll rs ≤ n) : FitAll count n held rs := by
  match rs with
  | [] => trivial
  | r :: rest =>
    rw [NestsAll] at h
    rw [depthAll] at hdepth
    rw [FitAll]
    exact ⟨h.1.fits (by omega), NestsAll.fits h.2 (by omega)⟩

end

mutual

theorem Nests.stays {count : Nat} {held : List SectorId} {r : Request} (h : r.Nests count held) :
    r.Stays held := by
  match r with
  | .read s | .write s b =>
    rw [Nests] at h
    rw [Stays]
    exact h.2
  | .map s inner | .update s change inner =>
    rw [Nests] at h
    rw [Stays]
    exact ⟨h.1.2, NestsAll.stays h.2⟩
  | .flush | .reset | .inspect | .sample | .sinceSample => exact absurd h (by simp [Nests])

theorem NestsAll.stays {count : Nat} {held : List SectorId} {rs : List Request}
    (h : NestsAll count held rs) : StaysAll held rs := by
  match rs with
  | [] => trivial
  | r :: rest =>
    rw [NestsAll] at h
    rw [StaysAll]
    exact ⟨h.1.stays, NestsAll.stays h.2⟩

end

end Request

/-! ## Frames that are left -/

section Frames

variable {δ : Type} {n : Nat} {p : Stage δ n} {s t : SectorId} {i j : Fin n}

/-- The sector is the one used longest ago of those in the cache that are not held. -/
structure Stage.LeastRecent (p : Stage δ n) (t : SectorId) : Prop where
  cached : p.cache.isCached t = true
  free : t ∉ p.sectors
  asked : t ∈ p.past
  /-- Every other one was asked for since then. -/
  oldest : ∀ u, p.cache.isCached u = true → u ∉ p.sectors → u ≠ t → p.past.idxOf u < p.past.idxOf t

namespace Stage.Steady

/-- Sectors that are held are in different frames. -/
theorem frames_nodup (h : p.Steady) : (p.held.map Hold.frame).Nodup := by
  have hdistinct := h.distinct
  refine List.Nodup.map_on (fun first hfirst second hsecond hframe => ?_) hdistinct.of_map
  refine List.inj_on_of_nodup_map hdistinct hfirst hsecond ?_
  exact (h.carries first hfirst).sector_eq (hframe ▸ h.carries second hsecond)

/-- No more sectors are held than there are frames. -/
theorem depth_le (h : p.Steady) : p.held.length ≤ n := by
  have hle := h.frames_nodup.length_le_card
  rwa [List.length_map, Fintype.card_fin] at hle

theorem pinnedBy (h : p.Steady) : p.cache.PinnedBy p.sectors := by
  intro j hj
  obtain ⟨hold, hhold, rfl⟩ := h.pinned_iff.mp hj
  exact ⟨hold.sector, List.mem_map_of_mem hhold, (h.carries hold hhold).2⟩

/-- The sector of a pinned frame is held. -/
theorem sector_held (h : p.Steady) (hj : 0 < (p.cache.frame j).pins) (ht : p.cache.Carries j t) :
    t ∈ p.sectors := by
  obtain ⟨hold, hhold, rfl⟩ := h.pinned_iff.mp hj
  rw [ht.sector_eq (h.carries hold hhold)]
  exact List.mem_map_of_mem hhold

/-- The sector of a frame that is not pinned is not held. -/
theorem sector_not_held (h : p.Steady) (hj : (p.cache.frame j).pins = 0) (ht : p.cache.Carries j t) :
    t ∉ p.sectors := by
  intro hmem
  obtain ⟨hold, hhold, rfl⟩ := List.mem_map.mp hmem
  have hframe : hold.frame = j := h.fitted.unique (h.carries hold hhold) ht
  have := h.pinned_iff.mpr ⟨hold, hhold, hframe⟩
  omega

/-- Where as many sectors are held as there are frames, every frame is pinned. -/
theorem pinned_of_full (h : p.Steady) (hfull : p.held.length = n) (j : Fin n) :
    0 < (p.cache.frame j).pins := by
  have hall : (p.held.map Hold.frame).toFinset = Finset.univ := by
    refine Finset.eq_univ_of_card _ ?_
    rw [List.toFinset_card_of_nodup h.frames_nodup, List.length_map, hfull, Fintype.card_fin]
  have hj : j ∈ p.held.map Hold.frame := List.mem_toFinset.mp (hall ▸ Finset.mem_univ j)
  obtain ⟨hold, hhold, hframe⟩ := List.mem_map.mp hj
  exact h.pinned_iff.mpr ⟨hold, hhold, hframe⟩

/-- The frame given away where none is free is that of the sector used longest ago of those not held. -/
theorem leastRecent (h : p.Steady)
    (hlast : (p.cache.recency.reverse.find? fun j => (p.cache.frame j).pins == 0) = some i)
    (hi : p.cache.Carries i t) : p.LeastRecent t := by
  obtain ⟨hpins, after, before, hreverse, hafter⟩ := List.find?_eq_some_iff_append.mp hlast
  have hpins : (p.cache.frame i).pins = 0 := beq_iff_eq.mp hpins
  have hsplit : p.cache.recency = before.reverse ++ i :: after.reverse := by
    rw [← List.reverse_reverse p.cache.recency, hreverse]
    simp
  have hcached : p.cache.isCached t = true := isCached_iff_mem.mpr (mem_sectors.mpr ⟨i, hi⟩)
  refine ⟨hcached, h.sector_not_held hpins hi, h.known t (isCached_iff_mem.mp hcached), ?_⟩
  intro u hu hfree hut
  obtain ⟨j, hj⟩ := mem_sectors.mp (isCached_iff_mem.mp hu)
  have hji : j ≠ i := by
    rintro rfl
    exact hut (hj.sector_eq hi)
  -- what comes later in the order is pinned, so the other sector comes earlier
  have hearlier : j ∈ before.reverse := by
    have hmem := hj.1
    rw [hsplit, List.mem_append, List.mem_cons] at hmem
    rcases hmem with hmem | rfl | hmem
    · exact hmem
    · exact absurd rfl hji
    · have hpinned : 0 < (p.cache.frame j).pins := by
        simpa [Nat.pos_iff_ne_zero] using hafter j (List.mem_reverse.mp hmem)
      exact absurd (h.sector_held hpinned hj) hfree
  have hranked := h.ranked
  rw [Cache.sectors, hsplit, List.filterMap_append, List.pairwise_append] at hranked
  refine hranked.2.2 u (List.mem_filterMap.mpr ⟨j, hearlier, hj.2⟩) t ?_
  exact List.mem_filterMap.mpr ⟨i, List.mem_cons_self, hi.2⟩

end Stage.Steady

end Frames

/-! ## Accesses -/

section Accesses

variable {δ : Type} {n : Nat} [BlockDevice δ] {p q : Stage δ n} {s : SectorId} {i : Fin n} {fill : Fill}

/-- **Where every frame is held there is none for another sector.** -/
theorem acquire_exhausted (h : p.Steady) (hs : s ∉ p.sectors) (hfull : p.held.length = n) :
    acquire fill s p.cache =
      ⟨.error .framesExhausted, { p.cache with accesses := p.cache.accesses + 1 }, []⟩ := by
  have hpinned := h.pinned_of_full hfull
  have hmiss : p.cache.frameOf? s = none := by
    cases hfind : p.cache.frameOf? s with
    | none => rfl
    | some j => exact absurd (h.sector_held (hpinned j) (carries_of_frameOf? hfind)) hs
  have hclaim : claim? { p.cache with accesses := p.cache.accesses + 1 } = none := by
    cases hclaim : claim? { p.cache with accesses := p.cache.accesses + 1 } with
    | none => rfl
    | some claimed =>
      have hpins := (claim?_eq_some (show _ = some (claimed.1, claimed.2) from hclaim)).1.pins h.fitted
      exact absurd hpins (Nat.ne_of_gt (hpinned claimed.1))
  unfold acquire
  rw [Action.bind_def, seek_of_exhausted hmiss h.fitted.evicting hclaim]

variable [LawfulDevice δ] {a : SectorArray}

/-- An access that ends well, whether or not there was a frame left. -/
theorem acquired_of_ok {cache taken : Cache δ n} {log : List Event} (hc : cache.Coherent a)
    (hs : s.toNat < BlockDevice.sectorCount cache.device)
    (hrun : acquire fill s cache = ⟨.ok i, taken, log⟩) : Acquired cache a fill s i taken := by
  rcases acquire_ok hc.evicting hrun with ⟨hit, -⟩ | ⟨-, h⟩
  · obtain ⟨found, hfound, hacquired⟩ := acquire_hit hc fill hit
    rw [hrun] at hfound
    cases hfound
    exact hacquired
  · exact acquired_of_eq hc hs ⟨i, h.unpinned hc.toSound.fitted⟩ hrun

/-- A cache with a device of `count` sectors that stands for the array of its stage. -/
structure Stage.Backed (count : Nat) (p : Stage δ n) : Prop extends p.cache.Coherent p.array where
  size : BlockDevice.sectorCount p.cache.device = count

variable {count : Nat}

theorem Stage.Backed.enter {taken : Cache δ n} (purpose : Purpose) (h : p.Backed count)
    (ht : Acquired p.cache p.array purpose.fill s i taken) : (p.enter purpose s i taken).Backed count := by
  cases purpose with
  | look => exact ⟨ht.coherent, ht.count.trans h.size⟩
  | amend => exact ⟨ht.touch.coherent, ht.count.trans h.size⟩
  | replace b =>
    have hamended (change : Block → Block) (hb : change (taken.frame i).data = b) :
        (amendFrame i change taken).state.Coherent (Function.update p.array s b) :=
      CoherentOff.amend ht.coherent (Or.inr rfl) ht.carries hb
    exact ⟨hamended (fun _ => b) rfl, ht.count.trans h.size⟩

/-- **Every step** leaves a cache that stands for the array, if it is for sectors of the device. -/
theorem Step.backed (hstep : Step p q) (hp : p.Steady) (h : p.Backed count)
    (hin : ∀ ask ∈ q.asked, ask.sector.toNat < count) : q.Backed count := by
  cases hstep with
  | enter purpose hs hrun =>
    have hrange := hin _ (List.mem_append_left _ List.mem_cons_self)
    exact h.enter purpose (acquired_of_ok h.toCoherentOff (h.size ▸ hrange) hrun)
  | @amend hold hheld hpurpose change =>
    have hi := hp.carries hold hheld
    exact ⟨h.toCoherentOff.amend (Or.inl rfl) hi (congrArg change (h.data hi nofun)), h.size⟩
  | @leave hold rest hheld =>
    have hi := hp.carries hold (hheld ▸ List.mem_cons_self)
    exact ⟨h.toCoherentOff.mapPins hi.1 (· - 1), h.size⟩
  | flush hheld hrun =>
    obtain ⟨flushed, log, hflush, hcoherent, -, hcount, -⟩ := flush_coherent h.toCoherentOff
    rw [hrun] at hflush
    cases hflush
    exact ⟨hcoherent, hcount.trans h.size⟩
  | reset hheld hrun =>
    obtain ⟨emptied, log, hreset, hcoherent, hcount, -⟩ := reset_coherent h.toCoherentOff
    rw [hrun] at hreset
    cases hreset
    exact ⟨hcoherent, hcount.trans h.size⟩

omit [LawfulDevice δ] in
/-- What was asked for is not forgotten. -/
theorem Step.asked_subset (hstep : Step p q) : p.asked ⊆ q.asked := by
  cases hstep with
  | enter => exact List.subset_cons_self _ _
  | amend | leave | flush => exact List.Subset.refl _
  | reset => exact fun ask hask => hask

/-- **Any number of steps** leave one. -/
theorem Reaches.backed (hreach : Reaches p q) (hp : p.Steady) (h : p.Backed count)
    (hin : ∀ ask ∈ q.asked, ask.sector.toNat < count) : q.Backed count := by
  induction hreach with
  | refl => exact h
  | tail hreach hstep ih =>
    exact hstep.backed (Reaches.steady hreach hp) (ih fun ask hask => hin ask (hstep.asked_subset hask)) hin

/-- What is held is as it was, and stays in the cache. -/
structure Stage.Keeps (p : Stage δ n) (cache : Cache δ n) : Prop where
  frame : ∀ h ∈ p.held, cache.frame h.frame = p.cache.frame h.frame
  cached : ∀ h ∈ p.held, cache.isCached h.sector = true

omit [BlockDevice δ] [LawfulDevice δ] in
theorem Stage.Steady.keeps {cache : Cache δ n} (h : p.Steady) (hc : cache.Fitted)
    (hframe : ∀ hold ∈ p.held, cache.frame hold.frame = p.cache.frame hold.frame) : p.Keeps cache := by
  refine ⟨hframe, fun hold hhold => isCached_iff_mem.mpr (mem_sectors.mpr ⟨hold.frame, ?_, ?_⟩)⟩
  · refine hc.mem_recency (Or.inr ?_)
    rw [hframe hold hhold]
    exact h.pinned_iff.mpr ⟨hold, hhold, rfl⟩
  · rw [hframe hold hhold]
    exact (h.carries hold hhold).2

/-- **As long as some frame is not held** a sector gets one. -/
theorem Stage.Steady.serves (h : p.Steady) (hb : p.Backed count) (fill : Fill) (hs : s.toNat < count)
    (hfree : s ∉ p.sectors) (hroom : p.held.length < n) :
    ∃ i taken log, acquire fill s p.cache = ⟨.ok i, taken, log⟩ ∧ p.Keeps taken ∧
      Acquired p.cache p.array fill s i taken ∧
      (p.cache.isCached s = false →
        (∀ j rest, p.cache.free = j :: rest →
          i = j ∧ taken.free = rest ∧ taken.sectors = s :: p.cache.sectors) ∧
        (p.cache.free = [] → taken.free = [] ∧
          ∃ victim, p.LeastRecent victim ∧ taken.sectors = s :: p.cache.sectors.erase victim)) := by
  have hunpinned := h.pinnedBy.room hb.toSound (by rwa [Stage.sectors, List.length_map])
  obtain ⟨i, taken, log, hrun, hacquired⟩ :=
    acquire_coherent hb.toCoherentOff fill (hb.size.symm ▸ hs) hunpinned
  have htook := acquire_took h.fitted hrun
  refine ⟨i, taken, log, hrun, ?_, hacquired, fun hmiss => ?_⟩
  · exact h.keeps htook.fitted fun hold hhold => htook.other _ (h.frame_ne hfree htook hhold)
  · rw [isCached_eq_false_iff] at hmiss
    rcases acquire_ok h.fitted.evicting hrun with ⟨hit, -⟩ | ⟨-, hloaded⟩
    · rw [hmiss] at hit
      cases hit
    · obtain ⟨recency, hclaims, hrecency⟩ := hloaded.lists
      have hsectors := hloaded.sectors_eq h.fitted hclaims hrecency
      -- which list the frame comes from is told by the way in which it was claimed
      revert hsectors
      generalize hfree : taken.free = free at hclaims
      intro hsectors
      cases hclaims with
      | fresh hlist =>
        refine ⟨fun j rest hlist' => ?_, fun hnone => ?_⟩
        · rw [hlist] at hlist'
          cases hlist'
          exact ⟨rfl, rfl, hsectors⟩
        · rw [hlist] at hnone
          cases hnone
      | taken hlist hlast =>
        refine ⟨fun j rest hlist' => ?_, fun _ => ⟨rfl, ?_⟩⟩
        · rw [hlist] at hlist'
          cases hlist'
        · have hi : i ∈ p.cache.recency := List.mem_reverse.mp (List.mem_of_find?_eq_some hlast)
          obtain ⟨victim, hvictim⟩ := h.fitted.used i hi
          refine ⟨victim, h.leastRecent hlast ⟨hi, hvictim⟩, ?_⟩
          rw [hsectors, h.fitted.sectors_erase ⟨hi, hvictim⟩]

/-! ## Trees -/

omit [LawfulDevice δ] in
/-- A sector that cannot be had leaves everything as it was, but for the count of accesses. -/
theorem withFrame_exhausted {α : Type} (fill : Fill) (body : Fin n → Action (Cache δ n) α) (h : p.Steady)
    (hs : s ∉ p.sectors) (hfull : p.held.length = n) :
    ∃ cache log, withFrame fill s body p.cache = ⟨.error .framesExhausted, cache, log⟩ ∧ cache.Fitted ∧
      p.cache.Undisturbed cache := by
  refine ⟨{ p.cache with accesses := p.cache.accesses + 1 }, [], ?_, h.fitted.counted _ p.cache.hits,
    ⟨fun _ => rfl, fun _ _ => rfl, rfl⟩⟩
  unfold withFrame
  rw [Action.bind_def, acquire_exhausted h hs hfull]

/-- A frame that was held meanwhile is let go. -/
theorem Acquired.leave {taken used : Cache δ n} (h : Acquired p.cache a fill s i taken) (hp : p.Steady)
    (hs : s ∉ p.sectors) (hu : taken.Undisturbed used) (hc : used.Fitted) :
    (used.unpin i).Fitted ∧ p.cache.Undisturbed (used.unpin i) := by
  have hi : i ∈ used.recency := hc.mem_recency (Or.inr (by rw [hu.pins]; exact h.pinned))
  refine ⟨?_, h.release hu (hp.pinnedBy.free hs) (fun _ _ => rfl) rfl rfl⟩
  unfold unpin
  exact hc.mapFrame hi rfl

mutual

/-- **A request that is too deep** runs out of frames, and what is held is as it was. -/
theorem run_deep {p : Stage δ n} (h : p.Steady) (hb : p.Backed count) (base : CacheStats) (r : Request)
    (hr : r.Nests count p.sectors) (hdeep : n < p.held.length + r.depth) :
    ∃ cache log, r.run base p.cache = ⟨.error .framesExhausted, cache, log⟩ ∧ cache.Fitted ∧
      p.cache.Undisturbed cache := by
  have hle := h.depth_le
  match r with
  | .read s =>
    rw [Request.Nests] at hr
    rw [Request.depth] at hdeep
    obtain ⟨cache, log, hrun, hdone⟩ :=
      withFrame_exhausted .readThrough frameData h hr.2 (by omega)
    refine ⟨cache, log, ?_, hdone⟩
    rw [Request.run, Action.bind_def, view, hrun]
  | .write s b =>
    rw [Request.Nests] at hr
    rw [Request.depth] at hdeep
    obtain ⟨cache, log, hrun, hdone⟩ :=
      withFrame_exhausted .overwrite (fun i => amendFrame i fun _ => b) h hr.2 (by omega)
    refine ⟨cache, log, ?_, hdone⟩
    rw [Request.run, Action.bind_def, store, hrun]
  | .map s inner =>
    rw [Request.Nests] at hr
    rw [Request.depth] at hdeep
    obtain ⟨⟨hs, hfree⟩, hinner⟩ := hr
    rw [Request.run]
    by_cases hfull : p.held.length = n
    · exact withFrame_exhausted .readThrough _ h hfree hfull
    · -- the sector is held while the inner requests run out of frames
      obtain ⟨i, taken, log, hacquire, -, ht, -⟩ := h.serves hb .readThrough hs hfree (by omega)
      let q := p.enter .look s i taken
      have hdepth : n < q.held.length + Request.depthAll inner := by
        show n < p.held.length + 1 + _
        omega
      obtain ⟨used, log', hrun, hused, hsame⟩ := runAll_deep (p := q)
        (h.enter hfree (acquire_took h.fitted hacquire) .look) (hb.enter .look ht) base inner
        hinner hdepth
      refine ⟨used.unpin i, log ++ log', withFrame_eq hacquire ?_, ht.leave h hfree hsame hused⟩
      have hrun : Request.runAll base inner taken = ⟨.error .framesExhausted, used, log'⟩ := hrun
      simp only [frameData, Action.bind_def, Action.get, hrun]
      rfl
  | .update s change inner =>
    rw [Request.Nests] at hr
    rw [Request.depth] at hdeep
    obtain ⟨⟨hs, hfree⟩, hinner⟩ := hr
    rw [Request.run]
    by_cases hfull : p.held.length = n
    · exact withFrame_exhausted .readThrough _ h hfree hfull
    · obtain ⟨i, taken, log, hacquire, -, ht, -⟩ := h.serves hb .readThrough hs hfree (by omega)
      let q := p.enter .amend s i taken
      have hdepth : n < q.held.length + Request.depthAll inner := by
        show n < p.held.length + 1 + _
        omega
      obtain ⟨used, log', hrun, hused, hsame⟩ := runAll_deep (p := q)
        (h.enter hfree (acquire_took h.fitted hacquire) .amend) (hb.enter .amend ht) base inner
        hinner hdepth
      refine ⟨used.unpin i, log ++ log', withFrame_eq hacquire ?_, ht.touch.leave h hfree hsame hused⟩
      have hrun : Request.runAll base inner (amendFrame i id taken).state =
          ⟨.error .framesExhausted, used, log'⟩ := hrun
      rw [amendFrame_eq] at hrun
      simp only [amendFrame_eq, Action.bind_def, hrun]
      rfl
  | .flush | .reset | .inspect | .sample | .sinceSample => exact absurd hr (by simp [Request.Nests])

/-- Requests one of which is too deep run out of frames. -/
theorem runAll_deep {p : Stage δ n} (h : p.Steady) (hb : p.Backed count) (base : CacheStats)
    (rs : List Request) (hr : Request.NestsAll count p.sectors rs)
    (hdeep : n < p.held.length + Request.depthAll rs) :
    ∃ cache log, Request.runAll base rs p.cache = ⟨.error .framesExhausted, cache, log⟩ ∧ cache.Fitted ∧
      p.cache.Undisturbed cache := by
  match rs with
  | [] =>
    have hle := h.depth_le
    rw [Request.depthAll] at hdeep
    omega
  | r :: rest =>
    rw [Request.NestsAll] at hr
    rw [Request.depthAll] at hdeep
    obtain ⟨hfirst, hrest⟩ := hr
    rw [Request.runAll]
    -- the first one is too deep itself, or it is answered and one of the others is
    by_cases hnow : n < p.held.length + r.depth
    · obtain ⟨cache, log, hrun, hdone⟩ := run_deep h hb base r hfirst hnow
      refine ⟨cache, log, ?_, hdone⟩
      rw [Action.bind_def, hrun]
    · have hlength : p.sectors.length = p.held.length := List.length_map _
      obtain ⟨first, log, hrun, hcoherent, hsame⟩ :=
        run_coherent base r (hfirst.fits (by omega)) hb.toCoherentOff h.pinnedBy hb.size
      obtain ⟨q, hq⟩ := run_reaches hfirst.stays hrun
      have hsectors : q.sectors = p.sectors := congrArg (List.map Hold.sector) hq.held
      have hbacked : q.Backed count := by
        refine ⟨?_, ?_⟩
        · rw [hq.cache, hq.array]
          exact hcoherent
        · rw [hq.cache]
          exact hsame.count.trans hb.size
      obtain ⟨cache, log', hruns, hfitted, hsame'⟩ := runAll_deep (hq.reaches.steady h) hbacked base rest
        (hsectors ▸ hrest) (by rw [hq.held]; omega)
      rw [hq.cache] at hruns hsame'
      refine ⟨cache, log ++ log', ?_, hfitted, hsame.trans hsame'⟩
      simp only [Action.bind_def, hrun, hruns]

end

end Accesses

/-! ## Every stage -/

section Stages

variable {δ : Type} {n : Nat} [BlockDevice δ] [LawfulDevice δ] {d : δ}

/-- An empty cache stands for the content of its device. -/
theorem Stage.start_backed (hd : LawfulDevice.Sound d) :
    (Stage.start n d (LawfulDevice.block d)).Backed (BlockDevice.sectorCount d) :=
  ⟨blank_coherent hd, rfl⟩

/-- A tree of requests is answered if it is not too deep. Either way it leaves what is held, and all pins. -/
theorem Stage.Backed.run {count : Nat} {p : Stage δ n} (hb : p.Backed count) (h : p.Steady)
    (base : CacheStats) {r : Request} (hr : r.Nests count p.sectors) :
    ((∃ answer, (r.run base p.cache).result = .ok answer) ↔ p.held.length + r.depth ≤ n) ∧
    ((r.run base p.cache).result = .error .framesExhausted ↔ n < p.held.length + r.depth) ∧
    p.Keeps (r.run base p.cache).state ∧
    ∀ j, ((r.run base p.cache).state.frame j).pins = (p.cache.frame j).pins := by
  have hkeeps {cache : Cache δ n} (hc : cache.Fitted) (hsame : p.cache.Undisturbed cache) : p.Keeps cache :=
    h.keeps hc fun hold hhold => hsame.held _ (h.pinned_iff.mpr ⟨hold, hhold, rfl⟩)
  by_cases hdeep : n < p.held.length + r.depth
  · obtain ⟨cache, log, hrun, hc, hsame⟩ := run_deep h hb base r hr hdeep
    rw [hrun]
    refine ⟨⟨fun hok => ?_, fun hle => absurd hle (Nat.not_le.mpr hdeep)⟩, ⟨fun _ => hdeep, fun _ => rfl⟩,
      hkeeps hc hsame, hsame.pins⟩
    obtain ⟨answer, hok⟩ := hok
    cases hok
  · have hle : p.held.length + r.depth ≤ n := Nat.le_of_not_lt hdeep
    have hfits : r.Fits count n p.sectors := hr.fits (by rwa [Stage.sectors, List.length_map])
    obtain ⟨cache, log, hrun, hc, hsame⟩ := run_coherent base r hfits hb.toCoherentOff h.pinnedBy hb.size
    rw [hrun]
    refine ⟨⟨fun _ => hle, fun _ => ⟨_, rfl⟩⟩, ⟨fun herror => ?_, fun hlt => absurd hlt hdeep⟩,
      hkeeps hc.toSound.fitted hsame, hsame.pins⟩
    cases herror

end Stages

/-- **Sectors asked for while others are held.** At every stage that a party reaches by asking for sectors of
    the device, no more sectors are held than there are frames. An access to a further one runs out of frames if
    and only if as many are held. Otherwise it succeeds, and what is held stays in the cache as it is. If the
    sector was not in the cache, it gets the next free frame, or else the frame of the sector used longest ago of
    those not held, which is the only one to leave the cache. A tree of such accesses is answered if and only if
    it is no deeper than there are frames left; whether it is or not, what is held is as it was, and so are all
    pins. While nothing is held no frame is pinned. -/
theorem pinning_exact {δ : Type} [BlockDevice δ] [LawfulDevice δ] {d : δ} (hd : LawfulDevice.Sound d)
    {n : Nat} {p : Stage δ n} (hreach : Reaches (Stage.start n d (LawfulDevice.block d)) p)
    (hin : ∀ ask ∈ p.asked, ask.sector.toNat < BlockDevice.sectorCount d) :
    Fault.framesExhausted.message = "run out of block cache" ∧
    p.held.length ≤ n ∧
    (∀ fill s, s.toNat < BlockDevice.sectorCount d → s ∉ p.sectors →
      ((acquire fill s p.cache).result = .error .framesExhausted ↔ p.held.length = n) ∧
      (p.held.length ≠ n → ∃ i taken log, acquire fill s p.cache = ⟨.ok i, taken, log⟩ ∧
        p.Keeps taken ∧
        (p.cache.isCached s = false →
          (∀ j rest, p.cache.free = j :: rest →
            i = j ∧ taken.free = rest ∧ taken.sectors = s :: p.cache.sectors) ∧
          (p.cache.free = [] → taken.free = [] ∧
            ∃ victim, p.LeastRecent victim ∧ taken.sectors = s :: p.cache.sectors.erase victim)))) ∧
    (∀ base (r : Request), r.Nests (BlockDevice.sectorCount d) p.sectors →
      ((∃ answer, (r.run base p.cache).result = .ok answer) ↔ p.held.length + r.depth ≤ n) ∧
      ((r.run base p.cache).result = .error .framesExhausted ↔ n < p.held.length + r.depth) ∧
      p.Keeps (r.run base p.cache).state ∧
      ∀ j, ((r.run base p.cache).state.frame j).pins = (p.cache.frame j).pins) ∧
    (p.held = [] → p.cache.Unpinned) := by
  have hstart : (Stage.start n d (LawfulDevice.block d)).Steady := .start _ _
  have h : p.Steady := hreach.steady hstart
  have hb := Reaches.backed hreach hstart (Stage.start_backed hd) hin
  refine ⟨rfl, h.depth_le, fun fill s hs hfree => ?_, fun base r hr => hb.run h base hr, h.unpinned⟩
  by_cases hfull : p.held.length = n
  · rw [acquire_exhausted h hfree hfull]
    exact ⟨⟨fun _ => hfull, fun _ => rfl⟩, fun hne => absurd hfull hne⟩
  · have hle := h.depth_le
    obtain ⟨i, taken, log, hrun, hkeeps, -, hmiss⟩ := h.serves hb fill hs hfree (by omega)
    refine ⟨⟨fun herror => ?_, fun hn => absurd hn hfull⟩, fun _ => ⟨i, taken, log, hrun, hkeeps, hmiss⟩⟩
    rw [hrun] at herror
    cases herror

/-- Two frames, and two sectors are held: there is no frame for a third one. -/
theorem pinning_exact_two :
    ∃ p : Stage RamDisk 2,
      Reaches (Stage.start 2 (RamDisk.blank 4) (LawfulDevice.block (RamDisk.blank 4))) p ∧
      p.sectors = [1, 0] ∧ (acquire .readThrough 2 p.cache).result = .error .framesExhausted ∧
      p.cache.isCached 0 = true ∧ p.cache.isCached 1 = true := by
  have hcount : BlockDevice.sectorCount (RamDisk.blank 4) = 4 := Array.size_replicate
  let p₀ := Stage.start 2 (RamDisk.blank 4) (LawfulDevice.block (RamDisk.blank 4))
  have h₀ : p₀.Steady := .start _ _
  have hb₀ : p₀.Backed 4 := hcount ▸ Stage.start_backed trivial
  obtain ⟨i, taken, log, hrun, -, ht, -⟩ :=
    h₀.serves hb₀ .readThrough (s := 0) (by decide) List.not_mem_nil (by decide)
  let p₁ := p₀.enter .look 0 i taken
  have h₁ : p₁.Steady := h₀.enter List.not_mem_nil (acquire_took h₀.fitted hrun) .look
  have hb₁ : p₁.Backed 4 := hb₀.enter .look ht
  have hfree : (1 : SectorId) ∉ p₁.sectors := by
    simp [p₁, Stage.enter, Stage.sectors, p₀, Stage.start]
  obtain ⟨i', taken', log', hrun', -, -, -⟩ :=
    h₁.serves hb₁ .readThrough (s := 1) (by decide) hfree Nat.one_lt_two
  let p₂ := p₁.enter .amend 1 i' taken'
  have hreach : Reaches p₀ p₂ :=
    (Relation.ReflTransGen.single (Step.enter .look List.not_mem_nil hrun)).tail
      (.enter .amend hfree hrun')
  have hin : ∀ ask ∈ p₂.asked, ask.sector.toNat < BlockDevice.sectorCount (RamDisk.blank 4) := by
    rw [hcount]
    simp [p₂, p₁, p₀, Stage.asked, Stage.enter, Stage.ask, Stage.start]
  obtain ⟨-, -, haccess, htree, -⟩ := pinning_exact (d := RamDisk.blank 4) trivial hreach hin
  have hsectors : p₂.sectors = [1, 0] := rfl
  have hother : (2 : SectorId) ∉ p₂.sectors := by
    rw [hsectors]
    decide
  have hexhausted := (haccess .readThrough 2 (by rw [hcount]; decide) hother).1.mpr rfl
  have hheld := h₁.enter hfree (acquire_took h₁.fitted hrun') .amend
  have hkeeps := hheld.keeps hheld.fitted fun _ _ => rfl
  exact ⟨p₂, hreach, hsectors, hexhausted,
    hkeeps.cached ⟨0, i, .look⟩ (List.mem_cons_of_mem _ List.mem_cons_self),
    hkeeps.cached ⟨1, i', .amend⟩ List.mem_cons_self⟩

end InodeStore.Cache
