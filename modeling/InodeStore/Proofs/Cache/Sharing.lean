import InodeStore.Proofs.Cache.Operations

/-!
# `Proofs.Cache.Sharing` — the invariant of a cache with accesses under way

While several threads are at work, some frames in use are not filled yet, and sectors that have lost their
frame are on their way to the device. `Orderly` is how the parts of such a cache fit together.

A frame is `Live` for a sector when it has the sector's data: it carries the sector and is filled, or it has
lost the sector but what it held has not arrived at the device. `Reflects hole cache a` says that the cache
stands for the array `a`: live frames hold the block of their sector, but for those of the hole, which
somebody is about to overwrite; and where no live frame is dirty the device holds the block.

## Contents
- `Live`, `Orderly`, `Reflects`.
- **Steps.** What keeps them: `Alike` (the order and the pins), `Settled` (`settle`), `Written` (`spill` and
  `writeBack`), `Filled` (`fetch`), `amend`, `Forgotten`, and `Claimed` (`seek`).
-/

namespace InodeStore.Cache

section Sharing

variable {δ : Type} {n : Nat} [BlockDevice δ] [LawfulDevice δ] {cache cache' : Cache δ n}
  {a : SectorArray} {s t : SectorId} {i j : Fin n} {size : Nat} {hole : Fin n → Prop}

/-! ## The invariant -/

omit [BlockDevice δ] [LawfulDevice δ] in
/-- The frame has the data of the sector. -/
def Live (cache : Cache δ n) (i : Fin n) (s : SectorId) : Prop :=
  (cache.Carries i s ∧ (cache.frame i).valid = true) ∨ (s, i) ∈ cache.evicting

/-- The frames, the two lists, the table of sectors on their way out and the device fit together. -/
structure Orderly (size : Nat) (cache : Cache δ n) : Prop where
  device : LawfulDevice.Sound cache.device
  count : BlockDevice.sectorCount cache.device = size
  nodup : (cache.recency ++ cache.free).Nodup
  covers : ∀ i, i ∈ cache.recency ∨ i ∈ cache.free
  /-- A frame in use has the number of a sector of the device. -/
  used : ∀ i ∈ cache.recency, ∃ s, (cache.frame i).sector = some s ∧ s.toNat < size
  unique : ∀ {i j s}, cache.Carries i s → cache.Carries j s → i = j
  unused : ∀ i ∈ cache.free, (cache.frame i).sector = none ∧ (cache.frame i).valid = false ∧
    (cache.frame i).dirty = false
  /-- A sector is on its way out once, and so is a frame. -/
  once : (cache.evicting.map Prod.fst).Nodup ∧ (cache.evicting.map Prod.snd).Nodup
  /-- A sector on its way out has no frame any more, and the frame that it left is not filled yet. -/
  out : ∀ {s i}, (s, i) ∈ cache.evicting → s.toNat < size ∧ i ∈ cache.recency ∧
    (cache.frame i).valid = false ∧ ∀ j, ¬ cache.Carries j s

/-- The cache stands for an array of blocks, but for the frames of the hole. -/
structure Reflects (size : Nat) (hole : Fin n → Prop) (cache : Cache δ n) (a : SectorArray) : Prop where
  /-- A live frame holds the block of its sector. -/
  data : ∀ {i s}, cache.Live i s → ¬ hole i → (cache.frame i).data = a s
  /-- The device holds the block of every sector without a live frame that is dirty. -/
  clean : ∀ {s : SectorId}, s.toNat < size → (∀ i, cache.Live i s → (cache.frame i).dirty = false) →
    LawfulDevice.block cache.device s = a s

/-- **A sector has one live frame at most.** -/
theorem Orderly.live_unique (h : cache.Orderly size) (hi : cache.Live i s) (hj : cache.Live j s) :
    i = j := by
  rcases hi with ⟨hi, -⟩ | hi
  · rcases hj with ⟨hj, -⟩ | hj
    · exact h.unique hi hj
    · exact absurd hi ((h.out hj).2.2.2 i)
  · rcases hj with ⟨hj, -⟩ | hj
    · exact absurd hj ((h.out hi).2.2.2 j)
    · exact congrArg Prod.snd (List.inj_on_of_nodup_map h.once.1 hi hj rfl)

/-- A frame is live for one sector at most. -/
theorem Orderly.live_sector (h : cache.Orderly size) (hs : cache.Live i s) (ht : cache.Live i t) :
    s = t := by
  rcases hs with ⟨hs, hvalid⟩ | hs
  · rcases ht with ⟨ht, -⟩ | ht
    · exact hs.sector_eq ht
    · rw [(h.out ht).2.2.1] at hvalid
      cases hvalid
  · rcases ht with ⟨-, hvalid⟩ | ht
    · rw [(h.out hs).2.2.1] at hvalid
      cases hvalid
    · exact congrArg Prod.fst (List.inj_on_of_nodup_map h.once.2 hs ht rfl)

/-- The sector of a frame in use is one of the device. -/
theorem Orderly.inRange (h : cache.Orderly size) (hi : cache.Carries i s) : s.toNat < size := by
  obtain ⟨s', hs, hrange⟩ := h.used i hi.1
  rwa [Option.some.inj (hi.2.symm.trans hs)]

/-- A live frame is in use. -/
theorem Orderly.live_mem (h : cache.Orderly size) (hi : cache.Live i s) : i ∈ cache.recency := by
  rcases hi with ⟨hi, -⟩ | hi
  · exact hi.1
  · exact (h.out hi).2.1

theorem Orderly.not_mem_free (h : cache.Orderly size) (hi : i ∈ cache.recency) : i ∉ cache.free :=
  fun hf => (List.nodup_append.mp h.nodup).2.2 i hi i hf rfl

/-- A larger hole says less. -/
theorem Reflects.mono {hole' : Fin n → Prop} (h : cache.Reflects size hole a)
    (hhole : ∀ i, hole i → hole' i) : cache.Reflects size hole' a :=
  ⟨fun hi hout => h.data hi fun hin => hout (hhole _ hin), h.clean⟩

/-- With nothing under way the cache is coherent. -/
theorem Orderly.coherent (h : cache.Orderly size) (hr : cache.Reflects size (fun _ => False) a)
    (hpins : cache.Unpinned) (hvalid : ∀ i ∈ cache.recency, (cache.frame i).valid = true)
    (hout : cache.evicting = []) : cache.Coherent a where
  device := h.device
  nodup := h.nodup
  covers := h.covers
  used i hi := by
    rw [h.count]
    exact ⟨hvalid i hi, h.used i hi⟩
  unique := h.unique
  unused i hi := by
    obtain ⟨hsector, hinvalid, hclean⟩ := h.unused i hi
    exact ⟨hsector, hinvalid, hclean, hpins i⟩
  evicting := hout
  data hi _ := hr.data (Or.inl ⟨hi, hvalid _ hi.1⟩) not_false
  clean {s} hs _ hall := by
    refine hr.clean (h.count ▸ hs) ?_
    rintro i (⟨hi, -⟩ | hi)
    · exact hall i hi
    · rw [hout] at hi
      cases hi

/-- A coherent cache has nothing under way. -/
theorem CoherentOff.orderly (h : cache.Coherent a) :
    cache.Orderly (BlockDevice.sectorCount cache.device) where
  device := h.device
  count := rfl
  nodup := h.nodup
  covers := h.covers
  used i hi := (h.used i hi).2
  unique := h.unique
  unused i hi := ⟨(h.unused i hi).1, (h.unused i hi).2.1, (h.unused i hi).2.2.1⟩
  once := by
    rw [h.evicting]
    exact ⟨List.nodup_nil, List.nodup_nil⟩
  out hi := by
    rw [h.evicting] at hi
    cases hi

theorem CoherentOff.reflects (h : cache.Coherent a) :
    cache.Reflects (BlockDevice.sectorCount cache.device) hole a where
  data {i s} hi _ := by
    rcases hi with ⟨hi, -⟩ | hi
    · exact h.data hi nofun
    · rw [h.evicting] at hi
      cases hi
  clean hs hall := h.clean hs nofun fun i hi => hall i (Or.inl ⟨hi, (h.used i hi.1).1⟩)

/-! ## The order and the pins -/

/-- The caches differ in the order of the frames, in their pins and in what was counted. -/
structure Alike (cache cache' : Cache δ n) : Prop where
  recency : cache'.recency.Perm cache.recency
  free : cache'.free = cache.free
  evicting : cache'.evicting = cache.evicting
  device : cache'.device = cache.device
  frame : ∀ j, ∃ pins, cache'.frame j = { cache.frame j with pins }

omit [BlockDevice δ] [LawfulDevice δ] in
theorem Alike.carries (h : Alike cache cache') : cache'.Carries i s ↔ cache.Carries i s := by
  obtain ⟨pins, hframe⟩ := h.frame i
  unfold Carries
  rw [h.recency.mem_iff, hframe]

omit [BlockDevice δ] [LawfulDevice δ] in
theorem Alike.live (h : Alike cache cache') : cache'.Live i s ↔ cache.Live i s := by
  obtain ⟨pins, hframe⟩ := h.frame i
  unfold Live
  rw [h.carries, h.evicting, hframe]

theorem Alike.orderly (h : Alike cache cache') (hc : cache.Orderly size) : cache'.Orderly size where
  device := h.device ▸ hc.device
  count := h.device ▸ hc.count
  nodup := h.free ▸ (h.recency.append_right _).nodup_iff.mpr hc.nodup
  covers i := by
    rw [h.recency.mem_iff, h.free]
    exact hc.covers i
  used i hi := by
    obtain ⟨pins, hframe⟩ := h.frame i
    rw [hframe]
    exact hc.used i (h.recency.mem_iff.mp hi)
  unique hi hj := hc.unique (h.carries.mp hi) (h.carries.mp hj)
  unused i hi := by
    obtain ⟨pins, hframe⟩ := h.frame i
    rw [hframe]
    exact hc.unused i (h.free ▸ hi)
  once := h.evicting ▸ hc.once
  out {s i} hi := by
    obtain ⟨pins, hframe⟩ := h.frame i
    obtain ⟨hrange, hused, hvalid, hnone⟩ := hc.out (h.evicting ▸ hi)
    rw [hframe]
    exact ⟨hrange, h.recency.mem_iff.mpr hused, hvalid, fun j hj => hnone j (h.carries.mp hj)⟩

theorem Alike.reflects (h : Alike cache cache') (hr : cache.Reflects size hole a) :
    cache'.Reflects size hole a where
  data {i s} hi hout := by
    obtain ⟨pins, hframe⟩ := h.frame i
    rw [hframe]
    exact hr.data (h.live.mp hi) hout
  clean {s} hs hall := by
    rw [h.device]
    refine hr.clean hs fun i hi => ?_
    obtain ⟨pins, hframe⟩ := h.frame i
    have := hall i (h.live.mpr hi)
    rwa [hframe] at this

omit [BlockDevice δ] [LawfulDevice δ] in
theorem alike_mapPins (i : Fin n) (pins : Nat → Nat) :
    Alike cache (cache.mapFrame i fun frame => { frame with pins := pins frame.pins }) where
  recency := List.Perm.refl _
  free := rfl
  evicting := rfl
  device := rfl
  frame j := by
    by_cases h : j = i
    · rw [h, frame_mapFrame_self]
      exact ⟨_, rfl⟩
    · rw [frame_mapFrame_of_ne _ _ h]
      exact ⟨_, rfl⟩

/-! ## One frame -/

/-- A change of a frame in use that leaves it with its sector and does not fill what a sector has left. -/
theorem Orderly.transfer (h : cache.Orderly size) (ht : Transfer i cache cache')
    (hi : i ∈ cache.recency) (hsector : (cache'.frame i).sector = (cache.frame i).sector)
    (hvalid : (cache'.frame i).valid = (cache.frame i).valid ∨ ∀ s, (s, i) ∉ cache.evicting) :
    cache'.Orderly size := by
  have hsame : ∀ j, (cache'.frame j).sector = (cache.frame j).sector := by
    intro j
    by_cases hj : j = i
    · rw [hj, hsector]
    · rw [ht.other j hj]
  have hcarries : ∀ {j s}, cache'.Carries j s → cache.Carries j s := fun hj =>
    ⟨ht.recency ▸ hj.1, (hsame _).symm.trans hj.2⟩
  refine ⟨ht.device, ht.count.trans h.count, ?_, ?_, ?_, ?_, ?_, ht.evicting ▸ h.once, ?_⟩
  · rw [ht.recency, ht.free]
    exact h.nodup
  · rw [ht.recency, ht.free]
    exact h.covers
  · intro j hj
    rw [hsame]
    exact h.used j (ht.recency ▸ hj)
  · exact fun hj hk => h.unique (hcarries hj) (hcarries hk)
  · intro j hj
    rw [ht.free] at hj
    rw [ht.other j fun he => h.not_mem_free (he ▸ hi) hj]
    exact h.unused j hj
  · intro s j hj
    rw [ht.evicting] at hj
    obtain ⟨hrange, hused, hinvalid, hnone⟩ := h.out hj
    refine ⟨hrange, ht.recency ▸ hused, ?_, fun k hk => hnone k (hcarries hk)⟩
    by_cases hji : j = i
    · subst hji
      rcases hvalid with hvalid | hnot
      · rw [hvalid, hinvalid]
      · exact absurd hj (hnot s)
    · rw [ht.other j hji, hinvalid]

omit [LawfulDevice δ] in
/-- What a change of one frame does not fill or empty stays live. -/
theorem Transfer.live [LawfulDevice δ] (ht : Transfer i cache cache')
    (hsector : (cache'.frame i).sector = (cache.frame i).sector)
    (hvalid : (cache'.frame i).valid = (cache.frame i).valid) :
    cache'.Live j s ↔ cache.Live j s := by
  unfold Live Carries
  rw [ht.recency, ht.evicting]
  by_cases hj : j = i
  · rw [hj, hsector, hvalid]
  · rw [ht.other j hj]

/-- The data of a live frame were brought to the device. -/
theorem Reflects.written (hc : cache.Orderly size) (h : cache.Reflects size hole a)
    (ht : Transfer i cache cache') (hi : cache.Live i s) (hout : ¬ hole i)
    (hframe : cache'.frame i = { cache.frame i with dirty := false })
    (hblock : LawfulDevice.block cache'.device =
      Function.update (LawfulDevice.block cache.device) s (cache.frame i).data) :
    cache'.Reflects size hole a where
  data {j t} hj hjout := by
    have hj := (ht.live (by rw [hframe]) (by rw [hframe])).mp hj
    by_cases hji : j = i
    · subst hji
      rw [hframe]
      exact h.data hj hjout
    · rw [ht.other j hji]
      exact h.data hj hjout
  clean {t} ht' hall := by
    rw [hblock, h.data hi hout]
    -- the sector of the frame was just written; any other was clean before
    by_cases hts : t = s
    · rw [hts, Function.update_self]
    · rw [Function.update_of_ne hts]
      refine h.clean ht' fun j hj => ?_
      have hji : j ≠ i := by
        rintro rfl
        exact hts (hc.live_sector hj hi)
      rw [← ht.other j hji]
      exact hall j ((ht.live (by rw [hframe]) (by rw [hframe])).mpr hj)

/-- A frame without a live sector was filled, with the block that the device holds unless that is about to be
    replaced. -/
theorem Reflects.filled {hole' : Fin n → Prop} {b : Block} (hc : cache.Orderly size)
    (h : cache.Reflects size hole a) (ht : Transfer i cache cache') (hi : cache.Carries i s)
    (hinvalid : (cache.frame i).valid = false) (hnone : ∀ s, (s, i) ∉ cache.evicting)
    (hframe : cache'.frame i = { cache.frame i with data := b, dirty := false, valid := true })
    (hblock : LawfulDevice.block cache'.device = LawfulDevice.block cache.device)
    (hb : ¬ hole' i → b = LawfulDevice.block cache.device s) (hhole : ∀ j, hole j → hole' j) :
    cache'.Reflects size hole' a := by
  have hother : ∀ {j t}, j ≠ i → (cache'.Live j t ↔ cache.Live j t) := by
    intro j t hj
    unfold Live Carries
    rw [ht.recency, ht.evicting, ht.other j hj]
  have hdead : ∀ j, ¬ cache.Live j s := by
    rintro j (⟨hj, hvalid⟩ | hj)
    · rw [hc.unique hj hi, hinvalid] at hvalid
      cases hvalid
    · exact (hc.out hj).2.2.2 i hi
  have hnot : ∀ t, ¬ cache.Live i t := by
    rintro t (⟨-, hvalid⟩ | hi)
    · rw [hinvalid] at hvalid
      cases hvalid
    · exact hnone t hi
  refine ⟨fun {j t} hj hout => ?_, fun {t} ht' hall => ?_⟩
  · by_cases hji : j = i
    · subst hji
      have hts : t = s := by
        rcases hj with ⟨hj, -⟩ | hj
        · have hsector := hj.2
          rw [hframe] at hsector
          exact Option.some.inj (hsector.symm.trans hi.2)
        · exact absurd (ht.evicting ▸ hj) (hnone t)
      have hfresh := h.clean (hc.inRange hi) fun k hk => absurd hk (hdead k)
      rw [hframe, hts, ← hfresh]
      exact hb hout
    · rw [ht.other j hji]
      exact h.data ((hother hji).mp hj) fun hin => hout (hhole j hin)
  · rw [hblock]
    refine h.clean ht' fun j hj => ?_
    have hji : j ≠ i := fun he => hnot t (he ▸ hj)
    rw [← ht.other j hji]
    exact hall j ((hother hji).mpr hj)

/-- The data of a live frame are changed, and the array with them. -/
theorem Reflects.amend {hole' : Fin n → Prop} {b : Block} {change : Frame → Frame}
    (hc : cache.Orderly size) (h : cache.Reflects size hole a) (hi : cache.Live i s)
    (hsector : (change (cache.frame i)).sector = (cache.frame i).sector)
    (hvalid : (change (cache.frame i)).valid = (cache.frame i).valid)
    (hdata : (change (cache.frame i)).data = b) (hdirty : (change (cache.frame i)).dirty = true)
    (hhole : ∀ j, j ≠ i → hole j → hole' j) :
    (cache.mapFrame i change).Reflects size hole' (Function.update a s b) := by
  have ht : Transfer i cache (cache.mapFrame i change) :=
    Transfer.mapFrame ⟨rfl, rfl, rfl, fun _ _ => rfl, hc.device, rfl⟩ change
  have hlive : ∀ {j t}, (cache.mapFrame i change).Live j t ↔ cache.Live j t :=
    ht.live (by rw [frame_mapFrame_self, hsector]) (by rw [frame_mapFrame_self, hvalid])
  refine ⟨fun {j t} hj hout => ?_, fun {t} ht' hall => ?_⟩
  · have hold : cache.Live j t := hlive.mp hj
    by_cases hji : j = i
    · subst hji
      rw [frame_mapFrame_self, hdata, hc.live_sector hold hi, Function.update_self]
    · have hts : t ≠ s := fun he => hji (hc.live_unique (he ▸ hold) hi)
      rw [frame_mapFrame_of_ne _ _ hji, Function.update_of_ne hts]
      exact h.data hold fun hin => hout (hhole j hji hin)
  · have hts : t ≠ s := by
      rintro rfl
      have := hall i (hlive.mpr hi)
      rw [frame_mapFrame_self, hdirty] at this
      cases this
    rw [Function.update_of_ne hts]
    refine h.clean ht' fun j hj => ?_
    have hji : j ≠ i := fun he => hts (hc.live_sector (he ▸ hj) hi)
    have := hall j (hlive.mpr hj)
    rwa [frame_mapFrame_of_ne _ _ hji] at this

/-! ## Sectors on their way out -/

/-- The cache once a sector has reached the device. -/
def settled (cache : Cache δ n) (old : SectorId) : Cache δ n :=
  { cache with evicting := cache.evicting.eraseP fun entry => entry.1 == old }

omit [BlockDevice δ] [LawfulDevice δ] in
/-- The entries of other sectors stay in the table. -/
theorem mem_settled {entries : List (SectorId × Fin n)} {entry : SectorId × Fin n} {old : SectorId}
    (h : (entries.map Prod.fst).Nodup) :
    entry ∈ entries.eraseP (fun entry => entry.1 == old) ↔ entry ∈ entries ∧ entry.1 ≠ old := by
  induction entries with
  | nil => simp
  | cons first rest ih =>
    rw [List.map_cons, List.nodup_cons] at h
    by_cases he : first.1 = old
    · rw [List.eraseP_cons_of_pos (by simpa using he)]
      refine ⟨fun hmem => ⟨List.mem_cons_of_mem _ hmem, fun hold => ?_⟩, ?_⟩
      · exact h.1 (he.trans hold.symm ▸ List.mem_map_of_mem hmem)
      · rintro ⟨hmem, hne⟩
        rcases List.mem_cons.mp hmem with rfl | hmem
        · exact absurd he hne
        · exact hmem
    · rw [List.eraseP_cons_of_neg (by simpa using he), List.mem_cons, List.mem_cons, ih h.2]
      constructor
      · rintro (rfl | ⟨hmem, hne⟩)
        · exact ⟨Or.inl rfl, he⟩
        · exact ⟨Or.inr hmem, hne⟩
      · rintro ⟨rfl | hmem, hne⟩
        · exact Or.inl rfl
        · exact Or.inr ⟨hmem, hne⟩

theorem Orderly.settled (h : cache.Orderly size) (old : SectorId) :
    (cache.settled old).Orderly size where
  device := h.device
  count := h.count
  nodup := h.nodup
  covers := h.covers
  used := h.used
  unique := h.unique
  unused := h.unused
  once := ⟨h.once.1.sublist (List.eraseP_sublist.map _),
    h.once.2.sublist (List.eraseP_sublist.map _)⟩
  out hi := h.out (List.mem_of_mem_eraseP hi)

/-- A sector is done with once its frame is clean. -/
theorem Reflects.settled (hc : cache.Orderly size) (h : cache.Reflects size hole a)
    {old : SectorId} (hout : (old, i) ∈ cache.evicting) (hclean : (cache.frame i).dirty = false) :
    (cache.settled old).Reflects size hole a where
  data {j t} hj hjout := by
    refine h.data ?_ hjout
    rcases hj with hj | hj
    · exact Or.inl hj
    · exact Or.inr (List.mem_of_mem_eraseP hj)
  clean {t} ht hall := by
    refine h.clean ht fun j hj => ?_
    rcases hj with hj | hj
    · exact hall j (Or.inl hj)
    · by_cases hto : t = old
      · have hji : j = i := hc.live_unique (Or.inr (hto ▸ hj)) (Or.inr hout)
        rw [hji]
        exact hclean
      · exact hall j (Or.inr ((mem_settled hc.once.1).mpr ⟨hj, hto⟩))

/-! ## A frame for a new sector -/

section Given

variable {claimed : Cache δ n}

/-- The cache once a claimed frame was given to a sector: what was dirty in it is on its way out. -/
def given (cache claimed : Cache δ n) (i : Fin n) (s : SectorId) : Cache δ n :=
  handOver claimed i s (((cache.leaving i).map fun old => (old, i)).toList ++ cache.evicting)

omit [BlockDevice δ] [LawfulDevice δ] in
/-- What is on its way out afterwards: what was so before, and what the frame has lost. -/
theorem mem_given {entry : SectorId × Fin n} : entry ∈ (cache.given claimed i s).evicting ↔
    cache.leaving i = some entry.1 ∧ entry.2 = i ∨ entry ∈ cache.evicting := by
  obtain ⟨t, j⟩ := entry
  show (t, j) ∈ ((cache.leaving i).map fun old => (old, i)).toList ++ cache.evicting ↔ _
  rw [List.mem_append]
  cases cache.leaving i with
  | none => simp
  | some old =>
    simp only [Option.map_some, Option.toList_some, List.mem_singleton, Prod.mk.injEq,
      Option.some.injEq]
    exact ⟨fun h => h.imp_left fun h => ⟨h.1.symm, h.2⟩, fun h => h.imp_left fun h => ⟨h.1.symm, h.2⟩⟩

/-- A frame leaves a sector that it carries. -/
theorem Orderly.carries_of_leaving (hc : cache.Orderly size) {old : SectorId}
    (h : cache.leaving i = some old) : cache.Carries i old ∧ (cache.frame i).dirty = true := by
  unfold Cache.leaving at h
  split at h
  · next hdirty =>
    refine ⟨⟨?_, h⟩, hdirty⟩
    rcases hc.covers i with hi | hi
    · exact hi
    · rw [(hc.unused i hi).2.2] at hdirty
      cases hdirty
  · cases h

/-- Giving a frame to a sector that is neither in the cache nor on its way out leaves all in order. -/
theorem Orderly.given (hc : cache.Orderly size) (hclaimed : Claimed cache i claimed)
    (hs : s.toNat < size) (hmiss : ∀ j, ¬ cache.Carries j s) (hfresh : ∀ j, (s, j) ∉ cache.evicting)
    (hfree : ∀ t, (t, i) ∉ cache.evicting) : (cache.given claimed i s).Orderly size := by
  have h : Replaced cache s i (cache.given claimed i s) := hclaimed.handOver_replaced hc.device _
  have hnodup := h.lists.nodup_iff.mpr hc.nodup
  refine ⟨h.device, h.count.trans hc.count, hnodup, fun j => ?_, fun j hj => ?_, fun {j k t} hj hk => ?_,
    fun j hj => ?_, ?_, fun {t j} hj => ?_⟩
  · exact List.mem_append.mp (h.lists.mem_iff.mpr (List.mem_append.mpr (hc.covers j)))
  · by_cases hji : j = i
    · rw [hji]
      exact ⟨s, h.sector, hs⟩
    · rw [h.other j hji]
      rcases List.mem_cons.mp (h.recency hj) with he | hm
      · exact absurd he hji
      · exact hc.used j hm
  · rcases h.carries hj with ⟨rfl, rfl⟩ | ⟨-, hold⟩
    · rcases h.carries hk with ⟨rfl, -⟩ | ⟨-, hold⟩
      · rfl
      · exact absurd hold (hmiss k)
    · rcases h.carries hk with ⟨-, rfl⟩ | ⟨-, hold'⟩
      · exact absurd hold (hmiss j)
      · exact hc.unique hold hold'
  · have hji : j ≠ i := fun he => (List.nodup_append.mp hnodup).2.2 i h.first i (he ▸ hj) rfl
    rw [h.other j hji]
    exact hc.unused j (h.free hj)
  · unfold Cache.given handOver
    dsimp only
    cases hleaving : cache.leaving i with
    | none => exact hc.once
    | some old =>
      obtain ⟨hold, -⟩ := hc.carries_of_leaving hleaving
      simp only [Option.map_some, Option.toList_some, List.singleton_append, List.map_cons,
        List.nodup_cons]
      refine ⟨⟨fun hmem => ?_, hc.once.1⟩, fun hmem => ?_, hc.once.2⟩
      · obtain ⟨⟨t, j⟩, hentry, rfl⟩ := List.mem_map.mp hmem
        exact (hc.out hentry).2.2.2 i hold
      · obtain ⟨⟨t, j⟩, hentry, rfl⟩ := List.mem_map.mp hmem
        exact hfree t hentry
  · rcases mem_given.mp hj with ⟨hleaving, rfl⟩ | hout
    · obtain ⟨hold, -⟩ := hc.carries_of_leaving hleaving
      refine ⟨hc.inRange hold, h.first, ?_, fun k hk => ?_⟩
      · exact congrArg Frame.valid (hclaimed.handOver_frame _)
      · rcases h.carries hk with ⟨-, rfl⟩ | ⟨hki, hk⟩
        · exact hmiss _ hold
        · exact hki (hc.unique hk hold)
    · obtain ⟨hrange, hused, hinvalid, hnone⟩ := hc.out hout
      have hji : j ≠ i := fun he => hfree t (he ▸ hout)
      refine ⟨hrange, ?_, ?_, fun k hk => ?_⟩
      · rcases List.mem_append.mp (h.lists.mem_iff.mpr (List.mem_append_left _ hused)) with hm | hm
        · exact hm
        · exact absurd (h.free hm) (hc.not_mem_free hused)
      · rw [h.other j hji]
        exact hinvalid
      · rcases h.carries hk with ⟨-, rfl⟩ | ⟨-, hk⟩
        · exact hfresh j hout
        · exact hnone k hk

/-- What the frame has lost is on the device, or on its way there. -/
theorem Reflects.given (hc : cache.Orderly size) (hr : cache.Reflects size hole a)
    (hclaimed : Claimed cache i claimed) (hfree : ∀ t, (t, i) ∉ cache.evicting) (hin : ¬ hole i)
    (hvalid : i ∈ cache.recency → (cache.frame i).valid = true) :
    (cache.given claimed i s).Reflects size hole a := by
  have h : Replaced cache s i (cache.given claimed i s) := hclaimed.handOver_replaced hc.device _
  have hframe : (cache.given claimed i s).frame i =
      { cache.frame i with sector := some s, valid := false, pins := 1 } := hclaimed.handOver_frame _
  have hblock : (cache.given claimed i s).device = cache.device := hclaimed.device
  refine ⟨fun {j t} hj hout => ?_, fun {t} ht hall => ?_⟩
  · rcases hj with ⟨hj, hfilled⟩ | hj
    · have hji : j ≠ i := by
        rintro rfl
        rw [hframe] at hfilled
        cases hfilled
      rcases h.carries hj with ⟨he, -⟩ | ⟨-, hj⟩
      · exact absurd he hji
      · rw [h.other j hji] at hfilled ⊢
        exact hr.data (Or.inl ⟨hj, hfilled⟩) hout
    · rcases mem_given.mp hj with ⟨hleaving, rfl⟩ | hj
      · obtain ⟨hold, -⟩ := hc.carries_of_leaving hleaving
        rw [hframe]
        exact hr.data (Or.inl ⟨hold, hvalid hold.1⟩) hout
      · rw [h.other j fun he => hfree t (he ▸ hj)]
        exact hr.data (Or.inr hj) hout
  · rw [hblock]
    refine hr.clean ht fun j hj => ?_
    by_cases hji : j = i
    · subst hji
      rcases hj with ⟨hj, -⟩ | hj
      · -- were it dirty, the sector would be on its way out
        refine Bool.eq_false_iff.mpr fun hdirty => ?_
        have hleaving : cache.leaving j = some t := by
          unfold Cache.leaving
          rw [if_pos hdirty, hj.2]
        have hclean := hall j (Or.inr (mem_given.mpr (Or.inl ⟨hleaving, rfl⟩)))
        rw [hframe] at hclean
        rw [hdirty] at hclean
        cases hclean
      · exact absurd hj (hfree t)
    · rw [← h.other j hji]
      refine hall j ?_
      rcases hj with ⟨hj, hfilled⟩ | hj
      · exact Or.inl ⟨h.carries_of_ne hc.nodup hji hj, h.other j hji ▸ hfilled⟩
      · exact Or.inr (mem_given.mpr (Or.inr hj))

end Given

/-! ## Emptying -/

/-- Frames that somebody has pinned stay in use. -/
theorem Forgotten.orderly (h : Forgotten cache cache') (hc : cache.Orderly size)
    (hpinned : ∀ {s i}, (s, i) ∈ cache.evicting → 0 < (cache.frame i).pins) : cache'.Orderly size where
  device := h.device ▸ hc.device
  count := h.device ▸ hc.count
  nodup := h.lists.nodup_iff.mpr hc.nodup
  covers i := List.mem_append.mp (h.lists.mem_iff.mpr (List.mem_append.mpr (hc.covers i)))
  used i hi := by
    rw [h.kept (Or.inl hi)]
    exact hc.used i (h.recency.mp hi).1
  unique hi hj := hc.unique (h.carries hi) (h.carries hj)
  unused i hi := by
    rcases hc.covers i with hused | hfree
    · -- it was in use, and is free now because nothing kept it
      have hkeeps : cache.keeps i = false := by
        apply Bool.eq_false_iff.mpr
        intro hk
        have hnodup := h.lists.nodup_iff.mpr hc.nodup
        exact (List.nodup_append.mp hnodup).2.2 i (h.recency.mpr ⟨hused, hk⟩) i hi rfl
      rw [h.dropped hused hkeeps]
      simp only [keeps, Bool.or_eq_false_iff] at hkeeps
      exact ⟨rfl, rfl, hkeeps.2⟩
    · rw [h.kept (Or.inr hfree)]
      exact hc.unused i hfree
  once := h.evicting ▸ hc.once
  out {s i} hi := by
    rw [h.evicting] at hi
    obtain ⟨hrange, hused, hinvalid, hnone⟩ := hc.out hi
    have hkept : i ∈ cache'.recency := by
      refine h.recency.mpr ⟨hused, ?_⟩
      unfold keeps
      rw [bne_iff_ne.mpr (Nat.ne_of_gt (hpinned hi)), Bool.true_or]
    rw [h.kept (Or.inl hkept)]
    exact ⟨hrange, hkept, hinvalid, fun j hj => hnone j (h.carries hj)⟩

theorem Forgotten.reflects (h : Forgotten cache cache') (hc : cache.Orderly size)
    (hr : cache.Reflects size hole a)
    (hpinned : ∀ {s i}, (s, i) ∈ cache.evicting → 0 < (cache.frame i).pins) :
    cache'.Reflects size hole a := by
  have horderly := h.orderly hc hpinned
  refine ⟨fun {i s} hi hout => ?_, fun {s} hs hall => ?_⟩
  · have hkept : i ∈ cache'.recency := horderly.live_mem hi
    rw [h.kept (Or.inl hkept)]
    refine hr.data ?_ hout
    rcases hi with ⟨hi, hvalid⟩ | hi
    · rw [h.kept (Or.inl hkept)] at hvalid
      exact Or.inl ⟨h.carries hi, hvalid⟩
    · exact Or.inr (h.evicting ▸ hi)
  · rw [h.device]
    refine hr.clean hs fun i hi => ?_
    by_cases hk : i ∈ cache'.recency
    · rw [← h.kept (Or.inl hk)]
      refine hall i ?_
      rcases hi with ⟨hi, hvalid⟩ | hi
      · exact Or.inl ⟨⟨hk, h.kept (Or.inl hk) ▸ hi.2⟩, h.kept (Or.inl hk) ▸ hvalid⟩
      · exact Or.inr (h.evicting ▸ hi)
    · -- only clean frames are taken from their sectors
      have hkeeps : cache.keeps i = false :=
        Bool.eq_false_iff.mpr fun hkeeps => hk (h.recency.mpr ⟨hc.live_mem hi, hkeeps⟩)
      simp only [keeps, Bool.or_eq_false_iff] at hkeeps
      exact hkeeps.2

end Sharing

end InodeStore.Cache
