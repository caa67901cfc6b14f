import InodeStore.Proofs.Cache.Fitted
import InodeStore.Proofs.Cache.Operations

/-!
# `Proofs.Cache.Outcome` — what an operation that ends well leaves behind

The lemmas of `Proofs.Cache.Acquisition` and `Proofs.Cache.Operations` say that the cache goes on standing
for an array of blocks. Here it is said what exactly became of the lists, the frames, the counters and the
device, given only that the operation did not fault. Nothing is asked of the device for that: it may be
without a sector that is in the cache, as long as nobody has tried to bring that sector to it.

## Contents
- `due`, `Puts`, `Gets`: what a frame has for the device, and transfers that end well.
- **Access.** `Loaded`; `acquire_ok`.
- **The whole cache.** `Cleaned` and `flush_ok`; `Emptied` and `reset_ok`.
-/

namespace InodeStore.Cache

variable {δ : Type} {n : Nat} {cache cache' : Cache δ n} {s t : SectorId} {i j : Fin n}

/-! ## Transfers -/

/-- What a frame has for the device. -/
def due (cache : Cache δ n) (i : Fin n) : List (SectorId × Block) :=
  ((cache.leaving i).map fun old => (old, (cache.frame i).data)).toList

theorem due_of_clean (h : (cache.frame i).dirty = false) : cache.due i = [] := by
  rw [due, leaving, h]
  rfl

theorem due_of_dirty (h : (cache.frame i).dirty = true) (hs : (cache.frame i).sector = some s) :
    cache.due i = [(s, (cache.frame i).data)] := by
  rw [due, leaving, h, hs]
  rfl

theorem due_congr (h : cache'.frame i = cache.frame i) : cache'.due i = cache.due i := by
  rw [due, due, leaving, leaving, h]

variable [BlockDevice δ]

/-- Blocks are written, one after the other. -/
def Puts : List (SectorId × Block) → δ → δ → Prop
  | [], d, d' => d' = d
  | (s, b) :: rest, d, d' => ∃ mid, BlockDevice.write s b d = (.ok (), mid) ∧ Puts rest mid d'

/-- A frame is filled: from the device, or not at all where the content comes from the caller. -/
def Gets (fill : Fill) (s : SectorId) (b : Block) (d d' : δ) : Prop :=
  match fill with
  | .readThrough => BlockDevice.read s d = (.ok b, d')
  | .overwrite => d' = d

theorem Puts.append {first second : List (SectorId × Block)} {d mid d' : δ} (h : Puts first d mid)
    (h' : Puts second mid d') : Puts (first ++ second) d d' := by
  induction first generalizing d with
  | nil =>
    obtain rfl : mid = d := h
    exact h'
  | cons entry rest ih =>
    obtain ⟨next, hwrite, hrest⟩ := h
    exact ⟨next, hwrite, ih hrest⟩

theorem writeDevice_ok {b : Block} {log : List Event}
    (h : writeDevice s b cache = ⟨.ok (), cache', log⟩) :
    ∃ d, BlockDevice.write s b cache.device = (.ok (), d) ∧
      cache' = { cache with device := d, deviceWrites := cache.deviceWrites + 1 } := by
  unfold writeDevice at h
  rcases hwrite : BlockDevice.write s b cache.device with ⟨_ | ⟨⟩, d⟩
  · rw [hwrite] at h
    cases h
  · rw [hwrite] at h
    cases h
    exact ⟨d, rfl, rfl⟩

theorem spill_ok {old : SectorId} {log : List Event} (h : spill i old cache = ⟨.ok (), cache', log⟩) :
    ∃ d, BlockDevice.write old (cache.frame i).data cache.device = (.ok (), d) ∧
      cache' = { cache with device := d, deviceWrites := cache.deviceWrites + 1 }.mapFrame i
        fun frame => { frame with dirty := false } := by
  unfold spill at h
  simp only [Action.bind_def, Action.get, Action.modify] at h
  rcases hrun : writeDevice old (cache.frame i).data cache with ⟨_ | ⟨⟩, written, log'⟩
  · rw [hrun] at h
    cases h
  · rw [hrun] at h
    cases h
    obtain ⟨d, hwrite, rfl⟩ := writeDevice_ok hrun
    exact ⟨d, hwrite, rfl⟩

theorem fetch_ok {fill : Fill} {log : List Event} (h : fetch i s fill cache = ⟨.ok (), cache', log⟩) :
    ∃ b d, Gets fill s b cache.device d ∧
      cache'.frame i = { cache.frame i with data := b, dirty := false, valid := true } ∧
      (∀ j, j ≠ i → cache'.frame j = cache.frame j) ∧
      cache' = { cache with
        device := d
        frames := cache'.frames
        deviceReads := cache.deviceReads + if fill = .readThrough then 1 else 0 } := by
  unfold fetch at h
  cases fill with
  | overwrite =>
    simp only [reduceCtorEq, if_false, Action.bind_def, Action.emit, Action.modify] at h
    cases h
    exact ⟨(cache.frame i).data, cache.device, rfl, frame_mapFrame_self _ _ _,
      fun j hj => frame_mapFrame_of_ne _ _ hj, rfl⟩
  | readThrough =>
    simp only [if_true, Action.bind_def, readDevice, Action.emit, Action.modify] at h
    rcases hread : BlockDevice.read s cache.device with ⟨_ | b, d⟩
    · rw [hread] at h
      cases h
    · rw [hread] at h
      cases h
      refine ⟨b, d, hread, ?_, ?_, rfl⟩
      · rw [frame_mapFrame_self, frame_mapFrame_self]
        rfl
      · intro j hj
        rw [frame_mapFrame_of_ne _ _ hj, frame_mapFrame_of_ne _ _ hj]
        rfl

/-! ## Access -/

/-- Frame `i` was given to a sector, and what it had for the device is on it. -/
structure Vacated (cache : Cache δ n) (s : SectorId) (i : Fin n) (given : Cache δ n) : Prop where
  lists : ∃ recency, Claims cache i recency given.free ∧ given.recency = i :: recency
  other : ∀ j, j ≠ i → given.frame j = cache.frame j
  frame : (given.frame i).sector = some s ∧ (given.frame i).pins = (cache.frame i).pins + 1
  device : Puts (cache.due i) cache.device given.device
  evicting : given.evicting = []
  accesses : given.accesses = cache.accesses + 1
  hits : given.hits = cache.hits
  deviceReads : given.deviceReads = cache.deviceReads
  deviceWrites : given.deviceWrites = cache.deviceWrites + (cache.due i).length

/-- What an access leaves behind that gave frame `i` to its sector: what the frame had for the device is on
    it, and the frame is filled, clean and pinned. -/
structure Loaded (cache : Cache δ n) (fill : Fill) (s : SectorId) (i : Fin n) (taken : Cache δ n) :
    Prop where
  lists : ∃ recency, Claims cache i recency taken.free ∧ taken.recency = i :: recency
  other : ∀ j, j ≠ i → taken.frame j = cache.frame j
  filled : ∃ b mid, Puts (cache.due i) cache.device mid ∧ Gets fill s b mid taken.device ∧
    taken.frame i = ⟨some s, b, false, true, (cache.frame i).pins + 1⟩
  evicting : taken.evicting = []
  accesses : taken.accesses = cache.accesses + 1
  hits : taken.hits = cache.hits
  deviceReads : taken.deviceReads = cache.deviceReads + if fill = .readThrough then 1 else 0
  deviceWrites : taken.deviceWrites = cache.deviceWrites + (cache.due i).length

section Seek

omit [BlockDevice δ]

/-- A look for a sector that is in the cache. -/
theorem seek_of_hit (hit : cache.frameOf? s = some i) :
    seek s cache = ⟨.ok (.hit i), cache.found i, []⟩ := by
  unfold seek
  rw [hit]
  rfl

/-- A look for a sector that has no frame and can have none. -/
theorem seek_of_exhausted (hmiss : cache.frameOf? s = none) (hout : cache.evicting = [])
    (hclaim : Cache.claim? { cache with accesses := cache.accesses + 1 } = none) :
    seek s cache = ⟨.error .framesExhausted, { cache with accesses := cache.accesses + 1 }, []⟩ := by
  have hlookup : cache.evicting.lookup s = none := by
    rw [hout]
    rfl
  unfold seek
  simp only [hmiss, hlookup, hclaim]

/-- A look for a sector that is given a frame. -/
theorem seek_of_claim {claimed : Cache δ n} (hmiss : cache.frameOf? s = none) (hout : cache.evicting = [])
    (hclaim : Cache.claim? { cache with accesses := cache.accesses + 1 } = some (i, claimed)) :
    ∃ log, seek s cache = ⟨.ok (.miss i (cache.leaving i)),
      handOver claimed i s ((cache.leaving i).map fun old => (old, i)).toList, log⟩ := by
  have hlookup : cache.evicting.lookup s = none := by
    rw [hout]
    rfl
  obtain ⟨-, heq⟩ := claim?_eq_some hclaim
  have hnone : claimed.evicting = [] := by
    rw [heq]
    exact hout
  have hframe : claimed.frame i = cache.frame i := by
    rw [heq]
    rfl
  refine ⟨((cache.frame i).sector.map fun old => Event.evicted old i.val).toList, ?_⟩
  unfold seek
  simp only [hmiss, hlookup, hclaim, assign, hnone, hframe, List.append_nil]
  rfl

end Seek

/-- A frame with nothing in it for the device is vacated as it is given away. -/
theorem vacated_of_clean {claimed : Cache δ n} (hleaving : cache.leaving i = none)
    (hclaim : Cache.claim? { cache with accesses := cache.accesses + 1 } = some (i, claimed)) :
    Vacated cache s i (handOver claimed i s []) := by
  obtain ⟨hclaims, heq⟩ := claim?_eq_some hclaim
  have hdue : cache.due i = [] := by
    rw [due, hleaving]
    rfl
  rw [heq]
  refine ⟨⟨claimed.recency, hclaims, rfl⟩, fun j hj => frame_mapFrame_of_ne _ _ hj, ?_, ?_, rfl, rfl, rfl,
    rfl, ?_⟩
  · show ((Cache.mapFrame i (givenFrame s) _).frame i).sector = _ ∧
      ((Cache.mapFrame i (givenFrame s) _).frame i).pins = _
    rw [frame_mapFrame_self]
    exact ⟨rfl, rfl⟩
  · rw [hdue]
    rfl
  · rw [hdue]
    rfl

/-- A frame with changed data is vacated once these were brought to the device. -/
theorem vacated_of_spill {claimed spilt : Cache δ n} {old : SectorId} {log : List Event}
    (hleaving : cache.leaving i = some old)
    (hclaim : Cache.claim? { cache with accesses := cache.accesses + 1 } = some (i, claimed))
    (hspill : spill i old (handOver claimed i s [(old, i)]) = ⟨.ok (), spilt, log⟩) :
    Vacated cache s i { spilt with evicting := spilt.evicting.eraseP fun entry => entry.1 == old } := by
  obtain ⟨hclaims, heq⟩ := claim?_eq_some hclaim
  obtain ⟨d, hwrite, hspilt⟩ := spill_ok hspill
  have hgiven : (handOver claimed i s [(old, i)]).frame i = givenFrame s (cache.frame i) := by
    rw [heq]
    exact frame_mapFrame_self _ _ _
  have hdevice : (handOver claimed i s [(old, i)]).device = cache.device := by
    rw [heq]
    rfl
  have hdue : cache.due i = [(old, (cache.frame i).data)] := by
    rw [due, hleaving]
    rfl
  have hframe : spilt.frame i = { givenFrame s (cache.frame i) with dirty := false } := by
    rw [hspilt, frame_mapFrame_self, ← hgiven]
    rfl
  refine ⟨⟨claimed.recency, ?_, ?_⟩, ?_, ?_, ?_, ?_, ?_, ?_, ?_, ?_⟩
  · rw [hspilt]
    exact hclaims
  · rw [hspilt]
    rfl
  · intro j hj
    show spilt.frame j = _
    rw [hspilt, frame_mapFrame_of_ne _ _ hj, heq]
    exact frame_mapFrame_of_ne _ _ hj
  · show (spilt.frame i).sector = _ ∧ (spilt.frame i).pins = _
    rw [hframe]
    exact ⟨rfl, rfl⟩
  · rw [hdue]
    refine ⟨d, ?_, ?_⟩
    · rw [← hdevice, ← hwrite, hgiven]
      rfl
    · rw [hspilt]
      rfl
  · rw [hspilt]
    show List.eraseP (fun entry : SectorId × Fin n => entry.1 == old) [(old, i)] = []
    simp
  · rw [hspilt, heq]
    rfl
  · rw [hspilt, heq]
    rfl
  · rw [hspilt, heq]
    rfl
  · rw [hspilt, heq, hdue]
    rfl

/-- A vacated frame is filled. -/
theorem Vacated.loaded {fill : Fill} {given taken : Cache δ n} {log : List Event}
    (h : Vacated cache s i given) (hfetch : fetch i s fill given = ⟨.ok (), taken, log⟩) :
    Loaded cache fill s i taken := by
  obtain ⟨b, d, hgets, hframe, hother, htaken⟩ := fetch_ok hfetch
  obtain ⟨recency, hclaims, hrecency⟩ := h.lists
  refine ⟨⟨recency, ?_, ?_⟩, fun j hj => (hother j hj).trans (h.other j hj),
    ⟨b, given.device, h.device, ?_, ?_⟩, ?_, ?_, ?_, ?_, ?_⟩
  · rw [htaken]
    exact hclaims
  · rw [htaken]
    exact hrecency
  · rw [htaken]
    exact hgets
  · rw [hframe, ← h.frame.1, ← h.frame.2]
  · rw [htaken]
    exact h.evicting
  · rw [htaken]
    exact h.accesses
  · rw [htaken]
    exact h.hits
  · rw [htaken]
    exact congrArg (· + _) h.deviceReads
  · rw [htaken]
    exact h.deviceWrites

/-- **An access that ends well** found its sector in the cache, or gave a frame to it. -/
theorem acquire_ok {fill : Fill} {taken : Cache δ n} {log : List Event} (hout : cache.evicting = [])
    (h : acquire fill s cache = ⟨.ok i, taken, log⟩) :
    (cache.frameOf? s = some i ∧ taken = cache.found i) ∨
      (cache.frameOf? s = none ∧ Loaded cache fill s i taken) := by
  unfold acquire at h
  rw [Action.bind_def] at h
  cases hfind : cache.frameOf? s with
  | some j =>
    rw [seek_of_hit hfind] at h
    cases h
    exact Or.inl ⟨rfl, rfl⟩
  | none =>
    refine Or.inr ⟨rfl, ?_⟩
    cases hclaim : Cache.claim? { cache with accesses := cache.accesses + 1 } with
    | none =>
      rw [seek_of_exhausted hfind hout hclaim] at h
      cases h
    | some claimed =>
      obtain ⟨j, claimed⟩ := claimed
      obtain ⟨log₁, hseek⟩ := seek_of_claim hfind hout hclaim
      rw [hseek] at h
      -- what the frame had for the device is brought to it before the frame is filled
      cases hleaving : cache.leaving j with
      | none =>
        simp only [hleaving, Action.onFault, Action.bind_def, Action.pure_def] at h
        rcases hfetch : fetch j s fill (handOver claimed j s []) with ⟨_ | ⟨⟩, filled, log₂⟩
        · simp [hfetch] at h
        · simp only [Option.map_none, Option.toList_none, hfetch] at h
          cases h
          exact (vacated_of_clean hleaving hclaim).loaded hfetch
      | some old =>
        simp only [hleaving, Action.onFault, Action.bind_def, Action.pure_def, settle, Action.modify,
          Option.map_some, Option.toList_some] at h
        rcases hspill : spill j old (handOver claimed j s [(old, j)]) with ⟨_ | ⟨⟩, spilt, log₂⟩
        · simp [hspill] at h
        · simp only [hspill] at h
          rcases hfetch : fetch j s fill
            { spilt with evicting := spilt.evicting.eraseP fun entry => entry.1 == old } with
            ⟨_ | ⟨⟩, filled, log₃⟩
          · simp [hfetch] at h
          · simp only [hfetch] at h
            cases h
            exact (vacated_of_spill hleaving hclaim hspill).loaded hfetch

namespace Loaded

variable {fill : Fill} {taken : Cache δ n}

/-- A frame is given away that nobody has pinned. -/
theorem unpinned (h : Loaded cache fill s i taken) (hc : cache.Fitted) : (cache.frame i).pins = 0 := by
  obtain ⟨recency, hclaims, -⟩ := h.lists
  exact hclaims.pins hc

/-- The frame carries the sector now. -/
theorem carries (h : Loaded cache fill s i taken) : taken.Carries i s := by
  obtain ⟨recency, -, hrecency⟩ := h.lists
  obtain ⟨b, mid, -, -, hframe⟩ := h.filled
  refine ⟨hrecency ▸ List.mem_cons_self, ?_⟩
  rw [hframe]

/-- Another frame goes on carrying its sector. -/
theorem carries_of_ne (h : Loaded cache fill s i taken) (hj : cache.Carries j t) (hji : j ≠ i) :
    taken.Carries j t := by
  obtain ⟨recency, hclaims, hrecency⟩ := h.lists
  refine ⟨?_, h.other j hji ▸ hj.2⟩
  rw [hrecency]
  exact List.mem_cons_of_mem _ (hclaims.mem_of_ne hj.1 hji)

/-- A frame that carries a sector is the new one, or did so before. -/
theorem carries_cases (h : Loaded cache fill s i taken) (hj : taken.Carries j t) :
    (j = i ∧ t = s) ∨ (j ≠ i ∧ cache.Carries j t) := by
  by_cases hji : j = i
  · subst hji
    exact Or.inl ⟨rfl, hj.sector_eq h.carries⟩
  · obtain ⟨recency, hclaims, hrecency⟩ := h.lists
    refine Or.inr ⟨hji, ?_, h.other j hji ▸ hj.2⟩
    rcases List.mem_cons.mp (hrecency ▸ hj.1) with he | hmem
    · exact absurd he hji
    · exact hclaims.sublist.subset hmem

theorem fitted (h : Loaded cache fill s i taken) (hc : cache.Fitted) (hmiss : cache.frameOf? s = none) :
    taken.Fitted := by
  obtain ⟨recency, hclaims, hrecency⟩ := h.lists
  have hperm : (taken.recency ++ taken.free).Perm (cache.recency ++ cache.free) :=
    hrecency ▸ hclaims.perm
  refine ⟨hperm.nodup_iff.mpr hc.nodup, ?_, ?_, ?_, ?_, h.evicting⟩
  · intro j
    exact List.mem_append.mp (hperm.mem_iff.mpr (List.mem_append.mpr (hc.covers j)))
  · intro j hj
    by_cases hji : j = i
    · exact ⟨s, hji ▸ h.carries.2⟩
    · rw [h.other j hji]
      rcases List.mem_cons.mp (hrecency ▸ hj) with he | hmem
      · exact absurd he hji
      · exact hc.used j (hclaims.sublist.subset hmem)
  · intro j k t hj hk
    -- the new frame carries a sector that no frame carried before
    rcases h.carries_cases hj with ⟨rfl, rfl⟩ | ⟨-, hj⟩
    · rcases h.carries_cases hk with ⟨rfl, -⟩ | ⟨-, hk⟩
      · rfl
      · exact absurd hk (not_carries_of_frameOf? hmiss k)
    · rcases h.carries_cases hk with ⟨-, rfl⟩ | ⟨-, hk⟩
      · exact absurd hj (not_carries_of_frameOf? hmiss j)
      · exact hc.unique hj hk
  · -- what is still free was free before, and was not touched
    intro j hj
    have hji : j ≠ i := by
      rintro rfl
      exact (hclaims.not_mem hc).2 hj
    rw [h.other j hji]
    exact hc.unused j (hclaims.free_subset hj)

/-- The sector becomes the first one. Those that stay are those of the frames that were not given away. -/
theorem sectors_eq {recency : List (Fin n)} (h : Loaded cache fill s i taken) (hc : cache.Fitted)
    (hclaims : Claims cache i recency taken.free) (hrecency : taken.recency = i :: recency) :
    taken.sectors = s :: recency.filterMap fun j => (cache.frame j).sector := by
  unfold sectors
  rw [hrecency, List.filterMap_cons_some (f := fun j => (taken.frame j).sector) h.carries.2]
  congr 1
  refine List.filterMap_congr fun j hj => ?_
  rw [h.other j]
  rintro rfl
  exact (hclaims.not_mem hc).1 hj

end Loaded

/-! ## The whole cache -/

/-- What frames had for the device is on it, and they are clean. -/
structure Cleaned (frames : List (Fin n)) (cache cache' : Cache δ n) : Prop where
  device : Puts (frames.flatMap cache.due) cache.device cache'.device
  frame : ∀ j, cache'.frame j =
    { cache.frame j with dirty := (cache.frame j).dirty && decide (j ∉ frames) }
  recency : cache'.recency = cache.recency
  free : cache'.free = cache.free
  evicting : cache'.evicting = cache.evicting
  stats : cache'.stats = { cache.stats with
    deviceWrites := cache.deviceWrites + (frames.flatMap cache.due).length }

theorem writeBack_ok {log : List Event} (h : writeBack i cache = ⟨.ok (), cache', log⟩) :
    Cleaned [i] cache cache' := by
  have hframe : ∀ j, (cache.mapFrame i fun frame => { frame with dirty := false }).frame j =
      { cache.frame j with dirty := (cache.frame j).dirty && decide (j ∉ [i]) } := by
    intro j
    rw [frame_mapFrame]
    by_cases hj : j = i
    · simp [hj]
    · simp [hj]
  unfold writeBack at h
  cases hdirty : (cache.frame i).dirty with
  | false =>
    simp only [Action.bind_def, Action.get, hdirty, Bool.false_eq_true, if_false] at h
    cases h
    have hdue : [i].flatMap cache.due = [] := by
      rw [List.flatMap_singleton, due_of_clean hdirty]
    refine ⟨by rw [hdue]; rfl, fun j => ?_, rfl, rfl, rfl, by rw [hdue]; rfl⟩
    show cache.frame j = _
    by_cases hj : j = i
    · subst hj
      rw [hdirty, Bool.false_and, ← hdirty]
    · simp [hj]
  | true =>
    cases hs : (cache.frame i).sector with
    | none =>
      simp only [Action.bind_def, Action.get, hdirty, if_true, hs, Action.modify] at h
      cases h
      have hdue : [i].flatMap cache.due = [] := by
        rw [List.flatMap_singleton, due, leaving, hdirty, if_pos rfl, hs]
        rfl
      exact ⟨by rw [hdue]; rfl, hframe, rfl, rfl, rfl, by rw [hdue]; rfl⟩
    | some s =>
      simp only [Action.bind_def, Action.get, hdirty, if_true, hs, Action.emit, Action.modify] at h
      rcases hrun : writeDevice s (cache.frame i).data cache with ⟨_ | ⟨⟩, written, log'⟩
      · rw [hrun] at h
        cases h
      · rw [hrun] at h
        cases h
        obtain ⟨d, hwrite, rfl⟩ := writeDevice_ok hrun
        have hdue : [i].flatMap cache.due = [(s, (cache.frame i).data)] := by
          rw [List.flatMap_singleton, due_of_dirty hdirty hs]
        exact ⟨by rw [hdue]; exact ⟨d, hwrite, rfl⟩, hframe, rfl, rfl, rfl, by rw [hdue]; rfl⟩

/-- **Writing frames back** brings what they have for the device to it, in their order. -/
theorem writeBackAll_ok {frames : List (Fin n)} {log : List Event} (hnodup : frames.Nodup)
    (h : writeBackAll frames cache = ⟨.ok (), cache', log⟩) : Cleaned frames cache cache' := by
  induction frames generalizing cache log with
  | nil =>
    cases h
    exact ⟨rfl, fun j => by simp, rfl, rfl, rfl, rfl⟩
  | cons i rest ih =>
    obtain ⟨hi, hrest⟩ := List.nodup_cons.mp hnodup
    unfold writeBackAll at h
    rw [Action.bind_def] at h
    rcases hfirst : writeBack i cache with ⟨_ | ⟨⟩, first, log₁⟩
    · rw [hfirst] at h
      cases h
    · rw [hfirst] at h
      obtain ⟨hresult, hstate, -⟩ := Reply.mk.inj h
      have h₁ := writeBack_ok hfirst
      have h₂ : Cleaned rest first cache' :=
        ih hrest (show writeBackAll rest first = ⟨.ok (), cache', _⟩ by rw [← hresult, ← hstate])
      -- writing one frame back leaves to the others what they have for the device
      have hdue : rest.flatMap first.due = rest.flatMap cache.due := by
        refine List.flatMap_congr fun j hj => due_congr ?_
        have hji : j ≠ i := fun he => hi (he ▸ hj)
        rw [h₁.frame]
        simp [hji]
      have hsplit : (i :: rest).flatMap cache.due = [i].flatMap cache.due ++ rest.flatMap cache.due := by
        rw [List.flatMap_singleton, List.flatMap_cons]
      have hwrites : first.deviceWrites = _ := congrArg CacheStats.deviceWrites h₁.stats
      refine ⟨hsplit ▸ h₁.device.append (hdue ▸ h₂.device), fun j => ?_, h₂.recency.trans h₁.recency,
        h₂.free.trans h₁.free, h₂.evicting.trans h₁.evicting, ?_⟩
      · rw [h₂.frame, h₁.frame]
        by_cases hj : j = i
        · simp [hj]
        · simp [hj]
      · rw [h₂.stats, h₁.stats, hdue, hwrites, hsplit, List.length_append, Nat.add_assoc]

/-- **A flush that ends well.** -/
theorem flush_ok {log : List Event} (hc : cache.Fitted) (h : flush cache = ⟨.ok (), cache', log⟩) :
    Cleaned cache.recency.reverse cache cache' :=
  writeBackAll_ok (List.nodup_reverse.mpr hc.recency_nodup) h

namespace Cleaned

variable {frames : List (Fin n)}

theorem carries (h : Cleaned frames cache cache') : cache'.Carries j t ↔ cache.Carries j t := by
  unfold Carries
  rw [h.recency, h.frame]

theorem sectors_eq (h : Cleaned frames cache cache') : cache'.sectors = cache.sectors := by
  unfold sectors
  rw [h.recency]
  refine List.filterMap_congr fun j _ => ?_
  rw [h.frame]

theorem fitted (h : Cleaned frames cache cache') (hc : cache.Fitted) : cache'.Fitted := by
  refine hc.congr (h.recency ▸ List.Perm.refl _) h.free (h.evicting.trans hc.evicting) ?_ ?_
  · intro j
    rw [h.frame]
  · intro j hj
    rw [h.frame]
    simp [hc.unused j hj]

/-- After a flush every frame is clean. -/
theorem clean (h : Cleaned cache.recency.reverse cache cache') (hc : cache.Fitted) (j : Fin n) :
    cache'.frame j = { cache.frame j with dirty := false } := by
  rw [h.frame]
  cases hdirty : (cache.frame j).dirty with
  | false => rfl
  | true => simp [hc.mem_recency (Or.inl hdirty)]

end Cleaned

omit [BlockDevice δ] in
/-- Every frame was taken from its sector, and counting has started anew. -/
structure Emptied (cache cache' : Cache δ n) : Prop extends cache'.Fitted where
  recency : cache'.recency = []
  device : cache'.device = cache.device
  frame : ∀ j, (cache'.frame j).pins = 0 ∧ (cache'.frame j).dirty = false
  stats : cache'.stats = {}

omit [BlockDevice δ] in
theorem Emptied.sectors_eq (h : Emptied cache cache') : cache'.sectors = [] := by
  rw [sectors, h.recency]
  rfl

omit [BlockDevice δ] in
/-- Where every frame is clean and none is pinned, nothing stays when the cache forgets. -/
theorem forget_ok {log : List Event} (hc : cache.Fitted) (hp : cache.Unpinned)
    (hclean : ∀ j, (cache.frame j).dirty = false) (h : forget cache = ⟨.ok (), cache', log⟩) :
    Emptied cache cache' := by
  obtain ⟨forgotten, log', hrun, hforgotten⟩ := forget_eq hc.nodup
  obtain rfl : cache' = forgotten := congrArg Reply.state (h.symm.trans hrun)
  -- a frame would be kept only if it were pinned or dirty
  have hrecency : cache'.recency = [] := by
    refine List.eq_nil_iff_forall_not_mem.mpr fun j hj => ?_
    have hkeeps := (hforgotten.recency.mp hj).2
    rw [keeps, hclean, hp j] at hkeeps
    cases hkeeps
  have hframe : ∀ j, (cache'.frame j).pins = 0 ∧ (cache'.frame j).dirty = false := by
    intro j
    obtain ⟨hpins, hdirty⟩ := hforgotten.frame hc.covers j
    rw [hpins, hdirty]
    exact ⟨hp j, hclean j⟩
  have hlists := hforgotten.lists
  have hstats : cache'.stats = {} := by
    rw [← show (forget cache).state = cache' from congrArg Reply.state h]
    rfl
  refine ⟨⟨hlists.nodup_iff.mpr hc.nodup, ?_, ?_, ?_, fun j _ => (hframe j).symm, ?_⟩, hrecency,
    hforgotten.device, hframe, hstats⟩
  · intro j
    exact List.mem_append.mp (hlists.mem_iff.mpr (List.mem_append.mpr (hc.covers j)))
  · intro j hj
    rw [hrecency] at hj
    cases hj
  · intro j k t hj _
    rw [Carries, hrecency] at hj
    cases hj.1
  · exact hforgotten.evicting.trans hc.evicting

/-- **A reset that ends well** while no frame is pinned is a flush after which the cache is empty. -/
theorem reset_ok {log : List Event} (hc : cache.Fitted) (hp : cache.Unpinned)
    (h : reset cache = ⟨.ok (), cache', log⟩) :
    ∃ flushed, Cleaned cache.recency.reverse cache flushed ∧ Emptied flushed cache' := by
  unfold reset at h
  rw [Action.bind_def] at h
  rcases hflush : flush cache with ⟨_ | ⟨⟩, flushed, log₁⟩
  · rw [hflush] at h
    cases h
  · rw [hflush] at h
    obtain ⟨hresult, hstate, -⟩ := Reply.mk.inj h
    have hcleaned := flush_ok hc hflush
    refine ⟨flushed, hcleaned, forget_ok (hcleaned.fitted hc) (fun j => ?_) (fun j => ?_)
      (show forget flushed = ⟨.ok (), cache', (forget flushed).log⟩ by rw [← hresult, ← hstate])⟩
    · rw [hcleaned.clean hc]
      exact hp j
    · rw [hcleaned.clean hc]

end InodeStore.Cache