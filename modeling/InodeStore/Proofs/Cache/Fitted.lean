import InodeStore.Proofs.Cache.Coherence

/-!
# `Proofs.Cache.Fitted` — the frames and the lists of a cache

`Fitted` says that the frames of a cache and its lists fit together, and nothing of the device. Then `sectors`
are the sectors in the cache, each of them once. An access that finds its sector leaves `found`, and one that
does not is given a frame (`Claims`).
-/

namespace InodeStore.Cache

variable {δ : Type} {n : Nat} {cache cache' : Cache δ n} {s t : SectorId} {i j : Fin n}

/-! ## Frames and lists -/

/-- The frames and the lists fit together; nothing is said of the device. -/
structure Fitted (cache : Cache δ n) : Prop where
  /-- No frame is listed twice. -/
  nodup : (cache.recency ++ cache.free).Nodup
  /-- Every frame is listed. -/
  covers : ∀ i, i ∈ cache.recency ∨ i ∈ cache.free
  /-- A frame in use carries a sector. -/
  used : ∀ i ∈ cache.recency, ∃ s, (cache.frame i).sector = some s
  /-- A sector has one frame at most. -/
  unique : ∀ {i j s}, cache.Carries i s → cache.Carries j s → i = j
  /-- A frame not in use is clean, and nobody needs it. -/
  unused : ∀ i ∈ cache.free, (cache.frame i).dirty = false ∧ (cache.frame i).pins = 0
  /-- Nothing is on its way out. -/
  evicting : cache.evicting = []

/-- The sectors in the cache, the most recently used first. -/
def sectors (cache : Cache δ n) : List SectorId := cache.recency.filterMap fun i => (cache.frame i).sector

theorem Sound.fitted [BlockDevice δ] [LawfulDevice δ] (h : cache.Sound) : cache.Fitted where
  nodup := h.nodup
  covers := h.covers
  used i hi := by
    obtain ⟨-, s, hs, -⟩ := h.used i hi
    exact ⟨s, hs⟩
  unique := h.unique
  unused i hi := (h.unused i hi).2.2
  evicting := h.evicting

theorem blank_fitted (d : δ) : (blank n d).Fitted where
  nodup := by simpa [blank] using List.nodup_finRange n
  covers i := Or.inr (List.mem_finRange i)
  used i hi := absurd hi (by simp [blank])
  unique hi := absurd hi.1 (by simp [blank])
  unused i _ := by
    rw [frame_blank]
    exact ⟨rfl, rfl⟩
  evicting := rfl

namespace Fitted

theorem recency_nodup (h : cache.Fitted) : cache.recency.Nodup := (List.nodup_append.mp h.nodup).1

/-- Every frame is in use or free. -/
theorem length_eq (h : cache.Fitted) : cache.recency.length + cache.free.length = n := by
  have hall : (cache.recency ++ cache.free).toFinset = Finset.univ :=
    Finset.eq_univ_of_forall fun i => List.mem_toFinset.mpr (List.mem_append.mpr (h.covers i))
  rw [← List.length_append, ← List.toFinset_card_of_nodup h.nodup, hall, Finset.card_univ,
    Fintype.card_fin]

/-- A frame in use is not a free one. -/
theorem not_mem_free (h : cache.Fitted) (hi : i ∈ cache.recency) : i ∉ cache.free :=
  fun hf => (List.nodup_append.mp h.nodup).2.2 i hi i hf rfl

/-- A frame that is dirty or pinned is in use. -/
theorem mem_recency (h : cache.Fitted) (hi : (cache.frame i).dirty = true ∨ 0 < (cache.frame i).pins) :
    i ∈ cache.recency := by
  rcases h.covers i with hused | hfree
  · exact hused
  · obtain ⟨hclean, hpins⟩ := h.unused i hfree
    rcases hi with hi | hi
    · rw [hclean] at hi
      cases hi
    · omega

/-- What matters is which frames are listed and what they carry, and that free ones stay unused. -/
theorem congr (h : cache.Fitted) (hrecency : cache'.recency.Perm cache.recency)
    (hfree : cache'.free = cache.free) (hevicting : cache'.evicting = [])
    (hsector : ∀ j, (cache'.frame j).sector = (cache.frame j).sector)
    (hunused : ∀ j ∈ cache.free, (cache'.frame j).dirty = false ∧ (cache'.frame j).pins = 0) :
    cache'.Fitted where
  nodup := hfree ▸ (hrecency.append_right _).nodup_iff.mpr h.nodup
  covers j := by
    rw [hfree, hrecency.mem_iff]
    exact h.covers j
  used j hj := by
    rw [hsector]
    exact h.used j (hrecency.mem_iff.mp hj)
  unique hj hk := h.unique ⟨hrecency.mem_iff.mp hj.1, (hsector _).symm.trans hj.2⟩
    ⟨hrecency.mem_iff.mp hk.1, (hsector _).symm.trans hk.2⟩
  unused j hj := hunused j (hfree ▸ hj)
  evicting := hevicting

/-- A change of a frame in use that leaves it with its sector keeps the parts fitted together. -/
theorem mapFrame (h : cache.Fitted) (hi : i ∈ cache.recency) {change : Frame → Frame}
    (hsector : (change (cache.frame i)).sector = (cache.frame i).sector) :
    (cache.mapFrame i change).Fitted := by
  refine h.congr (List.Perm.refl _) rfl h.evicting (mapFrame_keeps Frame.sector hsector) ?_
  intro j hj
  have hji : j ≠ i := by
    rintro rfl
    exact h.not_mem_free hi hj
  rw [frame_mapFrame_of_ne _ _ hji]
  exact h.unused j hj

/-- A frame in use can be made the most recently used one. -/
theorem touch (h : cache.Fitted) (hi : i ∈ cache.recency) : (cache.touch i).Fitted :=
  h.congr (List.perm_cons_erase hi).symm rfl h.evicting (fun _ => rfl) h.unused

/-- Counters do not matter. -/
theorem counted (h : cache.Fitted) (accesses hits : Nat) :
    ({ cache with accesses, hits } : Cache δ n).Fitted :=
  h.congr (List.Perm.refl _) rfl h.evicting (fun _ => rfl) h.unused

/-- A sector is in the cache if one of the frames in use carries it. -/
theorem carries_iff_frameOf? (h : cache.Fitted) : cache.Carries i s ↔ cache.frameOf? s = some i := by
  refine ⟨fun hi => ?_, carries_of_frameOf?⟩
  cases hfind : cache.frameOf? s with
  | none => exact absurd hi (not_carries_of_frameOf? hfind i)
  | some j => rw [h.unique hi (carries_of_frameOf? hfind)]

/-- Whether a sector is dirty is told by its frame. -/
theorem isDirty_eq (h : cache.Fitted) (hi : cache.Carries i s) : cache.isDirty s = (cache.frame i).dirty := by
  rw [isDirty, h.carries_iff_frameOf?.mp hi]

/-- A dirty sector is one that a dirty frame carries. -/
theorem isDirty_iff (h : cache.Fitted) :
    cache.isDirty s = true ↔ ∃ i, cache.Carries i s ∧ (cache.frame i).dirty = true := by
  constructor
  · intro hs
    unfold isDirty at hs
    split at hs
    · next i hfind => exact ⟨i, carries_of_frameOf? hfind, hs⟩
    · cases hs
  · rintro ⟨i, hi, hdirty⟩
    rw [h.isDirty_eq hi, hdirty]

/-- Where every frame is clean nothing in the cache is newer than what the device has. -/
theorem isDirty_of_clean (h : cache.Fitted) (hclean : ∀ j, (cache.frame j).dirty = false) (s : SectorId) :
    cache.isDirty s = false := by
  rw [← Bool.not_eq_true, h.isDirty_iff]
  rintro ⟨j, -, hj⟩
  rw [hclean] at hj
  cases hj

end Fitted

theorem mem_sectors : s ∈ cache.sectors ↔ ∃ i, cache.Carries i s := List.mem_filterMap

/-- A sector is in the cache if it is one of its sectors. -/
theorem isCached_iff_mem : cache.isCached s = true ↔ s ∈ cache.sectors := by
  rw [mem_sectors, isCached, Option.isSome_iff_exists]
  constructor
  · rintro ⟨i, hi⟩
    exact ⟨i, carries_of_frameOf? hi⟩
  · rintro ⟨i, hi⟩
    cases hfind : cache.frameOf? s with
    | some j => exact ⟨j, rfl⟩
    | none => exact absurd hi (not_carries_of_frameOf? hfind i)

theorem isCached_eq_false_iff : cache.isCached s = false ↔ cache.frameOf? s = none := by
  rw [isCached, Option.isSome_eq_false_iff, Option.isNone_iff_eq_none]

/-! ## An access that finds its sector -/

/-- What an access leaves behind that found its sector in the cache. -/
def found (cache : Cache δ n) (i : Fin n) : Cache δ n :=
  ({ cache with accesses := cache.accesses + 1, hits := cache.hits + 1 }.touch i).pin i

/-- What an access that found its sector does to the frames: one more pin. -/
theorem frame_found : (cache.found i).frame j =
    if j = i then { cache.frame i with pins := (cache.frame i).pins + 1 } else cache.frame j := by
  unfold found pin
  rw [frame_mapFrame]
  rfl

/-- So what is not the count of pins is as it was. -/
theorem field_found {β : Type} (field : Frame → β)
    (hfield : ∀ frame pins, field { frame with pins } = field frame) :
    field ((cache.found i).frame j) = field (cache.frame j) := by
  rw [frame_found]
  split
  · next hj => rw [hfield, hj]
  · rfl

@[simp] theorem sector_found : ((cache.found i).frame j).sector = (cache.frame j).sector :=
  field_found Frame.sector fun _ _ => rfl

@[simp] theorem dirty_found : ((cache.found i).frame j).dirty = (cache.frame j).dirty :=
  field_found Frame.dirty fun _ _ => rfl

@[simp] theorem data_found : ((cache.found i).frame j).data = (cache.frame j).data :=
  field_found Frame.data fun _ _ => rfl

theorem carries_found (hi : i ∈ cache.recency) : (cache.found i).Carries j t ↔ cache.Carries j t := by
  unfold Carries
  rw [sector_found]
  show j ∈ i :: cache.recency.erase i ∧ _ ↔ _
  rw [← (List.perm_cons_erase hi).mem_iff]

/-- Without a frame, the sectors of a list of frames are those without the sector of the frame. -/
theorem filterMap_erase {α β : Type} [DecidableEq α] [DecidableEq β] {f : α → Option β} {x : α} {y : β}
    (hx : f x = some y) : ∀ {l : List α}, (∀ z ∈ l, f z = some y → z = x) →
      (l.erase x).filterMap f = (l.filterMap f).erase y := by
  intro l
  induction l with
  | nil => exact fun _ => rfl
  | cons z rest ih =>
    intro h
    by_cases hzx : z = x
    · subst hzx
      rw [List.erase_cons_head, List.filterMap_cons_some hx, List.erase_cons_head]
    · have hrest := ih fun w hw => h w (List.mem_cons_of_mem _ hw)
      rw [List.erase_cons_tail (by simpa using hzx)]
      cases hz : f z with
      | none => rw [List.filterMap_cons_none hz, List.filterMap_cons_none hz, hrest]
      | some w =>
        have hwy : w ≠ y := by
          rintro rfl
          exact hzx (h z List.mem_cons_self hz)
        rw [List.filterMap_cons_some hz, List.filterMap_cons_some hz, hrest,
          List.erase_cons_tail (by simpa using hwy)]

namespace Fitted

theorem sectors_nodup (h : cache.Fitted) : cache.sectors.Nodup := by
  refine List.pairwise_filterMap.mpr (h.recency_nodup.imp_of_mem fun {i j} hi hj hij => ?_)
  rintro s hs t ht rfl
  exact hij (h.unique ⟨hi, hs⟩ ⟨hj, ht⟩)

theorem sectors_erase (h : cache.Fitted) (hi : cache.Carries i s) :
    ((cache.recency.erase i).filterMap fun j => (cache.frame j).sector) = cache.sectors.erase s :=
  filterMap_erase (f := fun j => (cache.frame j).sector) hi.2 fun _ hj hs => h.unique ⟨hj, hs⟩ hi

theorem found (h : cache.Fitted) (hi : cache.Carries i s) : (cache.found i).Fitted := by
  have htouched := (h.counted (cache.accesses + 1) (cache.hits + 1)).touch (i := i) hi.1
  unfold Cache.found pin
  exact htouched.mapFrame List.mem_cons_self rfl

/-- A sector that is found becomes the first one. -/
theorem sectors_found (h : cache.Fitted) (hi : cache.Carries i s) :
    (cache.found i).sectors = s :: cache.sectors.erase s := by
  unfold sectors
  simp only [sector_found]
  show List.filterMap (fun j => (cache.frame j).sector) (i :: cache.recency.erase i) = _
  rw [List.filterMap_cons_some (f := fun j => (cache.frame j).sector) hi.2, h.sectors_erase hi]
  rfl

end Fitted

/-! ## A frame that is given away -/

/-- Frame `i` is given away: the first free one, or else the one used longest ago of those that nobody has
    pinned. The lists are those without it. -/
inductive Claims (cache : Cache δ n) (i : Fin n) : List (Fin n) → List (Fin n) → Prop where
  | fresh {rest : List (Fin n)} (h : cache.free = i :: rest) : Claims cache i cache.recency rest
  | taken (hfree : cache.free = [])
      (hlast : (cache.recency.reverse.find? fun j => (cache.frame j).pins == 0) = some i) :
      Claims cache i (cache.recency.erase i) []

section Claims

variable {recency free : List (Fin n)}

theorem claim?_eq_some {claimed : Cache δ n} {accesses : Nat}
    (h : claim? { cache with accesses } = some (i, claimed)) :
    Claims cache i claimed.recency claimed.free ∧
      claimed = { cache with recency := claimed.recency, free := claimed.free, accesses } := by
  unfold claim? at h
  cases hfree : cache.free with
  | cons j rest =>
    simp only [hfree] at h
    cases h
    exact ⟨.fresh hfree, rfl⟩
  | nil =>
    simp only [hfree] at h
    split at h
    · next j hlast =>
      cases h
      exact ⟨.taken hfree hlast, rfl⟩
    · cases h

theorem Claims.pins (h : Claims cache i recency free) (hc : cache.Fitted) : (cache.frame i).pins = 0 := by
  cases h with
  | fresh h => exact (hc.unused i (h ▸ List.mem_cons_self)).2
  | taken hfree hlast =>
    have := List.find?_some hlast
    exact beq_iff_eq.mp this

theorem Claims.perm (h : Claims cache i recency free) :
    ((i :: recency) ++ free).Perm (cache.recency ++ cache.free) := by
  cases h with
  | fresh h =>
    rw [h]
    exact List.perm_middle.symm
  | taken hfree hlast =>
    rw [hfree]
    have hi : i ∈ cache.recency := List.mem_reverse.mp (List.mem_of_find?_eq_some hlast)
    exact (List.perm_cons_erase hi).symm.append_right _

theorem Claims.sublist (h : Claims cache i recency free) : recency.Sublist cache.recency := by
  cases h with
  | fresh h => exact List.Sublist.refl _
  | taken hfree hlast => exact List.erase_sublist

theorem Claims.free_subset (h : Claims cache i recency free) : free ⊆ cache.free := by
  cases h with
  | fresh h =>
    rw [h]
    exact List.subset_cons_self _ _
  | taken hfree hlast => exact List.nil_subset _

/-- The frame that is given away is in neither list. -/
theorem Claims.not_mem (h : Claims cache i recency free) (hc : cache.Fitted) : i ∉ recency ∧ i ∉ free := by
  have hnodup := (h.perm.nodup_iff).mpr hc.nodup
  rw [List.cons_append, List.nodup_cons, List.mem_append, not_or] at hnodup
  exact hnodup.1

/-- Every other frame in use stays so. -/
theorem Claims.mem_of_ne (h : Claims cache i recency free) (hj : j ∈ cache.recency) (hji : j ≠ i) :
    j ∈ recency := by
  cases h with
  | fresh h => exact hj
  | taken hfree hlast => exact (List.mem_erase_of_ne hji).mpr hj

end Claims

end InodeStore.Cache
