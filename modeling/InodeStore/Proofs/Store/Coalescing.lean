import InodeStore.Proofs.Store.Touches

/-!
# `Proofs.Store.Coalescing` — changes that reach the device as one

A sector that is changed several times goes to the device once if it stays in the cache from its first change
to its last. Whether it does can be told from the order of the uses: `Coalesces` follows the front of the cache
through a list of uses, where every sector that was changed before has to be at the front still when it is used
again. Then each sector that is changed is charged once (`Fronted.passes`).

Two kinds of lists are common. Uses of sectors that are all at the front bring the front into their order
(`Coalesces.sweep`), and sectors that are changed but once need not stay at all (`Coalesces.scatter`).
-/

namespace InodeStore

/-- The sector that is used. -/
def Touch.sector? : Touch → Option SectorId
  | .look s | .soil s => some s
  | .flush | .reset => none

/-- The sector that is changed. -/
def Touch.soiled? : Touch → Option SectorId
  | .soil s => some s
  | _ => none

namespace Cache

/-! ## The front of a cache -/

section Fronted

variable {δ : Type} [BlockDevice δ] {n base : Nat} {cache cache' : Cache (Journaled δ) n} {s : SectorId}
  {soils : Bool} {front front' rest charged charged' a b : List SectorId}

omit [BlockDevice δ] in
/-- The sectors of `front` are the ones used last, in this order, and dirty; those of `charged` were changed, each as
    often as it stands there, and are on the device if they are not dirty. -/
structure Fronted (base : Nat) (front charged : List SectorId) (cache : Cache (Journaled δ) n) : Prop where
  fitted : cache.Fitted
  unpinned : cache.Unpinned
  first : front <+: cache.sectors
  dirty : ∀ t ∈ front, cache.isDirty t = true
  charges : ∀ t, cache.charges t = charged.count t
  writes : cache.deviceWrites = base + cache.device.written.length

omit [BlockDevice δ] in
theorem Fronted.trim (h : Fronted base (front ++ rest) charged cache) : Fronted base front charged cache :=
  { h with
    first := (List.prefix_append front rest).trans h.first
    dirty := fun t ht => h.dirty t (List.mem_append_left rest ht) }

omit [BlockDevice δ] in
/-- What is not charged is clean. -/
theorem Fronted.clean (h : Fronted base front charged cache) (hs : s ∉ charged) : cache.isDirty s = false := by
  have hcharges := h.charges s
  rw [List.count_eq_zero_of_not_mem hs] at hcharges
  unfold Cache.charges at hcharges
  cases hdirty : cache.isDirty s with
  | false => rfl
  | true =>
    rw [hdirty] at hcharges
    exact absurd hcharges (Nat.succ_ne_zero _)

/-- A use of a sector: it is charged if it is changed and was clean. -/
theorem Fronted.after (h : Fronted base front charged cache) (hrun : Handled s soils cache cache')
    (hfirst : front' <+: cache'.sectors)
    (hdirty : ∀ t ∈ front', cache.isDirty t = true ∨ t = s ∧ soils = true)
    (hcharged : charged' = if soils = true ∧ cache.isDirty s = false then s :: charged else charged) :
    Fronted base front' charged' cache' where
  fitted := hrun.fitted h.fitted
  unpinned := hrun.unpinned h.fitted h.unpinned
  first := hfirst
  dirty t ht := by
    rw [hrun.isDirty_of_mem h.fitted (hfirst.subset ht), Bool.or_eq_true, decide_eq_true_iff]
    exact hdirty t ht
  charges t := by
    rw [(hrun.charges h.fitted t).1, h.charges, hcharged]
    by_cases hsoils : soils = true ∧ cache.isDirty s = false
    · rw [if_pos hsoils]
      by_cases hts : t = s
      · rw [if_pos ⟨hts, hsoils⟩, hts, List.count_cons_self]
      · rw [if_neg fun hall => hts hall.1, List.count_cons_of_ne (Ne.symm hts), Nat.add_zero]
    · rw [if_neg hsoils, if_neg fun hall => hsoils hall.2, Nat.add_zero]
  writes := by
    have hwrites := (hrun.charges h.fitted s).2
    have hbefore := h.writes
    omega

/-- **A sector at the front** is used once more. -/
theorem Fronted.again (h : Fronted base (a ++ s :: b) charged cache) (hrun : Handled s soils cache cache') :
    Fronted base (s :: (a ++ b)) charged cache' := by
  have hs : cache.isDirty s = true := h.dirty s (by simp)
  obtain ⟨rest, hsectors⟩ := h.first
  have hsplit : cache.sectors = a ++ s :: (b ++ rest) := by
    rw [← hsectors, List.append_assoc, List.cons_append]
  have hfresh : s ∉ a := by
    have hnodup := hsplit ▸ h.fitted.sectors_nodup
    exact fun ha => (List.nodup_append.mp hnodup).2.2 s ha s List.mem_cons_self rfl
  have hothers : cache.sectors.filter (· != s) = (a ++ b) ++ rest := by
    rw [← h.fitted.sectors_nodup.erase_eq_filter, hsplit, List.erase_append_right _ hfresh,
      List.erase_cons_head, List.append_assoc]
  refine h.after hrun ?_ (fun t ht => .inl (h.dirty t ?_)) ?_
  · rw [hrun.sectors h.fitted h.unpinned, hothers]
    refine List.cons_prefix_cons.mpr ⟨rfl, List.prefix_take_iff.mpr ⟨List.prefix_append _ _, ?_⟩⟩
    have hle := cache.sectors_length_le
    have hlength := h.fitted.length_eq
    simp only [hsplit, List.length_append, List.length_cons] at hle ⊢
    omega
  · simp only [List.mem_cons, List.mem_append] at ht ⊢
    tauto
  · rw [hs, if_neg fun hall => Bool.noConfusion hall.2]

/-- **A clean sector** is changed for the first time. -/
theorem Fronted.fresh (h : Fronted base front charged cache) (hrun : Handled s true cache cache')
    (hs : s ∉ charged) (hroom : front.length < n) : Fronted base (s :: front) (s :: charged) cache' := by
  have hclean := h.clean hs
  obtain ⟨rest, hsectors⟩ := h.first
  have hothers : front <+: cache.sectors.filter (· != s) := by
    rw [← hsectors, List.filter_append, List.filter_eq_self.mpr fun t ht => bne_iff_ne.mpr ?_]
    · exact List.prefix_append _ _
    · rintro rfl
      rw [h.dirty t ht] at hclean
      cases hclean
  refine h.after hrun ?_ (fun t ht => ?_) (if_pos ⟨rfl, hclean⟩).symm
  · rw [hrun.sectors h.fitted h.unpinned]
    exact List.cons_prefix_cons.mpr ⟨rfl, List.prefix_take_iff.mpr ⟨hothers, Nat.le_sub_one_of_lt hroom⟩⟩
  · rcases List.mem_cons.mp ht with rfl | ht
    · exact .inr ⟨rfl, rfl⟩
    · exact .inl (h.dirty t ht)

/-- A sector is looked at. -/
theorem Fronted.glance (h : Fronted base front charged cache) (hrun : Handled s false cache cache') :
    Fronted base [] charged cache' :=
  h.after hrun List.nil_prefix (fun _ ht => absurd ht List.not_mem_nil) rfl

end Fronted

/-! ## Lists of uses -/

/-- Uses through which a cache of `m` frames or more is followed from one front to another. A sector that was changed
    before and is changed again, or looked at, is at the front; so nothing that was changed leaves the cache and comes
    back. -/
inductive Coalesces (m : Nat) :
    (front charged : List SectorId) → List Touch → (front' charged' : List SectorId) → Prop where
  | done {front charged : List SectorId} : Coalesces m front charged [] front charged
  /-- A sector at the front is used. -/
  | again {s : SectorId} {touch : Touch} (a b : List SectorId) {charged front' charged' : List SectorId}
      {rest : List Touch} (htouch : touch.sector? = some s)
      (hrest : Coalesces m (s :: (a ++ b)) charged rest front' charged') :
      Coalesces m (a ++ s :: b) charged (touch :: rest) front' charged'
  /-- A sector is changed for the first time. -/
  | fresh {s : SectorId} {front charged front' charged' : List SectorId} {rest : List Touch} (hs : s ∉ charged)
      (hroom : front.length < m) (hrest : Coalesces m (s :: front) (s :: charged) rest front' charged') :
      Coalesces m front charged (.soil s :: rest) front' charged'
  /-- A sector is looked at, whatever it is. -/
  | glance {s : SectorId} {front charged front' charged' : List SectorId} {rest : List Touch}
      (hrest : Coalesces m [] charged rest front' charged') :
      Coalesces m front charged (.look s :: rest) front' charged'
  /-- The last sectors of the front need not be kept. -/
  | trim (front dropped : List SectorId) {charged front' charged' : List SectorId} {l : List Touch}
      (h : Coalesces m front charged l front' charged') : Coalesces m (front ++ dropped) charged l front' charged'

/-- **A cache is followed** through the uses it passes through. -/
theorem Fronted.passes {δ : Type} [BlockDevice δ] {m n base : Nat} {front charged front' charged' : List SectorId}
    {l : List Touch} {cache cache' : Cache (Journaled δ) n} (h : Fronted base front charged cache)
    (hl : Coalesces m front charged l front' charged') (hn : m ≤ n) (hpasses : Passes l cache cache') :
    Fronted base front' charged' cache' := by
  induction hl generalizing cache with
  | done =>
    cases hpasses
    exact h
  | @again s touch a b _ _ _ _ htouch _ ih =>
    cases touch with
    | look t =>
      cases htouch
      cases hpasses with
      | look hrun hrest => exact ih (h.again hrun) hrest
    | soil t =>
      cases htouch
      cases hpasses with
      | soil hrun hrest => exact ih (h.again hrun) hrest
    | _ => cases htouch
  | fresh hs hroom _ ih =>
    cases hpasses with
    | soil hrun hrest => exact ih (h.fresh hrun hs (Nat.lt_of_lt_of_le hroom hn)) hrest
  | glance _ ih =>
    cases hpasses with
    | look hrun hrest => exact ih (h.glance hrun) hrest
  | trim _ _ _ ih => exact ih h.trim hpasses

section Coalesces

variable {m : Nat} {front mid front' charged charged' charged'' done rest l : List SectorId}
  {touches touches' : List Touch}

theorem Coalesces.append (h : Coalesces m front charged touches mid charged')
    (h' : Coalesces m mid charged' touches' front' charged'') :
    Coalesces m front charged (touches ++ touches') front' charged'' := by
  induction h with
  | done => exact h'
  | again a b htouch _ ih => exact .again a b htouch (ih h')
  | fresh hs hroom _ ih => exact .fresh hs hroom (ih h')
  | glance _ ih => exact .glance (ih h')
  | trim front dropped _ ih => exact .trim front dropped (ih h')

/-- **Sectors at the front** that are used, each of them once, are the front afterwards. -/
theorem Coalesces.sweep_after (htouches : touches.map Touch.sector? = l.map some) (hl : l.Nodup) (hrest : l ⊆ rest) :
    Coalesces m (done ++ rest) charged touches (l.reverse ++ done) charged := by
  -- `done` are the sectors used so far, the last one first
  induction touches generalizing l done rest with
  | nil =>
    obtain rfl : l = [] := by simpa using htouches.symm
    exact .trim done rest .done
  | cons touch touches ih =>
    match l, htouches with
    | s :: l, htouches =>
      rw [List.map_cons, List.map_cons] at htouches
      obtain ⟨htouch, htouches⟩ := List.cons.inj htouches
      obtain ⟨hs, hl⟩ := List.nodup_cons.mp hl
      obtain ⟨hmem, hrest⟩ := List.cons_subset.mp hrest
      obtain ⟨a, b, rfl⟩ := List.append_of_mem hmem
      have hothers : l ⊆ a ++ b := by
        intro t ht
        have hne : t ≠ s := fun he => hs (he ▸ ht)
        have ht := hrest ht
        simp only [List.mem_append, List.mem_cons] at ht ⊢
        tauto
      have hlast : Coalesces m ((s :: done) ++ (a ++ b)) charged touches (l.reverse ++ (s :: done)) charged :=
        ih htouches hl hothers
      rw [← List.append_assoc]
      refine .again (done ++ a) b htouch ?_
      rw [List.reverse_cons, List.append_assoc, List.append_assoc]
      exact hlast

theorem Coalesces.sweep (htouches : touches.map Touch.sector? = l.map some) (hl : l.Nodup) (hfront : l ⊆ front) :
    Coalesces m front charged touches l.reverse charged := by
  have hsweep : Coalesces m ([] ++ front) charged touches (l.reverse ++ []) charged :=
    Coalesces.sweep_after htouches hl hfront
  rwa [List.append_nil] at hsweep

/-- **Sectors that are changed once** are charged, whatever is looked at in between. -/
theorem Coalesces.scatter (hm : 0 < m) (htouches : ∀ touch ∈ touches, touch.sector? ≠ none)
    (hfresh : ((touches.filterMap Touch.soiled?).reverse ++ charged).Nodup) :
    Coalesces m front charged touches [] ((touches.filterMap Touch.soiled?).reverse ++ charged) := by
  -- no sector is used again, so nothing need be known of the front
  induction touches generalizing front charged with
  | nil => exact .trim [] front .done
  | cons touch rest ih =>
    have hothers : ∀ touch ∈ rest, touch.sector? ≠ none := fun t ht => htouches t (List.mem_cons_of_mem _ ht)
    cases touch with
    | look s => exact .glance (ih hothers hfresh)
    | soil s =>
      have hsoiled : ((Touch.soil s :: rest).filterMap Touch.soiled?).reverse ++ charged =
          (rest.filterMap Touch.soiled?).reverse ++ s :: charged := by
        rw [List.filterMap_cons_some (f := Touch.soiled?) rfl, List.reverse_cons, List.append_assoc]
        rfl
      rw [hsoiled] at hfresh ⊢
      have hs : s ∉ charged := (List.nodup_cons.mp (List.nodup_append.mp hfresh).2.1).1
      exact .trim [] front (.fresh hs hm (ih hothers hfresh))
    | flush => exact absurd rfl (htouches _ List.mem_cons_self)
    | reset => exact absurd rfl (htouches _ List.mem_cons_self)

end Coalesces

/-! ## From one flush to the next -/

section Flushed

variable {δ : Type} [BlockDevice δ] {n base : Nat} {cache cache' : Cache (Journaled δ) n}
  {front charged : List SectorId} {log : List Event}

omit [BlockDevice δ] in
/-- Where nothing is dirty and the journal is empty, nothing is charged. -/
theorem Fronted.start (hfitted : cache.Fitted) (hunpinned : cache.Unpinned) (hclean : ∀ t, cache.isDirty t = false)
    (hempty : cache.device.written = []) : Fronted cache.deviceWrites [] [] cache where
  fitted := hfitted
  unpinned := hunpinned
  first := List.nil_prefix
  dirty := nofun
  charges t := by
    rw [Cache.charges, hempty, hclean]
    rfl
  writes := by
    rw [hempty]
    rfl

/-- **A flush** brings to the device what was changed and is not there yet, so that the journal has what was
    charged. -/
theorem Fronted.flushed (h : Fronted base front charged cache) (hflush : Cache.flush cache = ⟨.ok (), cache', log⟩) :
    (cache'.device.written.map Prod.fst).Perm charged ∧ cache'.deviceWrites = base + cache'.device.written.length := by
  have hcleaned := flush_ok h.fitted hflush
  refine ⟨List.perm_iff_count.mpr fun t => ?_, ?_⟩
  · obtain ⟨hcharges, hclean, -⟩ := hcleaned.charges h.fitted t
    rw [← h.charges, ← hcharges, Cache.charges, hclean, List.count, List.countP_map]
    exact List.countP_congr fun e _ => beq_iff_eq.trans decide_eq_true_iff.symm
  · obtain ⟨-, -, hwrites⟩ := hcleaned.charges h.fitted 0
    have hbefore := h.writes
    omega

end Flushed

end Cache

end InodeStore
