import InodeStore.Proofs.Store.Touches
import InodeStore.Proofs.Store.Watching

/-!
# `Proofs.Store.Warming` — a cache with room for all that is looked at

`Warm owned cache` is what becomes of an empty cache by looking at sectors of a list that is not longer than
there are frames. None of them leaves the cache again, so the device was asked for those in the cache, each of
them once, and for nothing else. Further looks at sectors of the list keep the cache so and bring these sectors
into it (`Warm.passes`).
-/

namespace InodeStore.Cache

variable {δ : Type} {n : Nat}

/-- What becomes of an empty cache by looking at sectors of a list. -/
structure Warm (owned : List SectorId) (cache : Cache (Watched δ) n) : Prop where
  fitted : cache.Fitted
  unpinned : cache.Unpinned
  clean : ∀ s, cache.isDirty s = false
  /-- There are only sectors of the list in the cache. -/
  inside : cache.sectors ⊆ owned
  /-- The device was asked for each of these once. -/
  asked : cache.device.asked.Perm cache.sectors
  reads : cache.deviceReads = cache.device.asked.length
  writes : cache.deviceWrites = 0
  /-- What was not a hit was read. -/
  accesses : cache.accesses = cache.hits + cache.deviceReads

/-- Where no sector is dirty no frame has anything for the device. -/
theorem Fitted.due_of_clean {δ : Type} {cache : Cache δ n} (h : cache.Fitted) (hclean : ∀ s, cache.isDirty s = false)
    (i : Fin n) : cache.due i = [] := by
  refine Cache.due_of_clean (Bool.not_eq_true _ ▸ fun hdirty => ?_)
  obtain ⟨s, hs⟩ := h.used i (h.mem_recency (Or.inl hdirty))
  have hsector := h.isDirty_iff.mpr ⟨i, ⟨h.mem_recency (Or.inl hdirty), hs⟩, hdirty⟩
  rw [hclean s] at hsector
  cases hsector

/-- An emptied cache is watched from now on. -/
theorem Warm.of_emptied {before emptied : Cache δ n} {owned : List SectorId} (h : Emptied before emptied) :
    Warm owned (emptied.watched []) where
  fitted := ⟨h.nodup, h.covers, h.used, h.unique, h.unused, h.evicting⟩
  unpinned j := (h.frame j).1
  clean := h.toFitted.isDirty_of_clean fun j => (h.frame j).2
  inside s hs := absurd (h.sectors_eq ▸ hs : s ∈ []) List.not_mem_nil
  asked := by
    rw [show (emptied.watched []).sectors = [] from h.sectors_eq]
    exact .nil
  reads := congrArg CacheStats.deviceReads h.stats
  writes := congrArg CacheStats.deviceWrites h.stats
  accesses := by
    have hstats := h.stats
    unfold stats at hstats
    injection hstats with haccesses hhits hreads _
    show emptied.accesses = emptied.hits + emptied.deviceReads
    rw [haccesses, hhits, hreads]

variable {cache cache' taken : Cache (Watched δ) n} {owned : List SectorId} {s : SectorId} {i : Fin n}
  {log : List Event}

/-- There are no more sectors in the cache than in the list. -/
theorem Warm.room (h : Warm owned cache) (hroom : owned.length ≤ n) (hs : s ∈ owned) :
    (cache.sectors.filter (· != s)).length ≤ n - 1 := by
  have hnodup : (s :: cache.sectors.filter (· != s)).Nodup :=
    List.nodup_cons.mpr ⟨by simp, h.fitted.sectors_nodup.filter _⟩
  have hsubset : s :: cache.sectors.filter (· != s) ⊆ owned := by
    intro t ht
    rcases List.mem_cons.mp ht with rfl | ht
    · exact hs
    · exact h.inside (List.mem_filter.mp ht).1
  have hle := (hnodup.subperm hsubset).length_le
  rw [List.length_cons] at hle
  omega

variable [BlockDevice δ]

/-- A look makes nothing dirty. -/
theorem Handled.clean (h : Handled s false cache cache') (hc : cache.Fitted) (hclean : ∀ t, cache.isDirty t = false)
    (t : SectorId) : cache'.isDirty t = false := by
  by_cases ht : t ∈ cache'.sectors
  · rw [h.isDirty_of_mem hc ht, hclean]
    simp
  · rw [← Bool.not_eq_true, (h.fitted hc).isDirty_iff]
    rintro ⟨j, hj, -⟩
    exact ht (mem_sectors.mpr ⟨j, hj⟩)

/-- Where nothing is dirty, the device is asked for a sector that is looked at if it is not in the cache, and for
    nothing else. -/
theorem Handled.asks (h : Handled s false cache cache') (hc : cache.Fitted) (hclean : ∀ t, cache.isDirty t = false) :
    cache'.accesses = cache.accesses + 1 ∧ cache'.deviceWrites = cache.deviceWrites ∧
      (s ∈ cache.sectors ∧ cache'.device.asked = cache.device.asked ∧ cache'.deviceReads = cache.deviceReads ∧
          cache'.hits = cache.hits + 1 ∨
        s ∉ cache.sectors ∧ cache'.device.asked = s :: cache.device.asked ∧
          cache'.deviceReads = cache.deviceReads + 1 ∧ cache'.hits = cache.hits) := by
  obtain @⟨fill, i, taken, log, change, hrun, hfill, -, -, -⟩ := h
  obtain rfl := hfill rfl
  rcases acquire_ok hc.evicting hrun with ⟨hit, rfl⟩ | ⟨hmiss, hloaded⟩
  · exact ⟨rfl, rfl, .inl ⟨mem_sectors.mpr ⟨i, carries_of_frameOf? hit⟩, rfl, rfl, rfl⟩⟩
  · have hdue := hc.due_of_clean hclean i
    obtain ⟨b, mid, hputs, hread, -⟩ := hloaded.filled
    rw [hdue] at hputs
    obtain rfl : mid = cache.device := hputs
    have hasked : taken.device.asked = s :: cache.device.asked :=
      congrArg (fun answer : Except Fault Block × Watched δ => answer.2.asked) (Eq.symm hread)
    have hwrites : taken.deviceWrites = cache.deviceWrites := by
      rw [hloaded.deviceWrites, hdue]
      rfl
    refine ⟨hloaded.accesses, hwrites, .inr ⟨fun hmem => ?_, hasked, hloaded.deviceReads, hloaded.hits⟩⟩
    exact Bool.false_ne_true ((isCached_eq_false_iff.mpr hmiss).symm.trans (isCached_iff_mem.mpr hmem))

/-- **A look at a sector of the list** leaves what is in the cache there. -/
theorem Warm.look (h : Warm owned cache) (hroom : owned.length ≤ n) (hs : s ∈ owned)
    (hlook : Handled s false cache cache') :
    Warm owned cache' ∧ cache'.sectors = s :: cache.sectors.filter (· != s) ∧
      cache'.accesses = cache.accesses + 1 := by
  have hsectors := hlook.sectors h.fitted h.unpinned
  rw [List.take_of_length_le (h.room hroom hs)] at hsectors
  have hinside : cache'.sectors ⊆ owned := by
    rw [hsectors]
    intro t ht
    rcases List.mem_cons.mp ht with rfl | ht
    · exact hs
    · exact h.inside (List.mem_filter.mp ht).1
  obtain ⟨haccesses, hwrites, hdevice⟩ := hlook.asks h.fitted h.clean
  have hasked : cache'.device.asked.Perm cache'.sectors := by
    rw [hsectors, ← h.fitted.sectors_nodup.erase_eq_filter]
    rcases hdevice with ⟨hmem, hasked, -⟩ | ⟨hmem, hasked, -⟩
    · exact hasked ▸ h.asked.trans (List.perm_cons_erase hmem)
    · rw [List.erase_of_not_mem hmem, hasked]
      exact h.asked.cons s
  have hreads : cache'.deviceReads = cache'.device.asked.length := by
    rcases hdevice with ⟨-, hasked, hreads, -⟩ | ⟨-, hasked, hreads, -⟩
    · rw [hreads, hasked, h.reads]
    · rw [hreads, hasked, h.reads, List.length_cons]
  have hcount : cache'.accesses = cache'.hits + cache'.deviceReads := by
    have hbefore := h.accesses
    rcases hdevice with ⟨-, -, hreads, hhits⟩ | ⟨-, -, hreads, hhits⟩
    · omega
    · omega
  exact ⟨⟨hlook.fitted h.fitted, hlook.unpinned h.fitted h.unpinned, hlook.clean h.fitted h.clean, hinside, hasked,
    hreads, hwrites.trans h.writes, hcount⟩, hsectors, haccesses⟩

/-- **Looks at sectors of the list** bring these into the cache, and each is an access. -/
theorem Warm.passes {l : List SectorId} (h : Warm owned cache) (hroom : owned.length ≤ n) (hl : l ⊆ owned)
    (hpasses : Passes (l.map .look) cache cache') :
    Warm owned cache' ∧ cache.sectors ⊆ cache'.sectors ∧ l ⊆ cache'.sectors ∧
      cache'.accesses = cache.accesses + l.length := by
  induction l generalizing cache with
  | nil =>
    cases hpasses
    exact ⟨h, fun _ => id, List.nil_subset _, rfl⟩
  | cons s rest ih =>
    rw [List.map_cons] at hpasses
    cases hpasses with
    | look hlook hrest =>
      obtain ⟨hwarm, hsectors, hcount⟩ := h.look hroom (hl List.mem_cons_self) hlook
      obtain ⟨hlast, hkept, hin, hcounts⟩ := ih hwarm (fun t ht => hl (List.mem_cons_of_mem _ ht)) hrest
      rw [hsectors] at hkept
      refine ⟨hlast, fun t ht => hkept ?_, List.cons_subset.mpr ⟨hkept List.mem_cons_self, hin⟩, ?_⟩
      · by_cases hts : t = s
        · exact hts ▸ List.mem_cons_self
        · exact List.mem_cons_of_mem _ (List.mem_filter.mpr ⟨ht, bne_iff_ne.mpr hts⟩)
      · rw [hcounts, hcount, List.length_cons]
        omega

end InodeStore.Cache
