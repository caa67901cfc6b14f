import InodeStore.Cache.Threads
import InodeStore.Proofs.Cache.Sharing
import Mathlib.Algebra.BigOperators.Group.Finset.Basic
import Mathlib.Algebra.Order.BigOperators.Group.Finset

/-!
# `Proofs.Cache.Staffing` — which thread has which frame

What a phase says about its thread: the frame it has pinned, the frame it has locked, the frame it is
filling, the sector it is bringing to the device. `Phase.Fits` is what has to be true of the cache for the
phase to be possible, and `Staffed` says that cache and threads agree: the pins of a frame are counted
(`crew`), a frame is locked by the one thread whose phase says so, a frame in use that is not filled is being
filled by somebody, and a sector on its way out is being written by somebody.

`Staffed.update` is how all this changes when one thread goes on to its next phase.
-/

namespace InodeStore.Cache

namespace Phase

variable {δ : Type} {n : Nat}

/-- The frame that the thread keeps where it is. -/
def pins? : Phase n → Option (Fin n)
  | .enter _ i | .spill _ i _ | .settle _ i _ | .fetch _ i | .use _ i | .nextEnter _ i _ _
  | .nextUse _ i _ _ => some i
  | _ => none

/-- The frame that the thread has locked. -/
def locks? : Phase n → Option (Fin n)
  | .waited _ i | .spill _ i _ | .settle _ i _ | .fetch _ i | .use _ i | .nextUse _ i _ _ => some i
  | _ => none

/-- The frame that the thread is to fill. -/
def fills? : Phase n → Option (Fin n)
  | .spill _ i _ | .settle _ i _ | .fetch _ i => some i
  | _ => none

/-- The sector that the thread brings to the device, and the frame that has its data. -/
def leaves? : Phase n → Option (SectorId × Fin n)
  | .spill _ i old | .settle _ i old => some (old, i)
  | _ => none

/-- The frame whose data the thread is about to replace, whatever they are. -/
def replaces? : Phase n → Option (Fin n)
  | .use a i => if a.fill = .overwrite then some i else none
  | _ => none

/-- The use of a sector that the thread is at. -/
def access? : Phase n → Option Access
  | .seek a | .enter a _ | .wait a _ | .waited a _ | .spill a _ _ | .settle a _ _ | .fetch a _
  | .use a _ => some a
  | _ => none

/-- What has to be true of the cache for a thread to be in the phase. -/
def Fits (size : Nat) (cache : Cache δ n) : Phase n → Prop
  | .seek a | .wait a _ | .waited a _ => a.sector.toNat < size
  | .enter a i => cache.Carries i a.sector
  | .spill a i old => cache.Carries i a.sector ∧ (cache.frame i).valid = false ∧
      (cache.frame i).dirty = true ∧ (old, i) ∈ cache.evicting
  | .settle a i old => cache.Carries i a.sector ∧ (cache.frame i).valid = false ∧
      (cache.frame i).dirty = false ∧ (old, i) ∈ cache.evicting
  | .fetch a i => cache.Carries i a.sector ∧ (cache.frame i).valid = false
  | .use a i => cache.Carries i a.sector ∧ (cache.frame i).valid = true
  | .nextEnter _ i _ _ | .nextUse _ i _ _ => i ∈ cache.recency
  | _ => True

/-- A frame that is being filled is locked. -/
theorem locks?_of_fills? {p : Phase n} {i : Fin n} (h : p.fills? = some i) : p.locks? = some i := by
  cases p <;> first | exact h | cases h

theorem locks?_of_leaves? {p : Phase n} {s : SectorId} {i : Fin n} (h : p.leaves? = some (s, i)) :
    p.locks? = some i ∧ p.pins? = some i := by
  cases p <;> cases h <;> exact ⟨rfl, rfl⟩

theorem locks?_of_replaces? {p : Phase n} {i : Fin n} (h : p.replaces? = some i) :
    p.locks? = some i ∧ p.pins? = some i := by
  unfold replaces? at h
  split at h
  · split at h
    · exact ⟨h, h⟩
    · cases h
  · cases h

theorem pins?_of_fills? {p : Phase n} {i : Fin n} (h : p.fills? = some i) : p.pins? = some i := by
  cases p <;> first | exact h | cases h

/-- A frame that a thread has pinned is in use. -/
theorem Fits.mem_recency {p : Phase n} {size : Nat} {cache : Cache δ n} {i : Fin n}
    (h : p.Fits size cache) (hp : p.pins? = some i) : i ∈ cache.recency := by
  cases p with
  | enter a j => cases hp; exact h.1
  | spill a j old => cases hp; exact h.1.1
  | settle a j old => cases hp; exact h.1.1
  | fetch a j => cases hp; exact h.1.1
  | use a j => cases hp; exact h.1.1
  | nextEnter w j frames count => cases hp; exact h
  | nextUse w j frames count => cases hp; exact h
  | _ => cases hp

/-- A phase goes on fitting where its frame is as it was, or at least in use for the same sector while the
    thread has not locked it. -/
theorem Fits.mono {p : Phase n} {size : Nat} {cache cache' : Cache δ n} (h : p.Fits size cache)
    (hpin : ∀ i, p.pins? = some i → i ∈ cache.recency →
      i ∈ cache'.recency ∧ (cache'.frame i).sector = (cache.frame i).sector)
    (hlock : ∀ i, p.pins? = some i → p.locks? = some i →
      (cache'.frame i).valid = (cache.frame i).valid ∧ (cache'.frame i).dirty = (cache.frame i).dirty)
    (hleave : ∀ entry, p.leaves? = some entry → entry ∈ cache.evicting → entry ∈ cache'.evicting) :
    p.Fits size cache' := by
  have hcarries : ∀ {i s}, p.pins? = some i → cache.Carries i s → cache'.Carries i s := by
    intro i s hp hi
    obtain ⟨hmem, hsector⟩ := hpin i hp hi.1
    exact ⟨hmem, hsector.trans hi.2⟩
  cases p with
  | seek a => exact h
  | wait a i => exact h
  | waited a i => exact h
  | enter a i => exact hcarries rfl h
  | spill a i old =>
    obtain ⟨hi, hvalid, hdirty, hout⟩ := h
    obtain ⟨hvalid', hdirty'⟩ := hlock i rfl rfl
    exact ⟨hcarries rfl hi, hvalid'.trans hvalid, hdirty'.trans hdirty, hleave _ rfl hout⟩
  | settle a i old =>
    obtain ⟨hi, hvalid, hdirty, hout⟩ := h
    obtain ⟨hvalid', hdirty'⟩ := hlock i rfl rfl
    exact ⟨hcarries rfl hi, hvalid'.trans hvalid, hdirty'.trans hdirty, hleave _ rfl hout⟩
  | fetch a i => exact ⟨hcarries rfl h.1, (hlock i rfl rfl).1.trans h.2⟩
  | use a i => exact ⟨hcarries rfl h.1, (hlock i rfl rfl).1.trans h.2⟩
  | nextEnter w i frames count => exact (hpin i rfl h).1
  | nextUse w i frames count => exact (hpin i rfl h).1
  | idle | list _ | next _ _ _ | forget => trivial

end Phase

/-! ## Threads -/

section Staffed

variable {δ : Type} {n threads size : Nat} {ph : Nat → Phase n} {shared shared' : Shared δ n}
  {t u : Nat} {i : Fin n} {s : SectorId} {p : Phase n}

/-- The number of threads that have pinned a frame. -/
def crew (threads : Nat) (ph : Nat → Phase n) (i : Fin n) : Nat :=
  ∑ t ∈ Finset.range threads, if (ph t).pins? = some i then 1 else 0

/-- One thread goes on to another phase. -/
theorem crew_update (ht : t < threads) :
    crew threads (Function.update ph t p) i + (if (ph t).pins? = some i then 1 else 0) =
      crew threads ph i + if p.pins? = some i then 1 else 0 := by
  have hmem : t ∈ Finset.range threads := Finset.mem_range.mpr ht
  unfold crew
  rw [← Finset.add_sum_erase _ _ hmem, ← Finset.add_sum_erase _ (fun t => if (ph t).pins? = some i then 1
    else 0) hmem, Function.update_self]
  have hrest : ∀ u ∈ (Finset.range threads).erase t,
      (if (Function.update ph t p u).pins? = some i then 1 else 0) =
        if (ph u).pins? = some i then 1 else 0 := by
    intro u hu
    rw [Function.update_of_ne (Finset.ne_of_mem_erase hu)]
  rw [Finset.sum_congr rfl hrest]
  omega

/-- The cache and the threads agree. -/
structure Staffed (size threads : Nat) (ph : Nat → Phase n) (shared : Shared δ n) : Prop where
  /-- There are no more threads. -/
  idle : ∀ t, threads ≤ t → ph t = .idle
  pins : ∀ i, (shared.cache.frame i).pins = crew threads ph i
  locked : ∀ {i}, shared.isLocked i = true ↔ ∃ t, (ph t).locks? = some i
  alone : ∀ {t u i}, (ph t).locks? = some i → (ph u).locks? = some i → t = u
  filling : ∀ {i}, i ∈ shared.cache.recency → (shared.cache.frame i).valid = false →
    ∃ t, (ph t).fills? = some i
  leaving : ∀ {s i}, (s, i) ∈ shared.cache.evicting → ∃ t, (ph t).leaves? = some (s, i)
  fits : ∀ t, (ph t).Fits size shared.cache

namespace Staffed

/-- A frame that a thread has pinned is pinned. -/
theorem pinned (h : Staffed size threads ph shared) (hp : (ph t).pins? = some i) :
    0 < (shared.cache.frame i).pins := by
  have ht : t < threads := by
    by_contra hge
    rw [h.idle t (Nat.le_of_not_lt hge)] at hp
    cases hp
  rw [h.pins]
  unfold crew
  refine Finset.sum_pos' (fun _ _ => Nat.zero_le _) ⟨t, Finset.mem_range.mpr ht, ?_⟩
  rw [if_pos hp]
  exact Nat.zero_lt_one

/-- A pinned frame is one that a thread has pinned. -/
theorem exists_of_pinned (h : Staffed size threads ph shared) (hp : (shared.cache.frame i).pins ≠ 0) :
    ∃ t < threads, (ph t).pins? = some i := by
  by_contra hnone
  refine hp ((h.pins i).trans (Finset.sum_eq_zero fun t ht => if_neg fun hpins => ?_))
  exact hnone ⟨t, Finset.mem_range.mp ht, hpins⟩

/-- **There is room.** With no more threads than frames, one of which has nothing pinned, some frame is not
    pinned. -/
theorem room (h : Staffed size threads ph shared) (hn : threads ≤ n) (ht : t < threads)
    (hnone : (ph t).pins? = none) : ∃ i, (shared.cache.frame i).pins = 0 := by
  by_contra hall
  have hpinned : ∀ i, ∃ u, u < threads ∧ (ph u).pins? = some i := fun i =>
    h.exists_of_pinned fun hi => hall ⟨i, hi⟩
  choose owner howner hpins using hpinned
  -- different frames are pinned by different threads, none of which is `t`
  have hcard : (Finset.univ : Finset (Fin n)).card ≤ ((Finset.range threads).erase t).card := by
    refine Finset.card_le_card_of_injOn owner (fun i _ => ?_) fun i _ j _ hij => ?_
    · refine Finset.mem_coe.mpr (Finset.mem_erase.mpr ⟨fun he => ?_, Finset.mem_range.mpr (howner i)⟩)
      rw [← he, hpins] at hnone
      cases hnone
    · have := hpins i
      rw [hij, hpins j] at this
      exact (Option.some.inj this).symm
  rw [Finset.card_univ, Fintype.card_fin, Finset.card_erase_of_mem (Finset.mem_range.mpr ht),
    Finset.card_range] at hcard
  omega

/-- A frame that is not locked is filled, if it is in use. -/
theorem valid_of_unlocked (h : Staffed size threads ph shared) (hi : i ∈ shared.cache.recency)
    (hlock : shared.isLocked i = false) : (shared.cache.frame i).valid = true := by
  refine Bool.eq_true_of_not_eq_false fun hinvalid => ?_
  obtain ⟨t, ht⟩ := h.filling hi hinvalid
  rw [h.locked.mpr ⟨t, Phase.locks?_of_fills? ht⟩] at hlock
  cases hlock

/-- What is on its way out is written by the thread that has locked its frame. -/
theorem leaves_of_locks (h : Staffed size threads ph shared) (ht : (ph t).locks? = some i)
    (hout : (s, i) ∈ shared.cache.evicting) : (ph t).leaves? = some (s, i) := by
  obtain ⟨u, hu⟩ := h.leaving hout
  rwa [h.alone ht (Phase.locks?_of_leaves? hu).1]

/-- A thread goes on to another phase. What it locks, fills or writes from then on was free or its own, and
    the phases of the others go on fitting. -/
theorem update (h : Staffed size threads ph shared) (ht : t < threads)
    (hpins : ∀ i, (shared'.cache.frame i).pins + (if (ph t).pins? = some i then 1 else 0) =
      (shared.cache.frame i).pins + if p.pins? = some i then 1 else 0)
    (hlocked : ∀ i, shared'.isLocked i = true ↔
      p.locks? = some i ∨ shared.isLocked i = true ∧ (ph t).locks? ≠ some i)
    (halone : ∀ i, p.locks? = some i → (ph t).locks? = some i ∨ shared.isLocked i = false)
    (hfilling : ∀ i, i ∈ shared'.cache.recency → (shared'.cache.frame i).valid = false →
      p.fills? = some i ∨
        i ∈ shared.cache.recency ∧ (shared.cache.frame i).valid = false ∧ (ph t).fills? ≠ some i)
    (hleaving : ∀ entry, entry ∈ shared'.cache.evicting →
      p.leaves? = some entry ∨ entry ∈ shared.cache.evicting ∧ (ph t).leaves? ≠ some entry)
    (hfits : p.Fits size shared'.cache) (hothers : ∀ u, u ≠ t → (ph u).Fits size shared'.cache) :
    Staffed size threads (Function.update ph t p) shared' where
  idle u hu := by
    rw [Function.update_of_ne (by omega)]
    exact h.idle u hu
  pins i := by
    have hcrew : crew threads (Function.update ph t p) i + _ = crew threads ph i + _ := crew_update ht
    have hsame := hpins i
    rw [h.pins] at hsame
    omega
  locked {i} := by
    rw [hlocked]
    constructor
    · rintro (hp | ⟨hi, hne⟩)
      · exact ⟨t, by rwa [Function.update_self]⟩
      · obtain ⟨u, hu⟩ := h.locked.mp hi
        have hut : u ≠ t := fun he => hne (he ▸ hu)
        exact ⟨u, by rwa [Function.update_of_ne hut]⟩
    · rintro ⟨u, hu⟩
      by_cases hut : u = t
      · rw [hut, Function.update_self] at hu
        exact Or.inl hu
      · rw [Function.update_of_ne hut] at hu
        exact Or.inr ⟨h.locked.mpr ⟨u, hu⟩, fun ht' => hut (h.alone hu ht')⟩
  alone {u v i} hu hv := by
    -- a frame that the thread has locked is locked by no other one
    have hother : ∀ w, w ≠ t → (ph w).locks? = some i → p.locks? ≠ some i := by
      intro w hw hlock hp
      rcases halone i hp with ht' | hfree
      · exact hw (h.alone hlock ht')
      · rw [h.locked.mpr ⟨w, hlock⟩] at hfree
        cases hfree
    by_cases hut : u = t
    · by_cases hvt : v = t
      · rw [hut, hvt]
      · rw [hut, Function.update_self] at hu
        rw [Function.update_of_ne hvt] at hv
        exact absurd hu (hother v hvt hv)
    · rw [Function.update_of_ne hut] at hu
      by_cases hvt : v = t
      · rw [hvt, Function.update_self] at hv
        exact absurd hv (hother u hut hu)
      · rw [Function.update_of_ne hvt] at hv
        exact h.alone hu hv
  filling {i} hi hinvalid := by
    rcases hfilling i hi hinvalid with hp | ⟨hused, hinvalid, hne⟩
    · exact ⟨t, by rwa [Function.update_self]⟩
    · obtain ⟨u, hu⟩ := h.filling hused hinvalid
      have hut : u ≠ t := fun he => hne (he ▸ hu)
      exact ⟨u, by rwa [Function.update_of_ne hut]⟩
  leaving {s i} hout := by
    rcases hleaving _ hout with hp | ⟨hout, hne⟩
    · exact ⟨t, by rwa [Function.update_self]⟩
    · obtain ⟨u, hu⟩ := h.leaving hout
      have hut : u ≠ t := fun he => hne (he ▸ hu)
      exact ⟨u, by rwa [Function.update_of_ne hut]⟩
  fits u := by
    by_cases hut : u = t
    · rw [hut, Function.update_self]
      exact hfits
    · rw [Function.update_of_ne hut]
      exact hothers u hut

end Staffed

end Staffed

end InodeStore.Cache
