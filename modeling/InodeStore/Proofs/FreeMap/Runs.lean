import InodeStore.Proofs.FreeMap.Counting
import InodeStore.Proofs.FreeMap.Stored
import Mathlib.Data.Nat.Find
import Mathlib.Order.Bounds.Basic
import Mathlib.Order.Interval.Finset.Nat

/-!
# `Proofs.FreeMap.Runs` — runs of sectors

What is done to a run is done to each of its sectors: the bits of a run are set or cleared together
(`taken_assignRun`), a run is given back if all of it is taken and else refused at the first sector that is
not (`release_cases`), and of the free runs of a length the lowest is taken (`allocate_cases`).

Nothing is asked of the bits that stand for no sector. `Shaped` are the maps with as many groups as their
sectors fill or begin to fill, which no operation changes.
-/

namespace InodeStore.FreeMap

variable {map : FreeMap} {first count s t : Nat}

/-- A map has as many groups as its sectors fill or begin to fill, and every sector has a number. -/
structure Shaped (map : FreeMap) : Prop where
  size : map.groups.size = (map.sectors + 63) / 64
  addressable : map.sectors ≤ UInt32.size

theorem Lawful.shaped (h : map.Lawful) : map.Shaped := ⟨h.size, h.addressable⟩

theorem Shaped.congr {map' : FreeMap} (h : map.Shaped) (hsectors : map'.sectors = map.sectors)
    (hsize : map'.groups.size = map.groups.size) : map'.Shaped :=
  ⟨by rw [hsize, h.size, hsectors], by rw [hsectors]; exact h.addressable⟩

/-- A sector of the map has a bit. -/
theorem Shaped.lt_bits (h : map.Shaped) (hs : s < map.sectors) : s < 64 * map.groups.size := by
  rw [h.size]
  omega

/-- Where every bit stands for a sector there is nothing to seal. -/
theorem Shaped.lawful_of_whole (h : map.Shaped) (hwhole : map.sectors % 64 = 0) : map.Lawful where
  size := h.size
  sealed s hs := by
    have hsize := h.size
    rw [taken, bit?, Array.getElem?_eq_none (by omega)]
    rfl
  addressable := h.addressable

/-! ## Runs -/

theorem assignRun_sectors (map : FreeMap) (first : Nat) (b : Bool) (count : Nat) :
    (map.assignRun first b count).sectors = map.sectors := by
  induction count generalizing map first with
  | zero => rfl
  | succ count ih => exact ih (map.assign first b) (first + 1)

/-- The bits of a run are set or cleared, and no others. -/
theorem taken_assignRun (hlast : first + count ≤ 64 * map.groups.size) (b : Bool) (t : Nat) :
    (map.assignRun first b count).taken t =
      if first ≤ t ∧ t < first + count then b else map.taken t := by
  induction count generalizing map first with
  | zero =>
    rw [if_neg (by omega)]
    rfl
  | succ count ih =>
    rw [assignRun, ih (by rw [assign_size]; omega), taken_assign (by omega)]
    by_cases he : t = first
    · rw [if_neg (by omega), if_pos he, if_pos (by omega)]
    · rw [if_neg he]
      exact if_congr (by omega) rfl rfl

theorem Shaped.assignRun (h : map.Shaped) (first : Nat) (b : Bool) (count : Nat) :
    (map.assignRun first b count).Shaped :=
  h.congr (map.assignRun_sectors first b count) (map.assignRun_size first b count)

/-- A change of sectors leaves sealed what stands for none. -/
theorem Lawful.assignRun (h : map.Lawful) (hlast : first + count ≤ map.sectors) (b : Bool) :
    (map.assignRun first b count).Lawful where
  size := (h.shaped.assignRun first b count).size
  sealed t ht := by
    rw [assignRun_sectors] at ht
    have hbits := h.size
    rw [taken_assignRun (by omega), if_neg (by omega)]
    exact h.sealed t ht
  addressable := (h.shaped.assignRun first b count).addressable

/-- A map whose bits were loaded is sealed anew. -/
theorem Shaped.lawful_loaded (h : map.Shaped) (bytes : Bytes) : (map.loaded bytes).Lawful where
  size := (loaded_size map bytes).trans h.size
  sealed s hs := by
    have hs : map.sectors ≤ s := hs
    rw [taken_loaded h.size, decide_eq_true hs, Bool.true_or]
  addressable := h.addressable

/-- All bits of a run are set. -/
def FullRun (map : FreeMap) (first last : Nat) : Prop :=
  ∀ s, first ≤ s → s < last → map.bit? s = some true

theorem FullRun.last_le (h : map.FullRun first (first + count)) (hcount : 0 < count) :
    first + count ≤ 64 * map.groups.size := by
  have := lt_of_bit? (h (first + count - 1) (by omega) (by omega))
  omega

/-- A run is not given back because of a sector that is not taken, or that has no bit. -/
def Objects (map : FreeMap) (s : Nat) (e : Fault) : Prop :=
  map.bit? s = some false ∧ e = .sectorNotInUse s ∨ map.bit? s = none ∧ e = .indexOutOfBounds

/-- **A run is given back** if all of it is taken, and else one of its sectors objects. -/
theorem releaseRun_cases (map : FreeMap) (first count : Nat) :
    map.FullRun first (first + count) ∧ releaseRun first count map =
        ⟨.ok (), map.assignRun first false count, []⟩ ∨
      ∃ s e, first ≤ s ∧ s < first + count ∧ map.Objects s e ∧
        (releaseRun first count map).result = .error e := by
  induction count generalizing map first with
  | zero => exact .inl ⟨fun s hs hs' => by omega, rfl⟩
  | succ count ih =>
    unfold releaseRun
    cases hbit : map.bit? first with
    | none => exact .inr ⟨first, _, Nat.le_refl _, by omega, .inr ⟨hbit, rfl⟩, rfl⟩
    | some taken =>
      cases taken with
      | false => exact .inr ⟨first, _, Nat.le_refl _, by omega, .inl ⟨hbit, rfl⟩, rfl⟩
      | true =>
        -- the rest of the run is as it was before the first sector was given back
        have hsame : ∀ s, first + 1 ≤ s → (map.assign first false).bit? s = map.bit? s :=
          fun s hs => bit?_assign_of_ne (lt_of_bit? hbit) (by omega)
        rcases ih (map.assign first false) (first + 1) with ⟨hfull, hrun⟩ | ⟨s, e, hs, hs', hobjects, hrun⟩
        · refine .inl ⟨fun s hs hs' => ?_, hrun⟩
          by_cases he : s = first
          · rw [he, hbit]
          · rw [← hsame s (by omega)]
            exact hfull s (by omega) (by omega)
        · unfold Objects at hobjects
          rw [hsame s hs] at hobjects
          exact .inr ⟨s, e, by omega, by omega, hobjects, hrun⟩

/-- A run whose end is a machine number is given back if all of it is taken, and else refused. -/
theorem release_cases (map : FreeMap) (s : SectorId) (count : Nat) :
    s.toNat + count < UInt64.size ∧ map.FullRun s.toNat (s.toNat + count) ∧
        release s count map = ⟨.ok (), map.assignRun s.toNat false count, []⟩ ∨
      ¬ s.toNat + count < UInt64.size ∧ (release s count map).result = .error .sumOverflow ∨
      ∃ t e, s.toNat ≤ t ∧ t < s.toNat + count ∧ map.Objects t e ∧
        (release s count map).result = .error e := by
  unfold release
  by_cases hsum : s.toNat + count < UInt64.size
  · rw [if_pos hsum]
    rcases releaseRun_cases map s.toNat count with ⟨hfull, hrun⟩ | hrefused
    · exact .inl ⟨hsum, hfull, hrun⟩
    · exact .inr (.inr hrefused)
  · rw [if_neg hsum]
    exact .inr (.inl ⟨hsum, rfl⟩)

/-- A run of which every bit is set is given back. -/
theorem Shaped.release_full (h : map.Shaped) {s : SectorId} (hfull : map.FullRun s.toNat (s.toNat + count)) :
    release s count map = ⟨.ok (), map.assignRun s.toNat false count, []⟩ := by
  rcases release_cases map s count with ⟨-, -, hrun⟩ | ⟨hsum, -⟩ | ⟨t, e, ht, ht', hobjects, -⟩
  · exact hrun
  · -- a run of set bits ends in the last group or before, far below what a sum may be
    have hsize := h.size
    have haddress : map.sectors ≤ 2 ^ 32 := h.addressable
    have hsum : ¬ s.toNat + count < 2 ^ 64 := hsum
    rcases Nat.eq_zero_or_pos count with rfl | hpos
    · have := s.toNat_lt
      omega
    · have := hfull.last_le hpos
      omega
  · rcases hobjects with ⟨hbit, -⟩ | ⟨hbit, -⟩
    · cases hbit.symm.trans (hfull t ht ht')
    · cases hbit.symm.trans (hfull t ht ht')

/-- A run of which some bit is not set is refused. -/
theorem release_refused {s : SectorId} (hnot : ¬ map.FullRun s.toNat (s.toNat + count)) :
    ∃ e, (release s count map).result = .error e := by
  rcases release_cases map s count with ⟨-, hfull, -⟩ | ⟨-, hfault⟩ | ⟨t, e, -, -, -, hfault⟩
  · exact absurd hfull hnot
  · exact ⟨_, hfault⟩
  · exact ⟨e, hfault⟩

/-- **What `release` looks at** is the bits of the run, and nothing else. -/
theorem Shaped.release_ok_iff (h : map.Shaped) {s : SectorId} :
    (release s count map).result = .ok () ↔ map.FullRun s.toNat (s.toNat + count) := by
  constructor
  · intro hresult
    by_contra hnot
    obtain ⟨e, hfault⟩ := release_refused hnot
    cases hresult.symm.trans hfault
  · exact fun hfull => congrArg Reply.result (h.release_full hfull)

/-! ## Free runs -/

/-- **The lowest free run** of a length is taken, if there is one. -/
theorem allocate_cases (map : FreeMap) (hcount : 0 < count) :
    (∃ p, IsLeast {p | p + count ≤ map.sectors ∧ map.FreeRun p (p + count)} p ∧
        allocate count map = ⟨.ok (.ok (UInt32.ofNat p)), map.assignRun p true count, []⟩) ∨
      (∀ p, p + count ≤ map.sectors → ¬ map.FreeRun p (p + count)) ∧
        allocate count map = ⟨.ok (.error .allocationExhausted), map, [.mapExhausted count]⟩ := by
  have hfinds : ∀ q, q + count ≤ map.sectors → map.FreeRun q (q + count) →
      ∃ p ≤ q, map.firstFit? count = some p :=
    fun q hlast hfree => scan_finds (Nat.le_refl 0) hcount (Nat.zero_le _) hlast hfree
  unfold allocate
  rw [if_neg (Nat.ne_of_gt hcount)]
  cases hfirst : map.firstFit? count with
  | some p =>
    refine .inl ⟨p, ⟨scan_sound (Nat.le_refl 0) hcount (fun s hs hs' => by omega) hfirst, ?_⟩, rfl⟩
    rintro q ⟨hlast, hfree⟩
    obtain ⟨p', hle, hfound⟩ := hfinds q hlast hfree
    rw [hfirst] at hfound
    exact Option.some.inj hfound ▸ hle
  | none =>
    refine .inr ⟨fun q hlast hfree => ?_, rfl⟩
    obtain ⟨p, -, hfound⟩ := hfinds q hlast hfree
    rw [hfirst] at hfound
    cases hfound

end InodeStore.FreeMap
