import InodeStore.Proofs.FreeMap.Changes

/-!
# `Proofs.FreeMap.Tail` — the bits that stand for no sector

If the sectors do not fill the last group, its other bits are set from the start, and they stay set as long as
no run that is released has one of them (`tail_sealed`). The map itself does not see to that. To `release` a
sealed bit looks like one of a taken sector, so that a run which reaches beyond the last sector is refused only
where it also reaches beyond the last group or has a free sector in it, and a map whose tail was released counts
more free sectors than there are (`tail_released`).
-/

namespace InodeStore.FreeMap

/-- The bits that a map of `sectors` sectors has. -/
def bitCount (sectors : UInt32) : Nat := 64 * ((sectors.toNat + 63) / 64)

/-- The tail of a map is sealed. -/
structure TailSealed (map : FreeMap) (sectors : UInt32) : Prop where
  /-- A bit that stands for no sector is set. -/
  bits : ∀ s, sectors.toNat ≤ s → s < bitCount sectors → map.bit? s = some true
  /-- The clear bits are those of the sectors that are not allocated. -/
  count : map.freeCount = ((Finset.range sectors.toNat).filter fun s =>
    map.isAllocated (UInt32.ofNat s) = .ok false).card
  /-- So there are no more of them than sectors. -/
  count_le : map.freeCount ≤ sectors.toNat
  /-- A run that reaches into the tail is released if its sectors are allocated and it ends with the last bit
  or before. -/
  reaches : ∀ (s : SectorId) n, 0 < n → sectors.toNat < s.toNat + n →
    ((release s n map).result = .ok () ↔ s.toNat + n ≤ bitCount sectors ∧
      ∀ t, s.toNat ≤ t → t < sectors.toNat → map.isAllocated (UInt32.ofNat t) = .ok true)

/-- Of a run that reaches into the tail the bits in the tail are set. -/
theorem Lawful.fullRun_iff {map : FreeMap} {first n : Nat} (h : map.Lawful) (hn : 0 < n)
    (hlast : map.sectors < first + n) :
    map.FullRun first (first + n) ↔ first + n ≤ 64 * map.groups.size ∧
      ∀ t, first ≤ t → t < map.sectors → map.isAllocated (UInt32.ofNat t) = .ok true := by
  constructor
  · refine fun hfull => ⟨hfull.last_le hn, fun t ht ht' => ?_⟩
    have hbit := hfull t ht (by omega)
    rw [FreeMap.bit?_eq_taken (lt_of_bit? hbit)] at hbit
    rw [h.shaped.isAllocated_ofNat ht', Option.some.inj hbit]
  · rintro ⟨hend, hset⟩ t ht ht'
    rw [FreeMap.bit?_eq_taken (by omega)]
    by_cases hlt : t < map.sectors
    · have htaken := hset t ht hlt
      rw [h.shaped.isAllocated_ofNat hlt] at htaken
      rw [Except.ok.inj htaken]
    · rw [h.sealed t (by omega)]

theorem Lawful.tailSealed {map : FreeMap} {sectors : UInt32} (h : map.Lawful)
    (hsectors : map.sectors = sectors.toNat) : map.TailSealed sectors := by
  have hbits : bitCount sectors = 64 * map.groups.size := by rw [bitCount, h.size, hsectors]
  have hsum := h.freeCount_add_card
  refine ⟨fun s hs hlt => ?_, ?_, by omega, fun s n hn hlast => ?_⟩
  · rw [hbits] at hlt
    rw [FreeMap.bit?_eq_taken hlt, h.sealed s (hsectors ▸ hs)]
  · rw [freeCount_eq, h.free_eq, allocated, ← Finset.filter_not, hsectors]
    refine congrArg Finset.card (Finset.filter_congr fun s hs => ?_)
    rw [h.shaped.isAllocated_ofNat (hsectors ▸ Finset.mem_range.mp hs)]
    cases map.taken s with
    | true => simp
    | false => simp
  · rw [h.shaped.release_ok_iff, h.fullRun_iff hn (hsectors ▸ hlast), hbits, hsectors]

/-- **The tail stays sealed** as long as every run that was released ended with the last sector or before, or
the sectors fill the last group. A run that reaches beyond the last sector is refused if they do, and otherwise
by other bits only than those in the tail. -/
theorem tail_sealed {permitted : Change → Prop} {sectors : UInt32} {map : FreeMap}
    (h : Obtained permitted sectors map) (hspares : SparesTail permitted sectors) : map.TailSealed sectors :=
  (h.lawful hspares).tailSealed h.sectors_eq

theorem tail_sealed_marked : ∃ map, Obtained (Change.StaysInside 3) 3 map ∧ SparesTail (Change.StaysInside 3) 3 ∧
    map.allocated = {2} ∧ map.TailSealed 3 := by
  have h := obtained_marked (Change.StaysInside 3) trivial
  exact ⟨_, h, .inr fun _ => id, by decide +kernel, tail_sealed h (.inr fun _ => id)⟩

/-- Of three free sectors a fourth is released, and then four are free. -/
theorem tail_released : ∃ map, release 3 1 (FreeMap.blank (3 : UInt32).toNat) = ⟨.ok (), map, []⟩ ∧
    Obtained (fun _ => True) 3 map ∧ map.bit? 3 = some false ∧ (3 : UInt32).toNat < map.freeCount := by
  have hrun : (Change.release 3 1).run (FreeMap.blank (3 : UInt32).toNat) =
      ⟨.ok (), (FreeMap.blank 3).assignRun 3 false 1, []⟩ := rfl
  exact ⟨_, hrun, .change .blank trivial hrun, by decide +kernel, by decide +kernel⟩

end InodeStore.FreeMap
