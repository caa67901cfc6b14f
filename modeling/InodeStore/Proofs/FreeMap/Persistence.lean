import InodeStore.Proofs.FreeMap.Changes

/-!
# `Proofs.FreeMap.Persistence` — what a stored map says

A stored form has a byte for every eight sectors, and if the sectors do not fill the last byte, it has bits that
stand for no sector. To load one means to take over the others: nothing that the map said before is left, and
what is stored afterwards differs from what was loaded in those bits alone, which are set (`Seals`).

So a stored form leads back to the map that it came from as long as that map has its own such bits set, in the
last byte and in what of the last group no byte holds (`stored_form_exact`).
-/

namespace InodeStore.FreeMap

/-- Stored forms of the same size that agree in every bit are the same. -/
theorem stored_ext {bytes bytes' : Bytes} {i : Nat} (hlt : i < bytes.size) (hlt' : i < bytes'.size)
    (h : ∀ j, j < 8 → storedBit bytes (8 * i + j) = storedBit bytes' (8 * i + j)) :
    bytes[i] = bytes'[i] := by
  refine UInt8.toNat_inj.mp (Nat.eq_of_testBit_eq fun j => ?_)
  by_cases hj : j < 8
  · have hbyte : (8 * i + j) / 8 = i := by omega
    have hbit : (8 * i + j) % 8 = j := by omega
    have hsame := h j hj
    rwa [storedBit, storedBit, hbyte, hbit, Array.getElem?_eq_getElem hlt, Array.getElem?_eq_getElem hlt',
      Option.getD_some, Option.getD_some] at hsame
  · have hpow : 2 ^ 8 ≤ 2 ^ j := Nat.pow_le_pow_right (by decide) (Nat.le_of_not_lt hj)
    rw [Nat.testBit_lt_two_pow (Nat.lt_of_lt_of_le bytes[i].toNat_lt hpow),
      Nat.testBit_lt_two_pow (Nat.lt_of_lt_of_le bytes'[i].toNat_lt hpow)]

/-- A stored form with its bits set that stand for no sector. -/
structure Seals (sectors : UInt32) (bytes bytes' : Bytes) : Prop where
  size : bytes'.size = bytes.size
  /-- No bit is changed but those beyond the last sector, which are set. -/
  bits : ∀ s, storedBit bytes' s = (storedBit bytes s || decide (sectors.toNat ≤ s ∧ s < 8 * bytes.size))
  /-- These are in the last byte. -/
  front : ∀ i, i + 1 < bytes.size → bytes'[i]? = bytes[i]?

/-- What was loaded is stored again with the tail set. -/
theorem Shaped.seals_loaded {map : FreeMap} {sectors : UInt32} {bytes : Bytes} (h : map.Shaped)
    (hsectors : map.sectors = sectors.toNat) (hsize : bytes.size = map.byteLength) :
    Seals sectors bytes (map.loaded bytes).toBytes := by
  have hlength : (map.loaded bytes).toBytes.size = bytes.size := by
    rw [toBytes_size, hsize]
    rfl
  have hbits : ∀ s, storedBit (map.loaded bytes).toBytes s =
      (storedBit bytes s || decide (sectors.toNat ≤ s ∧ s < 8 * bytes.size)) := by
    intro s
    rw [storedBit_toBytes (h.lawful_loaded bytes).size, taken_loaded h.size, hsectors, ← toBytes_size, hlength]
    by_cases hlt : s / 8 < bytes.size
    · have hend : s < 8 * bytes.size := by omega
      rw [decide_eq_true hlt, Bool.true_and, Bool.or_comm]
      simp only [hend, and_true]
    · -- what has no byte is clear, before and after
      have hnone : storedBit bytes s = false := by
        rw [storedBit, Array.getElem?_eq_none (Nat.le_of_not_lt hlt)]
        exact Nat.zero_testBit _
      rw [decide_eq_false hlt, Bool.false_and, hnone, decide_eq_false (by omega), Bool.false_or]
  refine ⟨hlength, hbits, fun i hi => ?_⟩
  have hlt : i < bytes.size := by omega
  have hlt' : i < (map.loaded bytes).toBytes.size := by omega
  rw [Array.getElem?_eq_getElem hlt, Array.getElem?_eq_getElem hlt']
  refine congrArg some (stored_ext hlt' hlt fun j hj => ?_)
  have hinside : ¬ (sectors.toNat ≤ 8 * i + j ∧ 8 * i + j < 8 * bytes.size) := by
    unfold byteLength at hsize
    omega
  rw [hbits, decide_eq_false hinside, Bool.or_false]

/-- **The stored form is exact.** Loaded into any map of as many sectors, it leads back to the map it came from,
whatever was marked, allocated, released and loaded there, if every run that was released ended with the last
sector or before. And any bytes of the right number can be loaded, and are stored again as they were but for the
bits that stand for no sector, which are set. -/
theorem stored_form_exact {sectors : UInt32} {start : FreeMap} (hstart : Obtained (fun _ => True) sectors start) :
    (∀ map, Obtained (Change.StaysInside sectors) sectors map → load map.toBytes start = ⟨.ok (), map, []⟩) ∧
      ∀ bytes : Bytes, bytes.size = (sectors.toNat + 7) / 8 →
        ∃ map, load bytes start = ⟨.ok (), map, []⟩ ∧ Seals sectors bytes map.toBytes := by
  constructor
  · intro map hmap
    have hlawful := hmap.lawful (.inr fun _ => id)
    have hsectors : start.sectors = map.sectors := hstart.sectors_eq.trans hmap.sectors_eq.symm
    refine hlawful.load_toBytes hsectors ?_
    rw [hstart.shaped.size, hlawful.size, hsectors]
  · intro bytes hsize
    have hlength : bytes.size = start.byteLength := by rw [hsize, byteLength, hstart.sectors_eq]
    exact ⟨_, load_eq hlength, hstart.shaped.seals_loaded hstart.sectors_eq hlength⟩

/-- Of three sectors the last is marked. Nothing of that is left when a byte is loaded that has the first bit set
and a bit beyond the last sector, and this byte is stored with all bits beyond the last sector. -/
theorem stored_form_exact_marked : ∃ start map, Obtained (fun _ => True) 3 start ∧ start.allocated = {2} ∧
    load start.toBytes (FreeMap.blank 3) = ⟨.ok (), start, []⟩ ∧
      load #[0x11] start = ⟨.ok (), map, []⟩ ∧ map.allocated = {0} ∧ Seals 3 #[0x11] map.toBytes ∧
        map.toBytes = #[0xf9] := by
  have hstart := obtained_marked (fun _ => True) trivial
  obtain ⟨map, hload, hseals⟩ := (stored_form_exact hstart).2 #[0x11] (by decide)
  refine ⟨_, map, hstart, by decide +kernel, ?_, hload, ?_, hseals, ?_⟩
  · exact (stored_form_exact .blank).1 _ (obtained_marked _ trivial)
  · cases (load_eq (by decide +kernel)).symm.trans hload
    decide +kernel
  · cases (load_eq (by decide +kernel)).symm.trans hload
    decide +kernel

end InodeStore.FreeMap
