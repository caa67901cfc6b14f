import InodeStore.Proofs.FreeMap.Bits

/-!
# `Proofs.FreeMap.Stored` — the stored form of the free map

A bit of a group is a bit of one of its bytes, and back (`testBit_groupByte`, `hasBit_groupOfBytes`), so
what a map was stored as leads to the same map again (`Lawful.load_toBytes`), the bits that stand for no
sector included: these are not read from the bytes but set anew.
-/

namespace InodeStore.FreeMap

/-! ## Bytes of a group -/

theorem toNat_groupByte (group : UInt64) {k : Nat} (hk : k < 8) :
    (groupByte group k).toNat = group.toNat / 2 ^ (8 * k) % 2 ^ 8 := by
  have hmod : 8 * k % 18446744073709551616 % 64 = 8 * k := by omega
  rw [groupByte, UInt64.toNat_toUInt8, UInt64.toNat_shiftRight, UInt64.toNat_ofNat', hmod,
    Nat.shiftRight_eq_div_pow]

/-- The bits of byte `k` are the group's from `8 * k` on. -/
theorem testBit_groupByte (group : UInt64) {k j : Nat} (hk : k < 8) (hj : j < 8) :
    (groupByte group k).toNat.testBit j = hasBit group (8 * k + j) := by
  rw [toNat_groupByte group hk, hasBit_eq_testBit group (by omega), Nat.testBit_mod_two_pow,
    decide_eq_true hj, Bool.true_and, Nat.testBit_div_two_pow, Nat.add_comm]

theorem hasBit_shiftLeft (group : UInt64) {i : Nat} (hi : i < 64) :
    hasBit (group <<< 8) i = (decide (8 ≤ i) && hasBit group (i - 8)) := by
  rw [hasBit_eq_testBit _ hi, UInt64.toNat_shiftLeft]
  show (group.toNat <<< 8 % 2 ^ 64).testBit i = _
  rw [Nat.testBit_mod_two_pow, Nat.testBit_shiftLeft, decide_eq_true hi, Bool.true_and,
    hasBit_eq_testBit _ (by omega : i - 8 < 64)]

theorem hasBit_toUInt64 (byte : UInt8) {i : Nat} (hi : i < 64) :
    hasBit byte.toUInt64 i = (decide (i < 8) && byte.toNat.testBit i) := by
  rw [hasBit_eq_testBit _ hi, UInt8.toNat_toUInt64]
  by_cases hlt : i < 8
  · rw [decide_eq_true hlt, Bool.true_and]
  · rw [decide_eq_false hlt, Bool.false_and]
    exact Nat.testBit_lt_two_pow (Nat.lt_of_lt_of_le byte.toNat_lt
      (Nat.pow_le_pow_right (by decide) (Nat.le_of_not_lt hlt)))

/-- A bit of a group that was put together from bytes. -/
theorem hasBit_foldr (bytes : List UInt8) {i : Nat} (hi : i < 64) :
    hasBit (bytes.foldr (fun (byte : UInt8) (group : UInt64) => group <<< 8 ||| byte.toUInt64) 0) i =
      (bytes[i / 8]?.getD 0).toNat.testBit (i % 8) := by
  induction bytes generalizing i with
  | nil =>
    rw [hasBit_eq_testBit _ hi]
    exact (Nat.zero_testBit i).trans (Nat.zero_testBit (i % 8)).symm
  | cons byte rest ih =>
    rw [List.foldr_cons, hasBit_or _ _ hi, hasBit_shiftLeft _ hi, hasBit_toUInt64 _ hi]
    by_cases hlt : i < 8
    · have hdiv : i / 8 = 0 := by omega
      have hmod : i % 8 = i := by omega
      rw [hdiv, hmod, decide_eq_false (by omega : ¬ 8 ≤ i), decide_eq_true hlt, Bool.false_and,
        Bool.false_or, Bool.true_and]
      rfl
    · have hdiv : i / 8 = (i - 8) / 8 + 1 := by omega
      have hmod : i % 8 = (i - 8) % 8 := by omega
      rw [decide_eq_true (by omega : 8 ≤ i), decide_eq_false hlt, Bool.false_and, Bool.or_false,
        Bool.true_and, ih (by omega), hdiv, hmod, List.getElem?_cons_succ]

/-- The bits of a group are those of its eight bytes, and bytes that are missing have none. -/
theorem hasBit_groupOfBytes (bytes : Bytes) (start : Nat) {i : Nat} (hi : i < 64) :
    hasBit (groupOfBytes bytes start) i = (bytes[start + i / 8]?.getD 0).toNat.testBit (i % 8) := by
  have hfold : groupOfBytes bytes start =
      ((List.range 8).map fun k => bytes[start + k]?.getD (0 : UInt8)).foldr
        (fun (byte : UInt8) (group : UInt64) => group <<< 8 ||| byte.toUInt64) 0 := by
    rw [List.foldr_map]
    rfl
  have hbyte : ((List.range 8).map fun k => bytes[start + k]?.getD (0 : UInt8))[i / 8]? =
      some (bytes[start + i / 8]?.getD 0) := by
    rw [List.getElem?_map, List.getElem?_range (by omega)]
    rfl
  rw [hfold, hasBit_foldr _ hi, hbyte]
  rfl

/-! ## Maps -/

theorem toBytes_size (map : FreeMap) : map.toBytes.size = map.byteLength := Array.size_ofFn

/-- The byte of a bit. -/
theorem toBytes_getElem? {map : FreeMap} {s : Nat} (hlt : s / 8 < map.byteLength) :
    map.toBytes[s / 8]? = some (groupByte (map.groups[s / 64]?.getD 0) (s % 64 / 8)) := by
  have hgroup : s / 8 / 8 = s / 64 := by omega
  have hbyte : s / 8 % 8 = s % 64 / 8 := by omega
  unfold toBytes
  rw [Array.getElem?_ofFn, dif_pos hlt, hgroup, hbyte]

/-- A bit of a stored form. -/
def storedBit (bytes : Bytes) (s : Nat) : Bool := (bytes[s / 8]?.getD 0).toNat.testBit (s % 8)

/-- The bits of a stored form are those of the map, as far as there are bytes. -/
theorem storedBit_toBytes {map : FreeMap} (hsize : map.groups.size = (map.sectors + 63) / 64) (s : Nat) :
    storedBit map.toBytes s = (decide (s / 8 < map.byteLength) && map.taken s) := by
  unfold storedBit
  by_cases hlt : s / 8 < map.byteLength
  · have hgroup : s / 64 < map.groups.size := by
      unfold byteLength at hlt
      omega
    have hbit : 8 * (s % 64 / 8) + s % 8 = s % 64 := by omega
    rw [decide_eq_true hlt, Bool.true_and, toBytes_getElem? hlt, Option.getD_some,
      testBit_groupByte _ (by omega) (by omega), hbit, taken_eq hgroup, Array.getElem?_eq_getElem hgroup,
      Option.getD_some]
  · rw [decide_eq_false hlt, Bool.false_and, Array.getElem?_eq_none (by
      rw [toBytes_size]
      exact Nat.le_of_not_lt hlt)]
    exact Nat.zero_testBit _

/-- The map of the sectors whose bits are set in a stored form. -/
def loaded (map : FreeMap) (bytes : Bytes) : FreeMap :=
  ⟨map.sectors, sealUnused map.sectors (map.groups.mapIdx fun g _ => groupOfBytes bytes (8 * g))⟩

theorem load_eq {map : FreeMap} {bytes : Bytes} (h : bytes.size = map.byteLength) :
    load bytes map = ⟨.ok (), map.loaded bytes, []⟩ := if_pos h

theorem load_refused {map : FreeMap} {bytes : Bytes} (h : bytes.size ≠ map.byteLength) :
    load bytes map = ⟨.error .mapSizeMismatch, map, []⟩ := if_neg h

theorem loaded_size (map : FreeMap) (bytes : Bytes) : (map.loaded bytes).groups.size = map.groups.size :=
  (sealUnused_size _ _).trans Array.size_mapIdx

/-- Taken is what has its bit set, and what stands for no sector. -/
theorem taken_loaded {map : FreeMap} (hsize : map.groups.size = (map.sectors + 63) / 64) (bytes : Bytes)
    (s : Nat) : (map.loaded bytes).taken s = (decide (map.sectors ≤ s) || storedBit bytes s) := by
  have hgroups : (map.groups.mapIdx fun g _ => groupOfBytes bytes (8 * g)).size = (map.sectors + 63) / 64 :=
    Array.size_mapIdx.trans hsize
  rw [loaded, taken_sealUnused hgroups]
  by_cases hs : map.sectors ≤ s
  · rw [decide_eq_true hs, Bool.true_or, Bool.true_or]
  · have hgroup : s / 64 < map.groups.size := by omega
    have hstart : 8 * (s / 64) + s % 64 / 8 = s / 8 := by omega
    have hbit : s % 64 % 8 = s % 8 := by omega
    rw [taken_eq (by simpa using hgroup), Array.getElem_mapIdx, hasBit_groupOfBytes _ _ (by omega), hstart,
      hbit, storedBit]

/-- **What a map was stored as** leads to the map again. -/
theorem Lawful.load_toBytes {map start : FreeMap} (h : map.Lawful)
    (hsectors : start.sectors = map.sectors) (hsize : start.groups.size = map.groups.size) :
    load map.toBytes start = ⟨.ok (), map, []⟩ := by
  have hlength : map.toBytes.size = start.byteLength := by
    rw [toBytes_size, byteLength, byteLength, hsectors]
  rw [load_eq hlength]
  congr 1
  refine ext_taken hsectors ((loaded_size _ _).trans hsize) fun s => ?_
  rw [taken_loaded (by rw [hsize, h.size, hsectors]), hsectors]
  by_cases hs : s < map.sectors
  · -- the bit of a sector is one of a byte that is there
    have hbyte : s / 8 < map.byteLength := by
      unfold byteLength
      omega
    rw [decide_eq_false (Nat.not_le.mpr hs), Bool.false_or, storedBit_toBytes h.size, decide_eq_true hbyte,
      Bool.true_and]
  · rw [decide_eq_true (Nat.le_of_not_lt hs), Bool.true_or, h.sealed s (Nat.le_of_not_lt hs)]

end InodeStore.FreeMap
