import InodeStore.Inode.Descriptor
import Mathlib.Data.Nat.Basic

/-!
# `Proofs.Inode.Codec` — what is read back from a sector

A descriptor is read back from the sector it was encoded in (`decode_encode`), and a slot of an index
block holds the number last put there (`pointer_withPointer_self`, `pointer_withPointer_of_ne`).
-/

namespace InodeStore

namespace Block

/-- A word is read where its four bytes are. -/
theorem word_eq {block : Block} {start : Nat} (hstart : start + 4 ≤ 512) {w : UInt32}
    (hbyte : ∀ (k : Nat) (hk : k < 4), block[start + k] = wordByte w k) :
    block.word start hstart = w := by
  have h₀ : block[start] = wordByte w 0 := hbyte 0 (by decide)
  unfold word
  rw [h₀, hbyte 1 (by decide), hbyte 2 (by decide), hbyte 3 (by decide)]
  exact wordOfBytes_wordByte w

/-! ## Index blocks -/

theorem getElem_withPointer (block : Block) (slot : Fin 128) (s : SectorId) {i : Nat} (hi : i < 512) :
    (block.withPointer slot s)[i] = if i / 4 = slot.val then wordByte s (i % 4) else block[i] := by
  unfold withPointer
  rw [Vector.getElem_ofFn]
  rfl

/-- A slot holds what was put there. -/
theorem pointer_withPointer_self (block : Block) (slot : Fin 128) (s : SectorId) :
    (block.withPointer slot s).pointer slot = s := by
  apply word_eq _
  intro k hk
  have hdiv : (4 * slot.val + k) / 4 = slot.val := by omega
  have hmod : (4 * slot.val + k) % 4 = k := by omega
  rw [getElem_withPointer, if_pos hdiv, hmod]

/-- The other slots hold what they held before. -/
theorem pointer_withPointer_of_ne (block : Block) {slot slot' : Fin 128} (h : slot' ≠ slot)
    (s : SectorId) : (block.withPointer slot s).pointer slot' = block.pointer slot' := by
  have hne : slot'.val ≠ slot.val := fun he => h (Fin.ext he)
  -- the bytes of different slots do not overlap
  have hbyte : ∀ (k : Nat) (hk : k < 4),
      (block.withPointer slot s)[4 * slot'.val + k] = block[4 * slot'.val + k] := by
    intro k hk
    rw [getElem_withPointer, if_neg (by omega)]
  have h₀ : (block.withPointer slot s)[4 * slot'.val] = block[4 * slot'.val] := hbyte 0 (by decide)
  unfold pointer word
  rw [h₀, hbyte 1 (by decide), hbyte 2 (by decide), hbyte 3 (by decide)]

end Block

/-! ## Descriptors -/

namespace Descriptor

theorem getElem_encode (d : Descriptor) {i : Nat} (hi : i < 65) : d.encode[i] = d.byteAt i :=
  (d.get_encode ⟨i, by omega⟩).trans (if_pos hi)

/-- A word of a descriptor is read back from its place. -/
theorem word_encode (d : Descriptor) {start : Nat} (hstart : start + 4 ≤ 65) {w : UInt32}
    (hbyte : ∀ k < 4, d.byteAt (start + k) = wordByte w k) :
    d.encode.word start (by omega) = w :=
  Block.word_eq _ fun k hk => (d.getElem_encode (by omega)).trans (hbyte k hk)

/-- **A descriptor is read back from the sector it was encoded in.** -/
theorem decode_encode (d : Descriptor) : decode d.encode = d := by
  have hdirect : (Vector.ofFn fun i : Fin 12 => d.encode.word (4 * i.val)) = d.direct := by
    apply Vector.ext
    intro i hi
    rw [Vector.getElem_ofFn]
    apply d.word_encode (by omega)
    intro k hk
    have hdiv : (4 * i + k) / 4 = i := by omega
    have hmod : (4 * i + k) % 4 = k := by omega
    have hlt : 4 * i + k < 48 := by omega
    simp only [byteAt, hlt, dite_true, hdiv, hmod]
  have hindirect : d.encode.word 48 = d.indirect :=
    d.word_encode (by omega) fun k hk => by
      simp only [byteAt, show ¬ 48 + k < 48 by omega, show 48 + k < 52 by omega, dite_false, if_true,
        Nat.add_sub_cancel_left]
  have hdoubly : d.encode.word 52 = d.doublyIndirect :=
    d.word_encode (by omega) fun k hk => by
      simp only [byteAt, show ¬ 52 + k < 48 by omega, show ¬ 52 + k < 52 by omega,
        show 52 + k < 56 by omega, dite_false, if_false, if_true, Nat.add_sub_cancel_left]
  have hisDir : (d.encode[56] != 0) = d.isDir := by
    rw [d.getElem_encode (by decide)]
    cases hd : d.isDir with
    | false => simp [byteAt, hd]
    | true => simp [byteAt, hd]
  have hlength : d.encode.word 57 = d.length :=
    d.word_encode (by omega) fun k hk => by
      simp only [byteAt, show ¬ 57 + k < 48 by omega, show ¬ 57 + k < 52 by omega,
        show ¬ 57 + k < 56 by omega, show ¬ 57 + k = 56 by omega, show 57 + k < 61 by omega,
        dite_false, if_false, if_true, Nat.add_sub_cancel_left]
  have hmagic : d.encode.word 61 = d.magic :=
    d.word_encode (by omega) fun k hk => by
      simp only [byteAt, show ¬ 61 + k < 48 by omega, show ¬ 61 + k < 52 by omega,
        show ¬ 61 + k < 56 by omega, show ¬ 61 + k = 56 by omega, show ¬ 61 + k < 61 by omega,
        dite_false, if_false, Nat.add_sub_cancel_left]
  unfold decode
  rw [hdirect, hindirect, hdoubly, hisDir, hlength, hmagic]

end Descriptor

end InodeStore
