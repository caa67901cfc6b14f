import InodeStore.Proofs.Inode.Codec

/-!
# `Proofs.Inode.Encoding` — which blocks are descriptors

A descriptor is put into a block that is cleared first and then gets each field at its place
(`Descriptor.putInto`). The fields lie side by side, so that together they are the 65 bytes of the descriptor's
sector, whatever was in the block before (`putInto_eq`). In a block that is read as a descriptor these bytes are
those of the fields again, but for the flag, which is any byte when read and only 0 or 1 when put there. So a
block comes back from its descriptor exactly if its flag is such a byte and zeros follow the last field
(`encode_decode_iff`).
-/

namespace InodeStore

/-! ## Fields side by side -/

namespace Block

/-- Bytes laid right behind others are laid with them at once. -/
theorem lay_append (block : Block) (start : Nat) (l l' : List UInt8) :
    (block.lay start l).lay (start + l.length) l' = block.lay start (l ++ l') := by
  induction l generalizing block start with
  | nil => rfl
  | cons b rest ih =>
    have hplace : start + (b :: rest).length = start + 1 + rest.length := by
      rw [List.length_cons, Nat.add_assoc, Nat.add_comm 1]
    rw [hplace]
    exact ih (block.setIfInBounds start b) (start + 1)

/-- Each change begins where the one before it ends. -/
def SideBySide (start : Nat) : List (Nat × Bytes) → Prop
  | [] => True
  | (place, bytes) :: rest => place = start ∧ SideBySide (start + bytes.size) rest

/-- Changes side by side are one change. -/
theorem patch_eq_lay {changes : List (Nat × Bytes)} {start : Nat} (h : SideBySide start changes)
    (block : Block) : block.patch changes = block.lay start (changes.flatMap fun change => change.2.toList) := by
  induction changes generalizing block start with
  | nil => rfl
  | cons change rest ih =>
    obtain ⟨place, bytes⟩ := change
    obtain ⟨rfl, hrest⟩ := h
    rw [List.flatMap_cons, ← lay_append]
    exact ih hrest (block.splice place bytes)

/-- A word is made of the bytes at its place. -/
theorem wordByte_word (block : Block) {start k : Nat} (hstart : start + 4 ≤ 512) (hk : k < 4) :
    wordByte (block.word start hstart) k = block[start + k] := by
  obtain ⟨h₀, h₁, h₂, h₃⟩ :=
    wordByte_wordOfBytes block[start] block[start + 1] block[start + 2] block[start + 3]
  have hcases : k = 0 ∨ k = 1 ∨ k = 2 ∨ k = 3 := by omega
  rcases hcases with rfl | rfl | rfl | rfl
  · exact h₀
  · exact h₁
  · exact h₂
  · exact h₃

end Block

namespace Descriptor

/-! ## Putting a descriptor into a block -/

/-- The bytes of a word, the least significant first. -/
def wordBytes (w : UInt32) : Bytes := #[wordByte w 0, wordByte w 1, wordByte w 2, wordByte w 3]

/-- The fields of a descriptor, each with its place. -/
def fields (d : Descriptor) : List (Nat × Bytes) :=
  (List.finRange 12).map (fun slot => (4 * slot.val, wordBytes (d.direct.get slot))) ++
    [(48, wordBytes d.indirect), (52, wordBytes d.doublyIndirect), (56, #[if d.isDir then 1 else 0]),
      (57, wordBytes d.length), (61, wordBytes d.magic)]

/-- Put a descriptor into a block: the block is cleared, and then gets the fields. -/
def putInto (d : Descriptor) (block : Block) : Block := Block.patch (block.map fun _ => 0) d.fields

/-- Twelve slots and five more fields. -/
theorem fields_sideBySide (d : Descriptor) : Block.SideBySide 0 d.fields :=
  ⟨rfl, rfl, rfl, rfl, rfl, rfl, rfl, rfl, rfl, rfl, rfl, rfl, rfl, rfl, rfl, rfl, rfl, trivial⟩

/-- Together the fields are the bytes in use. -/
theorem fields_bytes (d : Descriptor) :
    (d.fields.flatMap fun change => change.2.toList) = (List.range 65).map d.byteAt := rfl

/-- **What a block held before** does not matter. -/
theorem putInto_eq (d : Descriptor) (block : Block) : d.putInto block = d.encode := by
  rw [putInto, Block.patch_eq_lay d.fields_sideBySide, d.fields_bytes]
  apply Vector.ext
  intro i hi
  show Vector.get (Block.lay _ 0 _) ⟨i, hi⟩ = d.encode.get ⟨i, hi⟩
  rw [Block.get_lay, if_pos (Nat.zero_le _), Nat.sub_zero, get_encode]
  by_cases hused : i < 65
  · rw [if_pos hused, List.getElem?_map, List.getElem?_range hused]
    rfl
  · rw [if_neg hused, List.getElem?_eq_none (by simpa using Nat.le_of_not_lt hused)]
    exact Vector.getElem_map _ hi

/-! ## Reading a block and putting it back -/

/-- The bytes that a block is read by, but the flag's, are those of its fields. -/
theorem byteAt_decode (block : Block) {i : Fin 512} (hi : i.val < 65) (hflag : i.val ≠ 56) :
    (decode block).byteAt i.val = block.get i := by
  obtain ⟨i, hlt⟩ := i
  have hi : i < 65 := hi
  have hflag : i ≠ 56 := hflag
  show (decode block).byteAt i = block[i]
  unfold byteAt decode
  by_cases hdirect : i < 48
  · have hplace : 4 * (i / 4) + i % 4 = i := Nat.div_add_mod i 4
    rw [dif_pos hdirect, Vector.getElem_ofFn, Block.wordByte_word _ _ (Nat.mod_lt i (by decide))]
    simp only [hplace]
  rw [dif_neg hdirect]
  by_cases hindirect : i < 52
  · have hplace : 48 + (i - 48) = i := by omega
    rw [if_pos hindirect, Block.wordByte_word _ _ (by omega)]
    simp only [hplace]
  rw [if_neg hindirect]
  by_cases hdoubly : i < 56
  · have hplace : 52 + (i - 52) = i := by omega
    rw [if_pos hdoubly, Block.wordByte_word _ _ (by omega)]
    simp only [hplace]
  rw [if_neg hdoubly, if_neg hflag]
  by_cases hlength : i < 61
  · have hplace : 57 + (i - 57) = i := by omega
    rw [if_pos hlength, Block.wordByte_word _ _ (by omega)]
    simp only [hplace]
  · have hplace : 61 + (i - 61) = i := by omega
    rw [if_neg hlength, Block.wordByte_word _ _ (by omega)]
    simp only [hplace]

/-- The flag is put there as one of two bytes. -/
theorem byteAt_decode_flag (block : Block) :
    (decode block).byteAt 56 = if block.get 56 = 0 then 0 else 1 := by
  show (if (block.get 56 != 0) = true then (1 : UInt8) else 0) = _
  by_cases h : block.get 56 = 0
  · simp [h]
  · simp [h]

/-- **A block comes back** from the descriptor that it is read as if its flag is 0 or 1 and all bytes after the
last field are 0. -/
theorem encode_decode_iff (block : Block) : (decode block).encode = block ↔
    (block.get 56 = 0 ∨ block.get 56 = 1) ∧ ∀ i : Fin 512, 65 ≤ i.val → block.get i = 0 := by
  have hbyte : ∀ i : Fin 512, (decode block).encode.get i =
      if i.val < 65 then (decode block).byteAt i.val else 0 := (decode block).get_encode
  constructor
  · intro h
    rw [h] at hbyte
    constructor
    · have hflag : block.get 56 = (decode block).byteAt 56 := hbyte 56
      rw [byteAt_decode_flag] at hflag
      by_cases hzero : block.get 56 = 0
      · exact .inl hzero
      · exact .inr (hflag.trans (if_neg hzero))
    · intro i hi
      exact (hbyte i).trans (if_neg (Nat.not_lt.mpr hi))
  · rintro ⟨hflag, hrest⟩
    apply Vector.ext
    intro i hi
    refine (hbyte ⟨i, hi⟩).trans ?_
    by_cases hused : i < 65
    · rw [if_pos hused]
      by_cases hplace : i = 56
      · subst hplace
        show _ = block.get 56
        rw [byteAt_decode_flag]
        rcases hflag with hzero | hone
        · rw [if_pos hzero, hzero]
        · rw [hone, if_neg (by decide)]
      · exact byteAt_decode block hused hplace
    · exact (if_neg hused).trans (hrest ⟨i, hi⟩ (Nat.le_of_not_lt hused)).symm

/-- **Descriptors and blocks.** A descriptor is read back from the block it was put into, which is the same
block whatever was there before. A block that is read as a descriptor and put back is the same again exactly if
its flag is 0 or 1 and zeros follow the last field, and it always reads as the same descriptor. -/
theorem codec_exact :
    (∀ (d : Descriptor) (buffer : Block), decode (d.putInto buffer) = d ∧ d.putInto buffer = d.encode) ∧
    ∀ block buffer : Block,
      ((decode block).putInto buffer = block ↔
        (block.get 56 = 0 ∨ block.get 56 = 1) ∧ ∀ i : Fin 512, 65 ≤ i.val → block.get i = 0) ∧
      decode ((decode block).putInto buffer) = decode block := by
  refine ⟨fun d buffer => ⟨?_, d.putInto_eq buffer⟩, fun block buffer => ?_⟩
  · rw [putInto_eq, decode_encode]
  · rw [putInto_eq, decode_encode]
    exact ⟨encode_decode_iff block, rfl⟩

end Descriptor

end InodeStore
