/-!
# `InodeStore.Block` — sectors, blocks and bytes

The unit of storage is a sector of 512 bytes. `Block` is the content of one sector, `Bytes` is a
byte string of any length, and the functions below move bytes between the two.

## Contents
- **Sizes.** `SectorId`, `sectorSize`, `Block`, `Bytes`.
- **Whole blocks.** `Block.zero`, `Block.ofBytes` (padded), `Block.toBytes`.
- **Parts of blocks.** `Block.slice`, `Block.splice` with `Block.get_splice` as its law, and
  `Block.patch` for several splices.
- **Words.** Little-endian 32-bit words inside a block: `wordByte`, `Block.word`, with
  `wordOfBytes_wordByte` as the law that a word is read back from its own bytes.
-/

namespace InodeStore

/-- The number of a sector on a device. -/
abbrev SectorId := UInt32

/-- Bytes in one sector. -/
abbrev sectorSize : Nat := 512

/-- The content of one sector. -/
abbrev Block := Vector UInt8 512

/-- A byte string. -/
abbrev Bytes := Array UInt8

/-! ## Words -/

/-- Byte `k` of a word, the least significant byte first. -/
def wordByte (w : UInt32) (k : Nat) : UInt8 := UInt8.ofNat (w.toNat >>> (8 * k))

/-- The word whose bytes are the four given ones, the least significant byte first. -/
def wordOfBytes (b₀ b₁ b₂ b₃ : UInt8) : UInt32 :=
  UInt32.ofNat (b₀.toNat + 256 * b₁.toNat + 65536 * b₂.toNat + 16777216 * b₃.toNat)

/-- A word is read back from its own bytes. -/
theorem wordOfBytes_wordByte (w : UInt32) :
    wordOfBytes (wordByte w 0) (wordByte w 1) (wordByte w 2) (wordByte w 3) = w := by
  have hw : w.toNat < 4294967296 := w.toNat_lt
  apply UInt32.toNat_inj.mp
  simp only [wordOfBytes, wordByte, UInt32.toNat_ofNat', UInt8.toNat_ofNat',
    Nat.shiftRight_eq_div_pow]
  omega

/-- The bytes of a word are those it was put together from. -/
theorem wordByte_wordOfBytes (b₀ b₁ b₂ b₃ : UInt8) :
    wordByte (wordOfBytes b₀ b₁ b₂ b₃) 0 = b₀ ∧ wordByte (wordOfBytes b₀ b₁ b₂ b₃) 1 = b₁ ∧
      wordByte (wordOfBytes b₀ b₁ b₂ b₃) 2 = b₂ ∧ wordByte (wordOfBytes b₀ b₁ b₂ b₃) 3 = b₃ := by
  have h₀ : b₀.toNat < 256 := b₀.toNat_lt
  have h₁ : b₁.toNat < 256 := b₁.toNat_lt
  have h₂ : b₂.toNat < 256 := b₂.toNat_lt
  have h₃ : b₃.toNat < 256 := b₃.toNat_lt
  refine ⟨?_, ?_, ?_, ?_⟩ <;>
  · apply UInt8.toNat_inj.mp
    simp only [wordOfBytes, wordByte, UInt32.toNat_ofNat', UInt8.toNat_ofNat',
      Nat.shiftRight_eq_div_pow]
    omega

namespace Block

/-! ## Whole blocks -/

/-- The block of zeros. -/
def zero : Block := Vector.replicate 512 0

/-- A block that starts with `bytes`: zeros follow a short string, a long one is cut. -/
def ofBytes (bytes : Bytes) : Block := Vector.ofFn fun i => bytes[i.val]?.getD 0

/-- All bytes of a block. -/
def toBytes (block : Block) : Bytes := block.toArray

/-! ## Parts of blocks -/

/-- The bytes of a block from `start` on, `count` of them or as many as there are. -/
def slice (block : Block) (start count : Nat) : Bytes :=
  block.toArray.extract start (start + count)

/-- A block with a list of bytes laid over it from `start` on; what would stick out is cut. -/
def lay (block : Block) (start : Nat) : List UInt8 → Block
  | [] => block
  | b :: rest => lay (block.setIfInBounds start b) (start + 1) rest

/-- A block with `bytes` laid over it from `start` on; what would stick out is cut. -/
def splice (block : Block) (start : Nat) (bytes : Bytes) : Block := block.lay start bytes.toList

/-- Lay several byte strings over a block, one after the other. -/
def patch (block : Block) (changes : List (Nat × Bytes)) : Block :=
  changes.foldl (fun b change => b.splice change.1 change.2) block

/-- After a byte was put at a place, that place holds it and the others what they held. -/
theorem get_setIfInBounds (block : Block) (start : Nat) (b : UInt8) (i : Fin 512) :
    Vector.get (block.setIfInBounds start b) i = if start = i.val then b else block.get i :=
  Vector.getElem_setIfInBounds i.isLt

/-- A byte is one of those laid over the block, if they cover its place, and else the block's own. -/
theorem get_lay (block : Block) (start : Nat) (bytes : List UInt8) (i : Fin 512) :
    (block.lay start bytes).get i =
      if start ≤ i.val then bytes[i.val - start]?.getD (block.get i) else block.get i := by
  induction bytes generalizing block start with
  | nil => simp [lay]
  | cons b rest ih =>
    rw [lay, ih, get_setIfInBounds]
    rcases Nat.lt_trichotomy start i.val with h | h | h
    · have hi : i.val - start = (i.val - (start + 1)) + 1 := by omega
      simp [hi, Nat.le_of_lt h, Nat.succ_le_of_lt h, Nat.ne_of_lt h]
    · rw [h, if_neg (Nat.not_succ_le_self i.val), if_pos rfl, if_pos (Nat.le_refl i.val), Nat.sub_self]
      rfl
    · simp [Nat.not_le.mpr h, Nat.not_le.mpr (Nat.lt_succ_of_lt h), Nat.ne_of_gt h]

/-- A byte of a spliced block is one of the new bytes or, where they do not reach, the old one. -/
theorem get_splice (block : Block) (start : Nat) (bytes : Bytes) (i : Fin 512) :
    (block.splice start bytes).get i =
      if start ≤ i.val then bytes[i.val - start]?.getD (block.get i) else block.get i := by
  rw [splice, get_lay, Array.getElem?_toList]

/-- The word at byte `start`. -/
def word (block : Block) (start : Nat) (h : start + 4 ≤ 512 := by omega) : UInt32 :=
  wordOfBytes block[start] block[start + 1] block[start + 2] block[start + 3]

end Block

end InodeStore
