import InodeStore.Block

/-!
# `InodeStore.Inode.Position` — where a file's blocks hang

The blocks of a file are numbered from 0. The first 12 hang directly on the descriptor, the next 128
on one index block, and the rest on 128 further index blocks that hang on a second one. `Position.of?`
finds the place of a block; `dataBlocks` and `totalBlocks` count what a file of some length needs.

## Contents
- **Sizes.** `directCount`, `indirectCount`, `maxFileBlocks`, `maxFileSize`.
- **Places.** `Position`, `Position.of?`.
- **Counts.** `dataBlocks`, `totalBlocks`.
-/

namespace InodeStore

/-! ## Sizes -/

/-- Blocks that hang directly on a descriptor. -/
abbrev directCount : Nat := 12

/-- Blocks that hang on one index block. -/
abbrev indirectCount : Nat := 128

/-- Blocks of the longest file. -/
abbrev maxFileBlocks : Nat := directCount + indirectCount + indirectCount * indirectCount

/-- Bytes of the longest file. -/
abbrev maxFileSize : Nat := maxFileBlocks * sectorSize

/-! ## Places -/

/-- Where a block of a file hangs. -/
inductive Position where
  /-- On the descriptor. -/
  | direct (slot : Fin 12)
  /-- On the index block. -/
  | indirect (slot : Fin 128)
  /-- In a slot of the index block that hangs in a slot of the second index block. -/
  | doubly (outer inner : Fin 128)
  deriving DecidableEq, Repr

/-- The place of block `k` of a file, if a file can have so many blocks. -/
def Position.of? (k : Nat) : Option Position :=
  if h₁ : k < 12 then some (.direct ⟨k, h₁⟩)
  else if h₂ : k - 12 < 128 then some (.indirect ⟨k - 12, h₂⟩)
  else if h₃ : (k - 140) / 128 < 128 then
    some (.doubly ⟨(k - 140) / 128, h₃⟩ ⟨(k - 140) % 128, Nat.mod_lt _ (by decide)⟩)
  else none

/-- Exactly the blocks of the longest file have a place. -/
theorem Position.of?_isSome (k : Nat) : (Position.of? k).isSome ↔ k < maxFileBlocks := by
  unfold Position.of? maxFileBlocks directCount indirectCount
  split
  · simp; omega
  · split
    · simp; omega
    · split
      · simp; omega
      · simp; omega

/-! ## Counts -/

/-- Blocks that `length` bytes fill or begin to fill. -/
def dataBlocks (length : Nat) : Nat := (length + 511) / 512

/-- Blocks of a file of `length` bytes, index blocks included and the descriptor left out. -/
def totalBlocks (length : Nat) : Nat :=
  let blocks := dataBlocks length
  blocks + (if 12 < blocks then 1 else 0) + if 140 < blocks then 1 + (blocks - 140 + 127) / 128 else 0

end InodeStore
