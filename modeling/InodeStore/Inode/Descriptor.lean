import InodeStore.Inode.Position

/-!
# `InodeStore.Inode.Descriptor` — descriptors and index blocks on the device

A descriptor fills one sector: twelve sector numbers, the index block, the second index block, a byte
that tells directories from files, the length in bytes and a magic word; the rest is zero. An index
block is 128 sector numbers. All numbers are little-endian words.

## Contents
- `Descriptor`, its fields' places, `Descriptor.encode` and `Descriptor.decode`.
- `Block.pointer` and `Block.withPointer`: the slots of an index block.
-/

namespace InodeStore

/-- The word that marks a descriptor. -/
def inodeMagic : UInt32 := 0x494e4f44

/-- What a descriptor's sector says. -/
structure Descriptor where
  /-- The sectors of the first twelve blocks. -/
  direct : Vector SectorId 12
  /-- The index block of the next 128 blocks. -/
  indirect : SectorId
  /-- The index block of further index blocks. -/
  doublyIndirect : SectorId
  isDir : Bool
  /-- Length in bytes. -/
  length : UInt32
  magic : UInt32
  deriving DecidableEq

namespace Descriptor

/-- The descriptor of an empty file or directory. -/
def empty (isDir : Bool) : Descriptor :=
  ⟨Vector.replicate 12 0, 0, 0, isDir, 0, inodeMagic⟩

/-- Does the magic word mark a descriptor? -/
def isValid (d : Descriptor) : Bool := d.magic == inodeMagic

/-- Put a sector number into one of the twelve first slots. -/
def setDirect (d : Descriptor) (slot : Fin 12) (sector : SectorId) : Descriptor :=
  { d with direct := d.direct.set slot.val sector slot.isLt }

/-- The length as a number. -/
def size (d : Descriptor) : Nat := d.length.toNat

/-- Read a descriptor off its sector. -/
def decode (block : Block) : Descriptor where
  direct := Vector.ofFn fun i => block.word (4 * i.val)
  indirect := block.word 48
  doublyIndirect := block.word 52
  isDir := block[56] != 0
  length := block.word 57
  magic := block.word 61

/-- The byte at place `i` of a descriptor's sector, for the places in use. -/
def byteAt (d : Descriptor) (i : Nat) : UInt8 :=
  if h : i < 48 then wordByte d.direct[i / 4] (i % 4)
  else if i < 52 then wordByte d.indirect (i - 48)
  else if i < 56 then wordByte d.doublyIndirect (i - 52)
  else if i = 56 then if d.isDir then 1 else 0
  else if i < 61 then wordByte d.length (i - 57)
  else wordByte d.magic (i - 61)

/-- The sector of a descriptor: 65 places are in use, and zeros follow. -/
def encode (d : Descriptor) : Block :=
  Vector.append (Vector.ofFn fun i : Fin 65 => d.byteAt i.val) (Vector.replicate 447 (0 : UInt8))

/-- A byte of a descriptor's sector is that of its place if the place is in use, and else zero. -/
theorem get_encode (d : Descriptor) (i : Fin 512) :
    d.encode.get i = if i.val < 65 then d.byteAt i.val else 0 := by
  show (Vector.ofFn (fun j : Fin 65 => d.byteAt j.val) ++ Vector.replicate 447 (0 : UInt8))[i.val] = _
  rw [Vector.getElem_append]
  split <;> simp

end Descriptor

namespace Block

/-- The sector number in a slot of an index block. -/
def pointer (block : Block) (slot : Fin 128) : SectorId := block.word (4 * slot.val)

/-- Put a sector number into a slot of an index block. -/
def withPointer (slot : Fin 128) (sector : SectorId) (block : Block) : Block :=
  Vector.ofFn fun i =>
    if i.val / 4 = slot.val then wordByte sector (i.val % 4) else block.get i

end Block

end InodeStore
