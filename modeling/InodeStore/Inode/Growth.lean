import InodeStore.Inode.Tree

/-!
# `InodeStore.Inode.Growth` — lengthening a file

A file grows block by block. A new block is filled with zeros before anything points to it, and an
index block is made when the first of its slots is needed, before the block for that slot. Only the
caller's copy of the descriptor changes; it goes to its sector when the growth is complete, so until
then the file on record is the old one.

## Contents
- `takeZeroed`, `attach`, `growFrom`, `grow`.
- `create`, `createAt`: a new file is an empty one that grows.
- `extend`: growth of a file on record.
-/

namespace InodeStore.Inode

open Routine

/-- A free sector, taken and filled with zeros. -/
def takeZeroed : Routine SectorId := do
  let sector ← allocate
  zeroize sector
  return sector

/-- Hang a new block at a place. -/
def attach (d : Descriptor) : Position → Routine Descriptor
  | .direct slot => return d.setDirect slot (← takeZeroed)
  | .indirect slot => do
    let d ←
      if slot.val = 0 then pure { d with indirect := ← takeZeroed }
      else pure d
    let data ← takeZeroed
    update d.indirect (Block.withPointer slot data)
    return d
  | .doubly outer inner => do
    let d ←
      if outer.val = 0 ∧ inner.val = 0 then pure { d with doublyIndirect := ← takeZeroed }
      else pure d
    let index ←
      if inner.val = 0 then
        let index ← takeZeroed
        update d.doublyIndirect (Block.withPointer outer index)
        pure index
      else
        pure ((← view d.doublyIndirect).pointer outer)
    let data ← takeZeroed
    update index (Block.withPointer inner data)
    return d

/-- Hang `count` new blocks on a file from block `k` on. -/
def growFrom (k : Nat) (d : Descriptor) : (count : Nat) → Routine Descriptor
  | 0 => return d
  | count + 1 =>
    match Position.of? k with
    | none => return d
    | some place => do
      let d ← attach d place
      growFrom (k + 1) d count

/-- The descriptor of a file lengthened to `length` bytes. -/
def grow (d : Descriptor) (length : Nat) : Routine Descriptor := do
  if maxFileSize < length then refuse .fileTooLarge
  else
    let d ← growFrom (dataBlocks d.size) d (dataBlocks length - dataBlocks d.size)
    return { d with length := UInt32.ofNat length }

/-- Make a file of `length` zeros at a sector. -/
def build (sector : SectorId) (length : Nat) (isDir : Bool) : Routine Unit := do
  let d ← grow (.empty isDir) length
  save sector d

/-- Make a file of `length` zeros. The answer is the sector of its descriptor. -/
def create (length : Nat) (isDir : Bool) : Routine SectorId := do
  let (sector, sectors) ← reserving do
    let sector ← allocate
    build sector length isDir
    return sector
  emit (.inodeCreated sector length sectors)
  return sector

/-- Make a file of `length` zeros whose descriptor is at a sector the caller has reserved. -/
def createAt (sector : SectorId) (length : Nat) (isDir : Bool) : Routine Unit := do
  let ((), sectors) ← reserving (build sector length isDir)
  emit (.inodeCreated sector length sectors)

/-- Lengthen a file on record. The answer is its new descriptor. -/
def extend (sector : SectorId) (d : Descriptor) (length : Nat) : Routine Descriptor := do
  let (grown, sectors) ← reserving do
    let grown ← grow d length
    save sector grown
    return grown
  emit (.inodeGrown sector d.size length sectors)
  return grown

end InodeStore.Inode
