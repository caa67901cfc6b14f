import InodeStore.Inode.Descriptor
import InodeStore.Routine

/-!
# `InodeStore.Inode.Tree` — the sectors a file owns

A descriptor and its index blocks form a tree whose leaves are the file's data blocks. There are two
ways through it: `sectorAt` goes straight to the block that holds one byte, `visitOwned` visits
every sector in the order it was allocated in, an index block before the blocks that hang on it.

## Contents
- `load` and `save`: the descriptor at a sector, checked on reading.
- `follow`, `locate?`, `sectorAt`: from an offset to a sector.
- `visitOwned`, `ownedSectors`, `releaseInode`.
-/

namespace InodeStore.Inode

open Routine

/-! ## The descriptor -/

/-- The descriptor at a sector. It has to be one, and of a file that is not too long. -/
def load (sector : SectorId) : Routine Descriptor := do
  let d := Descriptor.decode (← view sector)
  if !d.isValid then fault (.corruptInode sector)
  else if maxFileSize < d.size then fault (.corruptLength sector d.size)
  else return d

/-- Write a descriptor to its sector. -/
def save (sector : SectorId) (d : Descriptor) : Routine Unit := store sector d.encode

/-! ## From an offset to a sector -/

/-- The sector of the block at a place. -/
def follow (d : Descriptor) : Position → Routine SectorId
  | .direct slot => return d.direct.get slot
  | .indirect slot => return (← view d.indirect).pointer slot
  | .doubly outer inner => do
    let index := (← view d.doublyIndirect).pointer outer
    return (← view index).pointer inner

/-- The place of the block that holds byte `offset`, if the file has that byte. -/
def locate? (d : Descriptor) (offset : Nat) : Option Position :=
  if offset < d.size then Position.of? (offset / sectorSize) else none

/-- The sector that holds byte `offset` of a file. -/
def sectorAt (d : Descriptor) (offset : Nat) : Routine SectorId :=
  match locate? d offset with
  | some place => follow d place
  | none => refuse .outOfRange

/-! ## All sectors -/

/-- What a walk over the blocks of a file carries along: the index block it is in, the second index
    block, and the visitor's own state. -/
structure Walk (β : Type) where
  index : Block
  outerIndex : Block
  state : β

/-- Visit the block at a place, and before it every index block that begins there. Index blocks are
    looked at after they were visited. -/
def visitBlock {β : Type} (visit : β → SectorId → Routine β) (d : Descriptor) (walk : Walk β) :
    Position → Routine (Walk β)
  | .direct slot => return { walk with state := ← visit walk.state (d.direct.get slot) }
  | .indirect slot => do
    let walk ←
      if slot.val = 0 then
        let state ← visit walk.state d.indirect
        pure { walk with state, index := ← view d.indirect }
      else pure walk
    return { walk with state := ← visit walk.state (walk.index.pointer slot) }
  | .doubly outer inner => do
    let walk ←
      if outer.val = 0 ∧ inner.val = 0 then
        let state ← visit walk.state d.doublyIndirect
        pure { walk with state, outerIndex := ← view d.doublyIndirect }
      else pure walk
    let walk ←
      if inner.val = 0 then
        let index := walk.outerIndex.pointer outer
        let state ← visit walk.state index
        pure { walk with state, index := ← view index }
      else pure walk
    return { walk with state := ← visit walk.state (walk.index.pointer inner) }

/-- Visit `count` blocks of a file from block `k` on. -/
def visitFrom {β : Type} (visit : β → SectorId → Routine β) (d : Descriptor) (k : Nat)
    (walk : Walk β) : (count : Nat) → Routine β
  | 0 => return walk.state
  | count + 1 =>
    match Position.of? k with
    | none => return walk.state
    | some place => do
      let walk ← visitBlock visit d walk place
      visitFrom visit d (k + 1) walk count

/-- Visit the data and index blocks of a file in the order they were allocated in. -/
def visitOwned {β : Type} (visit : β → SectorId → Routine β) (state : β) (d : Descriptor) :
    Routine β :=
  visitFrom visit d 0 ⟨Block.zero, Block.zero, state⟩ (dataBlocks d.size)

/-- All sectors of a file: data and index blocks in the order they were allocated in, then the
    descriptor. -/
def ownedSectors (sector : SectorId) : Routine (List SectorId) := do
  let d ← load sector
  let visited ← visitOwned (fun visited s => return s :: visited) [] d
  return (sector :: visited).reverse

/-- Give back all sectors of a file. -/
def releaseInode (sector : SectorId) : Routine Unit := do
  let d ← load sector
  let released ← visitOwned (fun released s => do release s; return released + 1) 0 d
  release sector
  emit (.inodeReleased sector released)

end InodeStore.Inode
