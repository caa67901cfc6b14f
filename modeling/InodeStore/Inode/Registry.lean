import InodeStore.Action

/-!
# `InodeStore.Inode.Registry` — the inodes that are open

One entry for each inode that has an unclosed handle, under the sector of its descriptor. All handles
of an inode share the entry, so a handle is no more than the sector it stands for. The entry counts
the handles and the denials of writing, and remembers whether the file was removed; the close that
ends the last handle ends the entry.

A handle that is dropped instead of closed keeps its place in the count for good.

## Contents
- `OpenInode`, `Handle`, `Registry` with `find?`, `set`, `erase`, `size`.
- **Handles.** `openInode`, `reopen`, `close`, `drop`.
- **Entry.** `remove`, `denyWrite`, `allowWrite`, `setGrowing` and the questions about them.
-/

namespace InodeStore

/-- What is known of an inode while it is open. -/
structure OpenInode where
  /-- Handles that are not closed. -/
  openCount : Nat
  /-- Denials of writing that are not taken back. -/
  denyCount : Nat
  /-- The file goes when the last handle is closed. -/
  removed : Bool
  /-- Somebody is lengthening the file. -/
  growing : Bool
  deriving DecidableEq, Repr

/-- An entry nobody has used yet. -/
def OpenInode.fresh : OpenInode := ⟨0, 0, false, false⟩

/-- A claim to an open inode. -/
structure Handle where
  /-- The sector of the descriptor. -/
  sector : SectorId
  deriving DecidableEq, Repr

/-- The open inodes by the sector of their descriptor, each sector once. -/
structure Registry where
  entries : List (SectorId × OpenInode)
  deriving DecidableEq, Repr

namespace Registry

/-- The registry with nothing open. -/
def empty : Registry := ⟨[]⟩

/-- The entry of a sector. -/
def find? (registry : Registry) (sector : SectorId) : Option OpenInode :=
  registry.entries.lookup sector

/-- The entry of a handle's inode. -/
def entry (registry : Registry) (handle : Handle) : OpenInode :=
  (registry.find? handle.sector).getD .fresh

/-- Give a sector an entry, in place of the one it may have. -/
def set (registry : Registry) (sector : SectorId) (inode : OpenInode) : Registry :=
  ⟨(sector, inode) :: registry.entries.filter fun e => e.1 != sector⟩

/-- Take away the entry of a sector. -/
def erase (registry : Registry) (sector : SectorId) : Registry :=
  ⟨registry.entries.filter fun e => e.1 != sector⟩

/-- The number of open inodes. -/
def size (registry : Registry) : Nat := registry.entries.length

/-- Change the entry of a handle's inode. -/
def change (registry : Registry) (handle : Handle) (f : OpenInode → OpenInode) : Registry :=
  registry.set handle.sector (f (registry.entry handle))

/-! ## Handles -/

/-- A first or a further handle on the inode at a sector. -/
def openInode (sector : SectorId) : Action Registry Handle := fun registry =>
  ⟨.ok ⟨sector⟩,
    registry.change ⟨sector⟩ fun inode => { inode with openCount := inode.openCount + 1 }, []⟩

/-- A further handle on the same inode. -/
def reopen (handle : Handle) : Action Registry Handle := openInode handle.sector

/-- End a handle. The answer tells whether it was the last one of a removed file, whose sectors are
    to be given back now. -/
def close (handle : Handle) : Action Registry Bool := fun registry =>
  let inode := registry.entry handle
  if 1 < inode.openCount then
    ⟨.ok false,
      registry.set handle.sector { inode with openCount := inode.openCount - 1 }, []⟩
  else ⟨.ok inode.removed, registry.erase handle.sector, []⟩

/-- Lose a handle without closing it. -/
def drop (handle : Handle) : Action Registry Unit := Action.emit (.handleDropped handle.sector)

/-! ## Entry -/

/-- The unclosed handles of an inode. -/
def openCount (registry : Registry) (handle : Handle) : Nat := (registry.entry handle).openCount

/-- Was the file removed? -/
def isRemoved (registry : Registry) (handle : Handle) : Bool := (registry.entry handle).removed

/-- Is writing denied? -/
def isDenied (registry : Registry) (handle : Handle) : Bool :=
  0 < (registry.entry handle).denyCount

/-- Is somebody lengthening the file? -/
def isGrowing (registry : Registry) (handle : Handle) : Bool := (registry.entry handle).growing

/-- Mark the file removed: it goes when the last handle is closed. -/
def remove (handle : Handle) : Action Registry Unit :=
  Action.modify fun registry => registry.change handle fun inode => { inode with removed := true }

/-- Deny writing, which no more parties may do than have the inode open. -/
def denyWrite (handle : Handle) : Action Registry Unit := fun registry =>
  let registry :=
    registry.change handle fun inode => { inode with denyCount := inode.denyCount + 1 }
  let inode := registry.entry handle
  ⟨if inode.denyCount ≤ inode.openCount then .ok () else .error .denialsExceedOpens, registry, []⟩

/-- Take back one denial. -/
def allowWrite (handle : Handle) : Action Registry Unit := fun registry =>
  if registry.isDenied handle then
    ⟨.ok (),
      registry.change handle fun inode => { inode with denyCount := inode.denyCount - 1 }, []⟩
  else ⟨.error .allowedWithoutDenial, registry, []⟩

/-- Begin or end lengthening the file. -/
def setGrowing (handle : Handle) (growing : Bool) : Action Registry Unit :=
  Action.modify fun registry => registry.change handle fun inode => { inode with growing }

end Registry

end InodeStore
