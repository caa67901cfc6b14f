import InodeStore.Device.Basic

/-!
# `InodeStore.Device.RamDisk` — a device in memory

An array of blocks that counts the transfers it makes. `peek` and `poke` reach the content without
being counted.
-/

namespace InodeStore

/-- A device in memory. -/
structure RamDisk where
  sectors : Array Block
  /-- Sectors read so far. -/
  reads : Nat
  /-- Sectors written so far. -/
  writes : Nat

namespace RamDisk

/-- A disk of `count` sectors of zeros. -/
def blank (count : Nat) : RamDisk := ⟨Array.replicate count Block.zero, 0, 0⟩

/-- The content of a sector, not counted as a read. -/
def peek (disk : RamDisk) (sector : SectorId) : Except Fault Block :=
  match disk.sectors[sector.toNat]? with
  | some block => .ok block
  | none => .error .indexOutOfBounds

/-- Replace the content of a sector, not counted as a write. -/
def poke (disk : RamDisk) (sector : SectorId) (block : Block) : Except Fault RamDisk :=
  if sector.toNat < disk.sectors.size then
    .ok { disk with sectors := disk.sectors.setIfInBounds sector.toNat block }
  else
    .error .indexOutOfBounds

/-- Read a sector and count it. -/
def read (sector : SectorId) (disk : RamDisk) : Except Fault Block × RamDisk :=
  match disk.sectors[sector.toNat]? with
  | some block => (.ok block, { disk with reads := disk.reads + 1 })
  | none => (.error (.readBeyondDisk sector), disk)

/-- Write a sector and count it. -/
def write (sector : SectorId) (block : Block) (disk : RamDisk) : Except Fault Unit × RamDisk :=
  if sector.toNat < disk.sectors.size then
    (.ok (),
      { disk with
        sectors := disk.sectors.setIfInBounds sector.toNat block
        writes := disk.writes + 1 })
  else
    (.error (.writeBeyondDisk sector), disk)

instance : BlockDevice RamDisk where
  sectorCount disk := disk.sectors.size
  read := read
  write := write

end RamDisk

end InodeStore
