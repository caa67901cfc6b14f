import InodeStore.Device.Basic
import Std.Data.HashMap

/-!
# `InodeStore.Device.ImageFile` — a host file as a device

`HostFile` is the content of a file: a length in bytes, and the blocks that may hold something other
than zeros. `ImageFile` is such a file used as a device. Its sectors are the complete ones the file
had when it was opened; bytes after them are ignored. The file itself knows no last sector: a write
beyond its end makes it longer, and a read that meets its end is a fault.
-/

namespace InodeStore

/-- The content of a file. -/
structure HostFile where
  /-- Blocks by their number; a block that is not listed holds zeros. -/
  blocks : Std.HashMap Nat Block
  /-- Length in bytes. What a block holds beyond it is no content. -/
  length : Nat

namespace HostFile

/-- A file of `length` zeros. -/
def zeros (length : Nat) : HostFile := ⟨∅, length⟩

/-- The number of blocks that `length` bytes fill or begin to fill. -/
def blockCount (file : HostFile) : Nat := (file.length + 511) / sectorSize

/-- A file with given content. -/
def ofBytes (bytes : Bytes) : HostFile :=
  let part (k : Nat) : Bytes := bytes.extract (sectorSize * k) (sectorSize * (k + 1))
  let blocks := (List.range ((bytes.size + 511) / sectorSize)).foldl
    (fun blocks k => blocks.insert k (Block.ofBytes (part k))) ∅
  ⟨blocks, bytes.size⟩

/-- The block `k`, as if zeros followed the end of the file. -/
def blockAt (file : HostFile) (k : Nat) : Block := file.blocks.getD k Block.zero

/-- The bytes of the file that are in block `k`. -/
def part (file : HostFile) (k : Nat) : Bytes :=
  (file.blockAt k).slice 0 (min sectorSize (file.length - sectorSize * k))

/-- The block `k`, if the file has all of it. -/
def read? (file : HostFile) (k : Nat) : Option Block :=
  if sectorSize * (k + 1) ≤ file.length then some (file.blockAt k) else none

/-- Replace the block `k`; the file becomes longer if it ends before the block does. -/
def write (file : HostFile) (k : Nat) (block : Block) : HostFile :=
  ⟨file.blocks.insert k block, max file.length (sectorSize * (k + 1))⟩

end HostFile

/-- A file used as a device. -/
structure ImageFile where
  file : HostFile
  /-- Complete sectors of the file when it was opened. -/
  sectorCount : Nat

namespace ImageFile

/-- Use a file as a device; `none` if it has more sectors than a sector number can name. -/
def open? (file : HostFile) : Option ImageFile :=
  if file.length / sectorSize < UInt32.size then some ⟨file, file.length / sectorSize⟩ else none

/-- What is said of a file with too many sectors. -/
def tooLargeMessage : String := "image too large"

/-- Read a sector. -/
def read (sector : SectorId) (image : ImageFile) : Except Fault Block × ImageFile :=
  match image.file.read? sector.toNat with
  | some block => (.ok block, image)
  | none => (.error .incompleteSector, image)

/-- Write a sector. -/
def write (sector : SectorId) (block : Block) (image : ImageFile) : Except Fault Unit × ImageFile :=
  (.ok (), { image with file := image.file.write sector.toNat block })

instance : BlockDevice ImageFile where
  sectorCount image := image.sectorCount
  read := read
  write := write

end ImageFile

end InodeStore
