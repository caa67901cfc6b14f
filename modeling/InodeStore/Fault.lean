import InodeStore.Block

/-!
# `InodeStore.Fault` — refusals and faults

Two ways in which an operation ends without a result:

- a **refusal** (`Error`) is an answer to the caller, and the store is as it was before;
- a **fault** (`Fault`) is a broken promise between the parts of the store, or damaged data on the
  device: the engine stops and must not be used any further.

`Halt` is either of the two. Each has one `message`. `Fault.ofDemand?` tells which demands for memory
are faults.
-/

namespace InodeStore

/-- An operation that the store refuses. -/
inductive Error where
  /-- No free sector is left. -/
  | allocationExhausted
  /-- The offset is not inside the file. -/
  | outOfRange
  /-- The length is more than the index structure can address. -/
  | fileTooLarge
  deriving DecidableEq, Repr

/-- A condition after which the engine cannot go on. -/
inductive Fault where
  /-- A sector to be reserved is taken already. -/
  | sectorInUse (sector : SectorId)
  /-- A sector to be given back is not taken. -/
  | sectorNotInUse (sector : Nat)
  /-- A run of no sectors was asked for. -/
  | emptyAllocation
  /-- A stored free map has the wrong number of bytes. -/
  | mapSizeMismatch
  /-- The free-map file is shorter than the free map. -/
  | mapFileTruncated
  /-- A cache was asked for with no frame in it. -/
  | noFrames
  /-- Every frame of the cache is pinned. -/
  | framesExhausted
  /-- A sector is needed whose write-back was begun by nobody who could finish it. -/
  | writeBackPending (sector : SectorId)
  /-- A read beyond the last sector of a RAM disk. -/
  | readBeyondDisk (sector : SectorId)
  /-- A write beyond the last sector of a RAM disk. -/
  | writeBeyondDisk (sector : SectorId)
  /-- An image file ends before the sector does. -/
  | incompleteSector
  /-- A sector that should hold a descriptor does not. -/
  | corruptInode (sector : SectorId)
  /-- A descriptor states a length beyond the longest file. -/
  | corruptLength (sector : SectorId) (length : Nat)
  /-- Writing is denied more often than the inode is open. -/
  | denialsExceedOpens
  /-- Writing is allowed again where it was not denied. -/
  | allowedWithoutDenial
  /-- An index outside a table. -/
  | indexOutOfBounds
  /-- A sum beyond 64 bits. -/
  | sumOverflow
  /-- A difference below zero. -/
  | differenceUnderflow
  /-- More bytes at once than any memory can hold. -/
  | beyondMemory
  /-- More bytes at once than there are to get. The program is stopped where it stands. -/
  | memoryExhausted (bytes : Nat)
  deriving DecidableEq, Repr

/-- Why an operation ended without a result. -/
inductive Halt where
  | refused (error : Error)
  | faulted (fault : Fault)
  deriving DecidableEq, Repr

/-- The text of a refusal. -/
def Error.message : Error → String
  | .allocationExhausted => "no free sector left"
  | .outOfRange => "offset beyond the end of file"
  | .fileTooLarge => "file too large"

/-- The text of a fault. -/
def Fault.message : Fault → String
  | .sectorInUse sector => s!"sector {sector} is already in use"
  | .sectorNotInUse sector => s!"release free sector {sector}"
  | .emptyAllocation => "assertion failed: count > 0"
  | .mapSizeMismatch => "free map size mismatch"
  | .mapFileTruncated => "free map file is truncated"
  | .noFrames => "block cache without frames"
  | .framesExhausted => "run out of block cache"
  | .writeBackPending sector => s!"write back of sector {sector} is pending"
  | .readBeyondDisk sector => s!"read beyond the ram disk: sector {sector}"
  | .writeBeyondDisk sector => s!"write beyond the ram disk: sector {sector}"
  | .incompleteSector => "not a complete sector!"
  | .corruptInode sector => s!"corrupt inode at sector {sector}"
  | .corruptLength sector length => s!"corrupt inode at sector {sector}: length {length}"
  | .denialsExceedOpens => "assertion failed: state.deny_write_count <= state.open_count"
  | .allowedWithoutDenial => "allow_write without deny_write"
  | .indexOutOfBounds => "index out of bounds"
  | .sumOverflow => "attempt to add with overflow"
  | .differenceUnderflow => "attempt to subtract with overflow"
  | .beyondMemory => "capacity overflow"
  | .memoryExhausted bytes => s!"memory allocation of {bytes} bytes failed"

/-! ## Memory -/

/-- The number of bytes, 2^63, that no memory holds. -/
def memoryBound : Nat := 9223372036854775808

/-- The number of bytes, 2^35, that is more than a program gets when nothing else is said. -/
def memoryLimit : Nat := 34359738368

/-- The fault that it is to ask for so many bytes at once, where `limit` bytes are more than there is. -/
def Fault.ofDemand? (bytes : Nat) (limit : Nat := memoryLimit) : Option Fault :=
  if memoryBound ≤ bytes then some .beyondMemory
  else if limit ≤ bytes then some (.memoryExhausted bytes)
  else none

/-- Exactly the demands below the bound and the limit are met. -/
theorem Fault.ofDemand?_eq_none_iff (bytes limit : Nat) :
    Fault.ofDemand? bytes limit = none ↔ bytes < memoryBound ∧ bytes < limit := by
  unfold Fault.ofDemand?
  split
  · simp only [reduceCtorEq, false_iff]; omega
  · split
    · simp only [reduceCtorEq, false_iff]; omega
    · simp only [true_iff]; omega

end InodeStore
