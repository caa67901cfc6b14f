import InodeStore.Action

/-!
# `InodeStore.FreeMap` — which sectors are taken

One bit per sector, set while the sector is taken, in groups of 64. The bits of the last group that
stand for no sector are set from the start (`sealUnused`), so that no search ends there.

## Contents
- **Bits.** `hasBit`, `setBit`, `clearBit` of one group; `bit?`, `assign` of the whole map.
- **Reserving and giving back.** `mark`, `release`, `isAllocated`, `freeCount`.
- **First fit.** `firstFit?` finds the first run of clear bits, `allocate` takes it.
- **Stored form.** `byteLength`, `toBytes`, `load`: eight sectors a byte, the lowest bit first.
-/

namespace InodeStore

/-- Which sectors of a device are taken. -/
structure FreeMap where
  /-- The number of sectors. -/
  sectors : Nat
  /-- The bits, 64 in a group. -/
  groups : Array UInt64

namespace FreeMap

/-! ## Bits -/

/-- The group with every bit set. -/
def fullGroup : UInt64 := 0xffffffffffffffff

/-- Is bit `i` of a group set? -/
def hasBit (group : UInt64) (i : Nat) : Bool := (group >>> UInt64.ofNat i) &&& 1 != 0

/-- A group with bit `i` set. -/
def setBit (group : UInt64) (i : Nat) : UInt64 := group ||| (1 <<< UInt64.ofNat i)

/-- A group with bit `i` clear. -/
def clearBit (group : UInt64) (i : Nat) : UInt64 := group &&& ~~~(1 <<< UInt64.ofNat i)

/-- The clear bits of a group. -/
def clearCount (group : UInt64) : Nat :=
  if group = fullGroup then 0 else (List.range 64).countP fun i => !hasBit group i

/-- The bit of a sector, `none` beyond the last group. -/
def bit? (map : FreeMap) (sector : Nat) : Option Bool :=
  map.groups[sector / 64]?.map fun group => hasBit group (sector % 64)

/-- Set or clear the bit of a sector. -/
def assign (map : FreeMap) (sector : Nat) (taken : Bool) : FreeMap :=
  { map with
    groups := map.groups.modify (sector / 64) fun group =>
      if taken then setBit group (sector % 64) else clearBit group (sector % 64) }

/-- Set or clear the bits of `count` sectors from `first` on. -/
def assignRun (map : FreeMap) (first : Nat) (taken : Bool) : (count : Nat) → FreeMap
  | 0 => map
  | count + 1 => assignRun (map.assign first taken) (first + 1) taken count

/-- Set the bits of the last group that stand for no sector. -/
def sealUnused (sectors : Nat) (groups : Array UInt64) : Array UInt64 :=
  if sectors % 64 = 0 then groups
  else groups.modify (groups.size - 1) (· ||| fullGroup <<< UInt64.ofNat (sectors % 64))

/-- The map of `sectors` free sectors. -/
def blank (sectors : Nat) : FreeMap :=
  ⟨sectors, sealUnused sectors (Array.replicate ((sectors + 63) / 64) 0)⟩

/-- The number of clear bits. -/
def freeCount (map : FreeMap) : Nat := map.groups.foldl (fun n group => n + clearCount group) 0

/-! ## Reserving and giving back -/

/-- Reserve one given sector, which has to be free. -/
def mark (sector : SectorId) : Action FreeMap Unit := fun map =>
  match map.bit? sector.toNat with
  | none => ⟨.error .indexOutOfBounds, map, []⟩
  | some true => ⟨.error (.sectorInUse sector), map, []⟩
  | some false => ⟨.ok (), map.assign sector.toNat true, []⟩

/-- Is a sector taken? -/
def isAllocated (map : FreeMap) (sector : SectorId) : Except Fault Bool :=
  match map.bit? sector.toNat with
  | none => .error .indexOutOfBounds
  | some taken => .ok taken

/-- Give back `count` sectors from `first` on, each of which has to be taken. -/
def releaseRun (first : Nat) : (count : Nat) → Action FreeMap Unit
  | 0 => fun map => ⟨.ok (), map, []⟩
  | count + 1 => fun map =>
    match map.bit? first with
    | none => ⟨.error .indexOutOfBounds, map, []⟩
    | some false => ⟨.error (.sectorNotInUse first), map, []⟩
    | some true => releaseRun (first + 1) count (map.assign first false)

/-- Give back `count` sectors; the end of the run has to be a 64-bit number. -/
def release (sector : SectorId) (count : Nat) : Action FreeMap Unit :=
  if sector.toNat + count < UInt64.size then releaseRun sector.toNat count
  else Action.fault .sumOverflow

/-! ## First fit -/

/-- The first of `count` clear bits in a row, searched from `bit` on, where the last `run` bits
    before `bit` are clear. A full group is passed over as a whole. -/
def scan (map : FreeMap) (count bit run : Nat) : Option Nat :=
  if bit < map.sectors then
    let group := map.groups[bit / 64]?.getD fullGroup
    if bit % 64 = 0 ∧ group = fullGroup then scan map count (bit + 64) 0
    else if hasBit group (bit % 64) then scan map count (bit + 1) 0
    else if run + 1 = count then some (bit + 1 - count)
    else scan map count (bit + 1) (run + 1)
  else none
termination_by map.sectors - bit

/-- The first sector of the first run of `count` free sectors. -/
def firstFit? (map : FreeMap) (count : Nat) : Option Nat := map.scan count 0 0

/-- Take the first run of `count` free sectors. -/
def allocate (count : Nat) : Action FreeMap (Except Error SectorId) := fun map =>
  if count = 0 then ⟨.error .emptyAllocation, map, []⟩
  else
    match map.firstFit? count with
    | none => ⟨.ok (.error .allocationExhausted), map, [.mapExhausted count]⟩
    | some first => ⟨.ok (.ok (UInt32.ofNat first)), map.assignRun first true count, []⟩

/-! ## Stored form -/

/-- Bytes of the stored form. -/
def byteLength (map : FreeMap) : Nat := (map.sectors + 7) / 8

/-- Byte `k` of a group, the lowest bits first. -/
def groupByte (group : UInt64) (k : Nat) : UInt8 := (group >>> UInt64.ofNat (8 * k)).toUInt8

/-- The group whose bytes start at `start`; missing bytes are zero. -/
def groupOfBytes (bytes : Bytes) (start : Nat) : UInt64 :=
  (List.range 8).foldr (fun k group => group <<< 8 ||| (bytes[start + k]?.getD 0).toUInt64) 0

/-- The stored form. -/
def toBytes (map : FreeMap) : Bytes :=
  Array.ofFn fun i : Fin map.byteLength =>
    groupByte (map.groups[i.val / 8]?.getD 0) (i.val % 8)

/-- Take over the bits of a stored form, which has to have the right length. -/
def load (bytes : Bytes) : Action FreeMap Unit := fun map =>
  if bytes.size = map.byteLength then
    let groups := map.groups.mapIdx fun g _ => groupOfBytes bytes (8 * g)
    ⟨.ok (), ⟨map.sectors, sealUnused map.sectors groups⟩, []⟩
  else ⟨.error .mapSizeMismatch, map, []⟩

end FreeMap

end InodeStore
