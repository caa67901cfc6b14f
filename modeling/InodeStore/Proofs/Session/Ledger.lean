import InodeStore.Proofs.Inode.Registry
import InodeStore.Proofs.Inode.Room

/-!
# `Proofs.Session.Ledger` — what a caller keeps in mind

A caller who makes operations one after the other can predict the answers from a `Ledger`: the content of
every live file, what is known of the open ones, and the sectors that were reserved and are not in use yet.
`Ledger.Permits` says which operations may be asked for, `Ledger.Expects` what they answer while so many sectors
are free, and `Ledger.after` how the ledger is to be kept. Which sectors a file has, how they hang together and
what is cached do not occur in it.

`Reached` are the stores that a caller can get to from an empty one, with the ledger kept on the way.
-/

namespace InodeStore

/-! ## Operations -/

/-- An operation on a store, as a caller asks for it. -/
inductive Operation where
  | create (length : Nat) (isDir : Bool)
  | createAt (sector : SectorId) (length : Nat) (isDir : Bool)
  | openInode (sector : SectorId)
  | reopen (handle : Handle)
  | close (handle : Handle)
  | drop (handle : Handle)
  | remove (handle : Handle)
  | denyWrite (handle : Handle)
  | allowWrite (handle : Handle)
  | read (handle : Handle) (offset : Nat) (buffer : Bytes)
  | write (handle : Handle) (offset : Nat) (data : Bytes)
  | length (handle : Handle)
  | isDir (handle : Handle)
  | sectorOfByte (handle : Handle) (offset : Nat)
  | ownedSectors (handle : Handle)
  | openCount (handle : Handle)
  | isRemoved (handle : Handle)
  | openInodes
  | flush
  | reset

namespace Operation

/-- What an operation answers with, if it is not refused. -/
abbrev Answer : Operation → Type
  | create _ _ | sectorOfByte _ _ => SectorId
  | openInode _ | reopen _ => Handle
  | read _ _ _ => Nat × Bytes
  | write _ _ _ | length _ | openCount _ | openInodes => Nat
  | isDir _ | isRemoved _ => Bool
  | ownedSectors _ => List SectorId
  | createAt _ _ _ | close _ | drop _ | remove _ | denyWrite _ | allowWrite _ | flush | reset => Unit

variable {δ : Type} {n : Nat} [BlockDevice δ]

/-- An action of the registry, which refuses nothing. -/
def onRegistry {α : Type} (action : Action Registry α) : Action (Store δ n) (Except Error α) :=
  Store.onRegistry (Except.ok <$> action)

/-- Bytes read into a buffer: how many there were, and the buffer with them at its front. -/
def readInto (handle : Handle) (offset : Nat) (buffer : Bytes) : Routine (Nat × Bytes) := do
  let bytes ← Inode.read handle offset buffer.size
  return (bytes.size, Inode.overlay buffer bytes)

/-- Carry out an operation. -/
def run : (o : Operation) → Action (Store δ n) (Except Error o.Answer)
  | create size directory => Store.run (Inode.create size directory)
  | createAt sector size directory => Store.run (Inode.createAt sector size directory)
  | openInode sector => onRegistry (Registry.openInode sector)
  | reopen handle => onRegistry (Registry.reopen handle)
  | close handle => Store.run (Inode.close handle)
  | drop handle => onRegistry (Registry.drop handle)
  | remove handle => onRegistry (Registry.remove handle)
  | denyWrite handle => onRegistry (Registry.denyWrite handle)
  | allowWrite handle => onRegistry (Registry.allowWrite handle)
  | read handle offset buffer => Store.run (readInto handle offset buffer)
  | write handle offset data => Store.run (Inode.write handle offset data)
  | length handle => Store.run (Inode.length handle)
  | isDir handle => Store.run (Inode.isDir handle)
  | sectorOfByte handle offset => Store.run (Inode.sectorOfByte handle offset)
  | ownedSectors handle => Store.run (Inode.ownedSectors handle.sector)
  | openCount handle => onRegistry (Action.get fun registry => registry.openCount handle)
  | isRemoved handle => onRegistry (Action.get fun registry => registry.isRemoved handle)
  | openInodes => onRegistry (Action.get Registry.size)
  | flush => Store.run Routine.flushCache
  | reset => Store.run Routine.resetCache

end Operation

/-! ## Ledgers -/

/-- The content of a file. -/
structure File where
  isDir : Bool
  bytes : Bytes

namespace File

/-- A file of zeros. -/
def zeros (isDir : Bool) (length : Nat) : File := ⟨isDir, Array.replicate length 0⟩

/-- What a read into a buffer answers: the bytes from the offset on that the buffer has room for and the
    file has, in front of what was in the rest of the buffer. -/
def readInto (f : File) (offset : Nat) (buffer : Bytes) : Nat × Bytes :=
  let count := min buffer.size (f.bytes.size - offset)
  (count, f.bytes.extract offset (offset + count) ++ buffer.extract count buffer.size)

/-- The file after a write: with zeros after its last byte, if it is too short for the new bytes, and
    these in place of its own. -/
def written (f : File) (offset : Nat) (data : Bytes) : File :=
  ⟨f.isDir, Inode.patched (Inode.padded f.bytes (max f.bytes.size (offset + data.size))) offset data⟩

end File

/-- What a caller keeps in mind about a store. -/
structure Ledger where
  /-- The live files by the sector of their descriptor. -/
  file? : SectorId → Option File
  /-- What is known of an inode while it is open. -/
  open? : SectorId → Option OpenInode
  /-- Sectors that the caller has reserved and on which no file was made. -/
  spare : SectorId → Bool

namespace Ledger

/-- The file of a handle. -/
def file (ledger : Ledger) (handle : Handle) : File := (ledger.file? handle.sector).getD ⟨false, #[]⟩

/-- What is known of a handle's inode. -/
def entry (ledger : Ledger) (handle : Handle) : OpenInode := (ledger.open? handle.sector).getD .fresh

/-- A handle on an inode that is open. -/
def HasOpen (ledger : Ledger) (handle : Handle) : Prop := (ledger.open? handle.sector).isSome = true

instance (ledger : Ledger) (handle : Handle) : Decidable (ledger.HasOpen handle) :=
  inferInstanceAs (Decidable (_ = true))

/-- What a caller may ask for. -/
def Permits (ledger : Ledger) : Operation → Prop
  | .create _ _ | .openInodes | .flush | .reset => True
  | .createAt sector _ _ => ledger.spare sector = true
  | .openInode sector => (ledger.file? sector).isSome = true
  | .denyWrite handle =>
    ledger.HasOpen handle ∧ (ledger.entry handle).denyCount < (ledger.entry handle).openCount
  | .allowWrite handle => ledger.HasOpen handle ∧ 0 < (ledger.entry handle).denyCount
  | .reopen handle | .close handle | .drop handle | .remove handle | .read handle _ _
  | .write handle _ _ | .length handle | .isDir handle | .sectorOfByte handle _ | .ownedSectors handle
  | .openCount handle | .isRemoved handle => ledger.HasOpen handle

instance (ledger : Ledger) : (o : Operation) → Decidable (ledger.Permits o)
  | .create _ _ | .openInodes | .flush | .reset => inferInstanceAs (Decidable True)
  | .createAt sector _ _ => inferInstanceAs (Decidable (ledger.spare sector = true))
  | .openInode sector => inferInstanceAs (Decidable ((ledger.file? sector).isSome = true))
  | .denyWrite _ | .allowWrite _ => inferInstanceAs (Decidable (_ ∧ _))
  | .reopen handle | .close handle | .drop handle | .remove handle | .read handle _ _
  | .write handle _ _ | .length handle | .isDir handle | .sectorOfByte handle _ | .ownedSectors handle
  | .openCount handle | .isRemoved handle => inferInstanceAs (Decidable (ledger.HasOpen handle))

/-- A write that is not carried out: one that is denied, or has no bytes. -/
def Skips (ledger : Ledger) (handle : Handle) (data : Bytes) : Prop :=
  0 < (ledger.entry handle).denyCount ∨ data.size = 0

instance (ledger : Ledger) (handle : Handle) (data : Bytes) : Decidable (ledger.Skips handle data) :=
  inferInstanceAs (Decidable (_ ∨ _))

/-- What a write answers while so many sectors are free. -/
def ExpectsWrite (ledger : Ledger) (free : Nat) (handle : Handle) (offset : Nat) (data : Bytes)
    (answer : Except Error Nat) : Prop :=
  if ledger.Skips handle data then answer = .ok 0
  else
    Decides (offset + data.size ≤ maxFileSize ∧ ((ledger.file handle).bytes.size < offset + data.size →
        totalBlocks (offset + data.size) - totalBlocks (ledger.file handle).bytes.size ≤ free))
      (maxFileSize < offset + data.size) answer ∧
    match answer with
    | .ok count => count = data.size
    | .error _ => (ledger.file handle).bytes.size < offset + data.size

/-- What an operation answers while so many sectors are free. -/
def Expects (ledger : Ledger) (free : Nat) : (o : Operation) → Except Error o.Answer → Prop
  | .create length _, answer =>
    Decides (length ≤ maxFileSize ∧ totalBlocks length + 1 ≤ free) (maxFileSize < length ∧ 1 ≤ free) answer ∧
      ∀ sector, answer = .ok sector → ledger.file? sector = none ∧ ledger.spare sector = false
  | .createAt _ length _, answer =>
    Decides (length ≤ maxFileSize ∧ totalBlocks length ≤ free) (maxFileSize < length) answer
  | .openInode sector, answer => answer = .ok ⟨sector⟩
  | .reopen handle, answer => answer = .ok handle
  | .read handle offset buffer, answer => answer = .ok ((ledger.file handle).readInto offset buffer)
  | .write handle offset data, answer => ledger.ExpectsWrite free handle offset data answer
  | .length handle, answer => answer = .ok (ledger.file handle).bytes.size
  | .isDir handle, answer => answer = .ok (ledger.file handle).isDir
  | .sectorOfByte handle offset, answer =>
    if offset < (ledger.file handle).bytes.size then ∃ sector, answer = .ok sector
    else answer = .error .outOfRange
  | .ownedSectors _, answer => ∃ sectors, answer = .ok sectors
  | .openCount handle, answer => answer = .ok (ledger.entry handle).openCount
  | .isRemoved handle, answer => answer = .ok (ledger.entry handle).removed
  | .openInodes, answer => answer = .ok (Set.ncard {sector | (ledger.open? sector).isSome = true})
  | .close _, answer | .drop _, answer | .remove _, answer | .denyWrite _, answer
  | .allowWrite _, answer | .flush, answer | .reset, answer => answer = .ok ()

/-- The ledger with a file in place of the one that may be at a sector. -/
def withFile (ledger : Ledger) (sector : SectorId) (f : File) : Ledger :=
  { ledger with file? := Function.update ledger.file? sector (some f) }

/-- The ledger with a change to what is known of an inode. -/
def change (ledger : Ledger) (handle : Handle) (f : OpenInode → OpenInode) : Ledger :=
  { ledger with open? := Function.update ledger.open? handle.sector (some (f (ledger.entry handle))) }

/-- The ledger after the end of a handle. The last one of a removed file takes the file away. -/
def close (ledger : Ledger) (handle : Handle) : Ledger :=
  if 1 < (ledger.entry handle).openCount then
    ledger.change handle fun inode => { inode with openCount := inode.openCount - 1 }
  else
    { ledger with
      open? := Function.update ledger.open? handle.sector none
      file? :=
        if (ledger.entry handle).removed then Function.update ledger.file? handle.sector none
        else ledger.file? }

/-- The ledger after a write that answered so. -/
def write (ledger : Ledger) (handle : Handle) (offset : Nat) (data : Bytes) : Except Error Nat → Ledger
  | .ok _ =>
    if ledger.Skips handle data then ledger
    else ledger.withFile handle.sector ((ledger.file handle).written offset data)
  | .error _ => ledger

/-- The ledger after an operation that answered so. -/
def after (ledger : Ledger) : (o : Operation) → Except Error o.Answer → Ledger
  | .create length isDir, .ok sector => ledger.withFile sector (.zeros isDir length)
  | .createAt sector length isDir, .ok () =>
    { ledger.withFile sector (.zeros isDir length) with
      spare := Function.update ledger.spare sector false }
  | .openInode sector, _ =>
    ledger.change ⟨sector⟩ fun inode => { inode with openCount := inode.openCount + 1 }
  | .reopen handle, _ =>
    ledger.change handle fun inode => { inode with openCount := inode.openCount + 1 }
  | .close handle, _ => ledger.close handle
  | .remove handle, _ => ledger.change handle fun inode => { inode with removed := true }
  | .denyWrite handle, _ =>
    ledger.change handle fun inode => { inode with denyCount := inode.denyCount + 1 }
  | .allowWrite handle, _ =>
    ledger.change handle fun inode => { inode with denyCount := inode.denyCount - 1 }
  | .write handle offset data, answer => ledger.write handle offset data answer
  | _, _ => ledger

/-- The ledger of a store without files, where sectors may be reserved. -/
def start (map : FreeMap) : Ledger where
  file? _ := none
  open? _ := none
  spare sector := decide (sector.toNat < map.sectors) && map.taken sector.toNat

/-- The ledger after one more sector was reserved. -/
def reserve (ledger : Ledger) (sector : SectorId) : Ledger :=
  { ledger with spare := Function.update ledger.spare sector true }

end Ledger

/-! ## Sessions -/

section Session

variable {δ : Type} {n : Nat} [BlockDevice δ] [LawfulDevice δ]

/-- The stores that a caller can get to, with the ledger at that point: from any device with a cache of
    at least one frame and a free map that is not larger than the device, by operations that may be asked
    for, and by reserving sectors. -/
inductive Reached : Store δ n → Ledger → Prop where
  | start {device : δ} {map : FreeMap} (hdevice : LawfulDevice.Sound device) (hframes : 0 < n)
      (hmap : map.Lawful) (hfits : map.sectors ≤ BlockDevice.sectorCount device) :
      Reached ⟨Cache.blank n device, map, .empty⟩ (.start map)
  | reserve {store store' : Store δ n} {ledger : Ledger} {sector : SectorId} {log : List Event}
      (h : Reached store ledger)
      (hmark : Store.onMap (FreeMap.mark sector) store = ⟨.ok (), store', log⟩) :
      Reached store' (ledger.reserve sector)
  | step {store store' : Store δ n} {ledger : Ledger} {o : Operation} {answer : Except Error o.Answer}
      {log : List Event} (h : Reached store ledger) (hpermits : ledger.Permits o)
      (hrun : o.run store = ⟨.ok answer, store', log⟩) : Reached store' (ledger.after o answer)

end Session

end InodeStore
