import InodeStore.Proofs.Inode.Entries
import InodeStore.Proofs.Volume.Placement

/-!
# `Proofs.Volume.Addresses` — two ways to the blocks of a file

`sectorOfByte` goes from the descriptor to the block of one byte and looks at the slots on the way;
`ownedSectors` goes through all blocks once and carries the index blocks along. They agree: without the
descriptor and the index blocks, the list has the sector of the bytes of block `k` at place `k` (`Locates`).

For this nothing is asked of what the index blocks hold but that the device has those that they lead to. A sector
may occur twice or be the descriptor's own, and nobody needs to have got to the store (`Stands.locates`). In a
file of a store or a volume that somebody got to, no sector occurs twice (`addresses_agree`).
-/

namespace InodeStore

open Inode

variable {δ : Type} {n : Nat} [BlockDevice δ] [LawfulDevice δ] {store : Store δ n} {p : Plain} {a : Archive}
  {x : SectorId} {d : Descriptor} {guarded : Bool}

/-- A list of the sectors of the file of `length` bytes at `x` that goes with the sectors of its bytes. -/
structure Locates (store : Store δ n) (x : SectorId) (length : Nat) (owned : List SectorId) : Prop where
  listed : (store.run (ownedSectors x)).result = .ok (.ok owned)
  count : owned.length = totalBlocks length + 1
  last : owned.getLast? = some x
  /-- Without the descriptor and the index blocks there is one entry for each data block. -/
  blocks : (dataEntries owned.dropLast).length = dataBlocks length
  /-- It is the sector of every byte of the block. -/
  inside : ∀ offset < length, ∃ s, (dataEntries owned.dropLast)[offset / sectorSize]? = some s ∧
    (store.run (sectorOfByte ⟨x⟩ offset)).result = .ok (.ok s)
  outside : ∀ offset, length ≤ offset →
    (store.run (sectorOfByte ⟨x⟩ offset)).result = .ok (.error .outOfRange)

/-- The entries of a list that are left out are those of the index blocks that a descriptor leads to. -/
structure Indexes (b : SectorArray) (d : Descriptor) (owned : List SectorId) : Prop where
  indirect : 12 < dataBlocks d.size → owned[12]? = some d.indirect
  doublyIndirect : 140 < dataBlocks d.size → owned[141]? = some d.doublyIndirect
  inner : ∀ outer : Fin 128, 140 + 128 * outer.val < dataBlocks d.size →
    owned[142 + 129 * outer.val]? = some ((b d.doublyIndirect).pointer outer)

/-- The index blocks that a descriptor leads to are among the first `count` sectors. -/
structure IndexInside (b : SectorArray) (d : Descriptor) (count : Nat) : Prop where
  indirect : 12 < dataBlocks d.size → d.indirect.toNat < count
  doublyIndirect : 140 < dataBlocks d.size → d.doublyIndirect.toNat < count
  inner : ∀ outer : Fin 128, 140 + 128 * outer.val < dataBlocks d.size →
    ((b d.doublyIndirect).pointer outer).toNat < count

/-- So one can find one's way. -/
theorem IndexInside.navigable (h : IndexInside p.block d p.count) (hsize : d.size ≤ maxFileSize) :
    Navigable false p d (dataBlocks d.size) := by
  intro t ht hindex
  have hdue := (mem_spots (dataBlocks_le hsize)).mp ht
  refine ⟨?_, nofun⟩
  cases t with
  | index => exact h.indirect hdue
  | outerIndex => exact h.doublyIndirect hdue
  | innerIndex outer => exact h.inner outer hdue
  | data place => cases hindex

/-- **The two ways agree**, whatever the blocks hold that they lead to. -/
theorem Stands.locates (hs : Stands store p) (hn : 0 < n) (h : Stored p.block x d) (hx : p.Permits guarded x)
    (hway : Navigable guarded p d (dataBlocks d.size)) :
    Locates store x d.size (tree p.block d (dataBlocks d.size) ++ [x]) := by
  have hblocks := dataBlocks_le h.size
  constructor
  case listed => exact (ownedSectors_lists h hx hway).result_eq hn hs
  case count => rw [List.length_append, tree, List.length_map, length_spots h.size, List.length_singleton]
  case last => exact List.getLast?_concat
  case blocks => rw [List.dropLast_concat, length_dataEntries hblocks]
  case inside =>
    intro offset hoffset
    obtain ⟨place, -, hplace⟩ := locate?_eq h.size hoffset
    have hlt : place.number < dataBlocks d.size := hplace ▸ div_lt_dataBlocks hoffset
    rw [List.dropLast_concat, ← hplace]
    exact ⟨_, getElem?_dataEntries hblocks hlt p.block d,
      (sectorOfByte_finds h hx hway hoffset hplace).result_eq hn hs⟩
  case outside =>
    intro offset hoffset
    obtain ⟨store', log, hrun, -⟩ := (sectorOfByte_refused h hx hoffset).run_eq hn hs
    exact congrArg Reply.result hrun

theorem indexes_tree (b : SectorArray) (hsize : d.size ≤ maxFileSize) (x : SectorId) :
    Indexes b d (tree b d (dataBlocks d.size) ++ [x]) := by
  have hentry : ∀ t : Spot, t.due < dataBlocks d.size →
      (tree b d (dataBlocks d.size) ++ [x])[t.entry]? = some (sectorOf b d t) := by
    intro t ht
    have hlisted := getElem?_tree (dataBlocks_le hsize) ht b d
    rw [List.getElem?_append_left (List.getElem?_eq_some_iff.mp hlisted).1, hlisted]
  exact ⟨hentry .index, hentry .outerIndex, fun outer => hentry (.innerIndex outer)⟩

/-- In a file that is live no sector occurs twice either. -/
theorem Represents.locates (h : Represents p a) (hn : 0 < n) (hs : Stands store p) (hlive : a.ledger.Live x) :
    ∃ owned, Locates store x (a.ledger.file ⟨x⟩).bytes.size owned ∧ owned.Nodup := by
  obtain ⟨f, hf, hsectors⟩ := Archive.live_record hlive
  obtain ⟨d, hfile⟩ := h.fileAt hf
  have hrecord : a.record ⟨x⟩ = f := congrArg (Option.getD · _) hf
  have hsize : (a.ledger.file ⟨x⟩).bytes.size = d.size := by
    rw [a.ledger_file, hrecord]
    exact hfile.record.holds.size.symm
  have hlocates := hs.locates hn hfile.record.stored hfile.permits hfile.hung.open.navigable
  rw [hfile.record.owned] at hlocates
  exact ⟨f.sectors x, hsize ▸ hlocates, hfile.nodup⟩

/-- **Both ways to the blocks of a file agree.** On a device with any content, reached or not, a descriptor that
    is valid and not too long, and whose index blocks are on the device, has a list of sectors that goes with the
    sectors of its bytes; and so has every live file, wherever a caller has got to with a store or a volume, with
    no sector twice in the list. -/
theorem addresses_agree (store : Store δ n) :
    (∀ (b : SectorArray) x d, 0 < n → store.cache.Coherent b → store.cache.Unpinned → Stored b x d →
      x.toNat < BlockDevice.sectorCount store.cache.device →
      IndexInside b d (BlockDevice.sectorCount store.cache.device) →
      ∃ owned, Locates store x d.size owned ∧ Indexes b d owned) ∧
    ∀ ledger, Reached store ledger ∨ InUse store ledger → ∀ x, ledger.Live x →
      ∃ owned, Locates store x (ledger.file ⟨x⟩).bytes.size owned ∧ owned.Nodup := by
  constructor
  · intro b x d hn hcoherent hunpinned hstored hx hinside
    have hs : Stands store ⟨b, BlockDevice.sectorCount store.cache.device, store.freeMap, store.registry, [], []⟩ :=
      ⟨hcoherent, hunpinned, rfl, rfl, rfl⟩
    have hpermits : Plain.Permits false ⟨b, BlockDevice.sectorCount store.cache.device, store.freeMap,
        store.registry, [], []⟩ x := ⟨hx, nofun⟩
    exact ⟨_, hs.locates hn hstored hpermits (IndexInside.navigable hinside hstored.size),
      indexes_tree b hstored.size x⟩
  · intro ledger h x hlive
    obtain ⟨hn, p, a, hs, hrepresents, rfl⟩ := represented h
    exact hrepresents.locates hn hs hlive

/-- A descriptor of thirteen blocks that has its own sector, 2, for an index block. -/
def circular : Descriptor := { Descriptor.empty false with indirect := 2, length := 6145 }

/-- A disk with it, under a cache of one frame. -/
def circularStore : Store RamDisk 1 :=
  ⟨Cache.blank 1 ⟨#[Block.zero, Block.zero, circular.encode], 0, 0⟩, FreeMap.blank 3, .empty⟩

/-- The descriptor's sector is listed twice, and nobody gets to such a disk. In a volume that somebody got to the
    file that is being removed has all its sectors still. -/
theorem addresses_agree_circular :
    (∃ owned, Locates circularStore 2 6145 owned ∧ owned[12]? = some 2 ∧ owned.getLast? = some 2) ∧
    InUse leavingVolume leavingLedger ∧ leavingLedger.Live 3 ∧
      ∃ owned, Locates leavingVolume 3 1 owned ∧ owned.Nodup := by
  have hcoherent : circularStore.cache.Coherent (LawfulDevice.block circularStore.cache.device) :=
    Cache.blank_coherent trivial
  have hstored : Stored (LawfulDevice.block circularStore.cache.device) 2 circular :=
    ⟨Descriptor.decode_encode circular, by decide, by decide⟩
  have hblocks : dataBlocks circular.size = 13 := by decide
  have hinside : IndexInside (LawfulDevice.block circularStore.cache.device) circular 3 :=
    ⟨fun _ => by decide, fun hlong => by omega, fun outer hlong => by omega⟩
  obtain ⟨owned, hlocates, hindexes⟩ := (addresses_agree circularStore).1 _ 2 circular (by decide) hcoherent
    (Cache.blank_unpinned _) hstored (by decide) hinside
  have hlive : (leavingLedger.file? 3).isSome = true := by decide +kernel
  have hsize : (leavingLedger.file ⟨3⟩).bytes.size = 1 := by decide +kernel
  have hvolume := (addresses_agree leavingVolume).2 leavingLedger (.inr leavingVolume_inUse) 3 hlive
  rw [hsize] at hvolume
  exact ⟨⟨owned, hlocates, hindexes.indirect (by omega), hlocates.last⟩, leavingVolume_inUse, hlive, hvolume⟩

end InodeStore
