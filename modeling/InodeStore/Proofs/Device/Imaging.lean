import InodeStore.Proofs.Cache.Journal
import InodeStore.Proofs.Store.Watching

/-!
# `Proofs.Device.Imaging` — an image file that has what a RAM disk has

The two devices differ beyond their last sector: the RAM disk faults there, and the file gets longer. Before that
they do the same. So an image of a disk (`Images`) stays one, and the file keeps its length and what is after its
sectors, as long as nothing is asked for that the disk does not have (`Watched.shadows_image`).
-/

namespace InodeStore

/-! ## Files and disks -/

/-- An image file has what a RAM disk has, and after that what a file has. It is as long as that. -/
structure Images (file : HostFile) (disk : RamDisk) (image : ImageFile) : Prop where
  count : image.sectorCount = disk.sectors.size
  complete : sectorSize * disk.sectors.size ≤ file.length
  length : image.file.length = file.length
  sector : ∀ {k} (hk : k < disk.sectors.size), image.file.blockAt k = disk.sectors[k]
  rest : ∀ {k}, disk.sectors.size ≤ k → image.file.blockAt k = file.blockAt k

theorem HostFile.blockAt_write (file : HostFile) (j k : Nat) (b : Block) :
    (file.write j b).blockAt k = if j = k then b else file.blockAt k := by
  show (file.blocks.insert j b).getD k Block.zero = _
  rw [Std.HashMap.getD_insert]
  by_cases h : j = k
  · simp [h]
  · simp [h, HostFile.blockAt]

namespace Images

variable {file : HostFile} {disk : RamDisk} {image : ImageFile}

/-- A file that is opened images a disk with the same sectors. -/
theorem of_open (hopen : ImageFile.open? file = some image) (hsize : disk.sectors.size = image.sectorCount)
    (hsector : ∀ {k} (hk : k < disk.sectors.size), disk.sectors[k] = file.blockAt k) : Images file disk image := by
  unfold ImageFile.open? at hopen
  split at hopen
  · cases hopen
    refine ⟨hsize.symm, ?_, rfl, fun hk => (hsector hk).symm, fun _ => rfl⟩
    rw [hsize]
    exact Nat.mul_div_le file.length sectorSize
  · cases hopen

theorem fits (h : Images file disk image) {s : SectorId} (hs : s.toNat < disk.sectors.size) :
    sectorSize * (s.toNat + 1) ≤ image.file.length := by
  rw [h.length]
  exact Nat.le_trans (Nat.mul_le_mul_left sectorSize hs) h.complete

theorem read (h : Images file disk image) {s : SectorId} (hs : s.toNat < disk.sectors.size) :
    ImageFile.read s image = ((RamDisk.read s disk).1, image) ∧ Images file (RamDisk.read s disk).2 image := by
  have hread : RamDisk.read s disk = (.ok disk.sectors[s.toNat], { disk with reads := disk.reads + 1 }) := by
    simp only [RamDisk.read, Array.getElem?_eq_getElem hs]
  rw [hread]
  refine ⟨?_, h.count, h.complete, h.length, h.sector, h.rest⟩
  simp only [ImageFile.read, HostFile.read?, if_pos (h.fits hs), h.sector hs]

theorem write (h : Images file disk image) {s : SectorId} (hs : s.toNat < disk.sectors.size) (b : Block) :
    ∃ image', ImageFile.write s b image = ((RamDisk.write s b disk).1, image') ∧
      Images file (RamDisk.write s b disk).2 image' := by
  have hwrite : RamDisk.write s b disk = (.ok (), { disk with
      sectors := disk.sectors.setIfInBounds s.toNat b, writes := disk.writes + 1 }) := by
    simp only [RamDisk.write, if_pos hs]
  rw [hwrite]
  refine ⟨_, rfl, ?_⟩
  have hsize : (disk.sectors.setIfInBounds s.toNat b).size = disk.sectors.size := Array.size_setIfInBounds
  constructor
  case count => exact h.count.trans hsize.symm
  case complete => exact hsize.symm ▸ h.complete
  case length => exact (Nat.max_eq_left (h.fits hs)).trans h.length
  case sector =>
    intro k hk
    have hk' : k < disk.sectors.size := hsize ▸ hk
    rw [HostFile.blockAt_write, h.sector hk']
    exact (Array.getElem_setIfInBounds hk').symm
  case rest =>
    intro k hk
    have hk' : disk.sectors.size ≤ k := hsize ▸ hk
    rw [HostFile.blockAt_write, if_neg (by omega), h.rest hk']

end Images

theorem RamDisk.size_read (s : SectorId) (disk : RamDisk) : (RamDisk.read s disk).2.sectors.size = disk.sectors.size := by
  unfold RamDisk.read
  split <;> rfl

theorem RamDisk.size_write (s : SectorId) (b : Block) (disk : RamDisk) :
    (RamDisk.write s b disk).2.sectors.size = disk.sectors.size := by
  unfold RamDisk.write
  split
  · exact Array.size_setIfInBounds
  · rfl

namespace Watched

variable {δ : Type} [BlockDevice δ]

instance (watched : Watched δ) : Decidable watched.Inside :=
  List.decidableBAll (fun s : SectorId => s.toNat < BlockDevice.sectorCount watched.device) watched.asked

/-- One sector less was asked for. -/
theorem Inside.of_cons {watched : Watched δ} {s : SectorId} {d : δ} (h : Inside ⟨d, s :: watched.asked⟩)
    (hd : BlockDevice.sectorCount d = BlockDevice.sectorCount watched.device) :
    s.toNat < BlockDevice.sectorCount watched.device ∧ watched.Inside := by
  have hall : ∀ t ∈ s :: watched.asked, t.toNat < BlockDevice.sectorCount watched.device := hd ▸ h
  exact ⟨hall s List.mem_cons_self, fun t ht => hall t (List.mem_cons_of_mem s ht)⟩

/-- The list is of no use to the device. -/
theorem mirrors : Mirrors (device (δ := δ)) := ⟨fun _ _ => rfl, fun _ _ _ => rfl⟩

/-- **An image file follows a RAM disk** that is only asked for sectors it has. -/
theorem shadows_image (file : HostFile) :
    Shadows Inside fun (watched : Watched RamDisk) image => Images file watched.device image where
  read_before {s watched} hin := (hin.of_cons (RamDisk.size_read s watched.device)).2
  write_before {s b watched} hin := (hin.of_cons (RamDisk.size_write s b watched.device)).2
  read {s watched image} h hin := by
    obtain ⟨hread, h'⟩ := h.read (hin.of_cons (RamDisk.size_read s watched.device)).1
    exact ⟨image, hread, h'⟩
  write {s b watched image} h hin := h.write (hin.of_cons (RamDisk.size_write s b watched.device)).1 b

end Watched

/-! ## A file with the sectors of a disk -/

/-- Blocks by their numbers, from `k` on. -/
def HostFile.numbered : Nat → List Block → Std.HashMap Nat Block
  | _, [] => ∅
  | k, b :: rest => (numbered (k + 1) rest).insert k b

theorem HostFile.getD_numbered (blocks : List Block) (k i : Nat) :
    (numbered k blocks).getD (k + i) Block.zero = blocks.getD i Block.zero := by
  induction blocks generalizing k i with
  | nil => exact Std.HashMap.getD_empty
  | cons b rest ih =>
    unfold numbered
    rw [Std.HashMap.getD_insert]
    cases i with
    | zero => simp
    | succ i =>
      rw [if_neg (by simp), show k + (i + 1) = k + 1 + i by omega, ih]
      rfl

/-- A file with the sectors of a disk and some bytes of another block. -/
def HostFile.ofDisk (disk : RamDisk) (tail : Block) (trailing : Nat) : HostFile :=
  ⟨numbered 0 (disk.sectors.toList ++ [tail]), sectorSize * disk.sectors.size + trailing⟩

section OfDisk

variable {disk : RamDisk} {tail : Block} {trailing k : Nat}

theorem HostFile.blockAt_ofDisk (hk : k < disk.sectors.size) : (ofDisk disk tail trailing).blockAt k = disk.sectors[k] := by
  have hnumbered := getD_numbered (disk.sectors.toList ++ [tail]) 0 k
  rw [Nat.zero_add] at hnumbered
  refine hnumbered.trans ?_
  rw [List.getD_eq_getElem?_getD, List.getElem?_append_left hk, List.getElem?_eq_getElem hk]
  rfl

theorem ImageFile.open?_ofDisk (hsize : disk.sectors.size < UInt32.size) (htrailing : trailing < sectorSize) :
    ImageFile.open? (.ofDisk disk tail trailing) = some ⟨.ofDisk disk tail trailing, disk.sectors.size⟩ := by
  have hcount : (HostFile.ofDisk disk tail trailing).length / sectorSize = disk.sectors.size := by
    show (sectorSize * disk.sectors.size + trailing) / sectorSize = _
    rw [Nat.mul_add_div (by decide), Nat.div_eq_of_lt htrailing, Nat.add_zero]
  unfold ImageFile.open?
  rw [hcount, if_pos hsize]

end OfDisk

end InodeStore
