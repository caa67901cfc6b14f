import InodeStore.Device.ImageFile
import InodeStore.Device.RamDisk
import Mathlib.Logic.Function.Basic
import Std.Data.HashMap.Lemmas

/-!
# `Proofs.Device.Lawful` — devices that behave as an array of blocks

`LawfulDevice` says of a device that its sectors are an array: a read of a sector below the sector
count answers with its content and changes none, a write replaces one content, and neither is a fault
or changes the number of sectors. Nothing is said of sectors at or beyond the count.

Both devices are lawful: a RAM disk in every state (`RamDisk`), an image file as long as its complete
sectors are still in it (`ImageFile`).
-/

namespace InodeStore

/-- The content of every sector. Only the sectors a device has are ever looked at. -/
abbrev SectorArray : Type := SectorId → Block

/-- A device that behaves as an array of blocks while it is `Sound`. -/
class LawfulDevice (δ : Type) [BlockDevice δ] where
  /-- The states in which the device can do its work. -/
  Sound : δ → Prop
  /-- The content of a sector. -/
  block : δ → SectorArray
  /-- A read answers with the content of the sector and changes none. -/
  read_eq {d : δ} {s : SectorId} (hd : Sound d) (hs : s.toNat < BlockDevice.sectorCount d) :
    ∃ d', BlockDevice.read s d = (.ok (block d s), d') ∧ Sound d' ∧
      BlockDevice.sectorCount d' = BlockDevice.sectorCount d ∧ block d' = block d
  /-- A write replaces the content of the sector and no other. -/
  write_eq {d : δ} {s : SectorId} (b : Block) (hd : Sound d)
      (hs : s.toNat < BlockDevice.sectorCount d) :
    ∃ d', BlockDevice.write s b d = (.ok (), d') ∧ Sound d' ∧
      BlockDevice.sectorCount d' = BlockDevice.sectorCount d ∧
      block d' = Function.update (block d) s b

/-! ## The devices -/

/-- A RAM disk is an array of blocks in every state. -/
instance : LawfulDevice RamDisk where
  Sound _ := True
  block disk s := disk.sectors[s.toNat]?.getD Block.zero
  read_eq {disk s} _ hs := by
    have hs : s.toNat < disk.sectors.size := hs
    refine ⟨{ disk with reads := disk.reads + 1 }, ?_, trivial, rfl, rfl⟩
    show RamDisk.read s disk = _
    simp only [RamDisk.read, Array.getElem?_eq_getElem hs, Option.getD_some]
  write_eq {disk s} b _ hs := by
    have hs : s.toNat < disk.sectors.size := hs
    refine ⟨{ disk with sectors := disk.sectors.setIfInBounds s.toNat b, writes := disk.writes + 1 },
      ?_, trivial, ?_, ?_⟩
    · show RamDisk.write s b disk = _
      simp only [RamDisk.write, if_pos hs]
    · show (disk.sectors.setIfInBounds s.toNat b).size = disk.sectors.size
      exact Array.size_setIfInBounds
    · funext t
      by_cases h : t = s
      · subst h
        simp [hs]
      · have hne : s.toNat ≠ t.toNat := fun he => h (UInt32.toNat_inj.mp he).symm
        simp [hne, h]

/-- An image file is an array of blocks as long as it has all its sectors. -/
instance : LawfulDevice ImageFile where
  Sound image := sectorSize * image.sectorCount ≤ image.file.length
  block image s := image.file.blockAt s.toNat
  read_eq {image s} hd hs := by
    have hs : s.toNat < image.sectorCount := hs
    have hlen : sectorSize * (s.toNat + 1) ≤ image.file.length :=
      Nat.le_trans (Nat.mul_le_mul_left _ hs) hd
    refine ⟨image, ?_, hd, rfl, rfl⟩
    show ImageFile.read s image = _
    simp only [ImageFile.read, HostFile.read?, if_pos hlen]
  write_eq {image s} b hd hs := by
    refine ⟨{ image with file := image.file.write s.toNat b }, rfl, ?_, rfl, ?_⟩
    · exact Nat.le_trans hd (Nat.le_max_left _ _)
    · funext t
      show (image.file.blocks.insert s.toNat b).getD t.toNat Block.zero = _
      by_cases h : t = s
      · subst h
        simp
      · have hne : s.toNat ≠ t.toNat := fun he => h (UInt32.toNat_inj.mp he).symm
        simp only [Std.HashMap.getD_insert, beq_iff_eq, hne, if_false, Function.update_of_ne h]
        rfl

end InodeStore
