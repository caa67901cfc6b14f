import InodeStore.Proofs.Device.Imaging
import InodeStore.Proofs.Volume.Denial
import InodeStore.Proofs.Volume.Disclosure
import InodeStore.Proofs.Volume.Following

/-!
# `Proofs.Volume.Interchange` — an image file in place of a RAM disk

A volume on a RAM disk and one on an image of it are one store in front of two devices, as long as the disk is only
asked for sectors that it has. That it is not asked for others is known of every lawful device, so also of the disk
while it is watched: a store on the watched disk goes along with both (`Oversees`), and whatever clients ask for
leads to such a store again (`Oversees.interchanged`). So the devices are interchangeable, from a format of both or
from a mount of both where the free map is on them (`image_interchangeable`).

Where it is not, since clients have kept a volume from writing it, new files may be made over others and the
devices be asked for any sector. Then the file grows where the disk faults (`image_strays`).
-/

namespace InodeStore

open Inode Volume

/-! ## What is opened is sound -/

section Sound

variable {δ : Type} {n limit : Nat} [BlockDevice δ] [LawfulDevice δ] {device : δ} {a : Archive}

/-- A format leaves a device sound, whatever comes of it. -/
theorem format_sound (hdevice : LawfulDevice.Sound device) :
    LawfulDevice.Sound (format n device limit).1.device := by
  rcases Nat.lt_or_ge (BlockDevice.sectorCount device) 2 with hfew | hsectors
  · obtain ⟨e, hdown⟩ := format_few (n := n) hfew
    rw [hdown]
    exact hdevice
  rcases create_alike n limit device device with ⟨e, hcreate, -⟩ | ⟨hn, hcreate, -⟩
  · unfold Volume.format
    dsimp only
    rw [reserved_eq hsectors, hcreate]
    exact hdevice
  obtain ⟨-, hroom, -⟩ := create_ok hcreate
  cases hclaim : claim (formatMap (BlockDevice.sectorCount device)) 0
      (formatMap (BlockDevice.sectorCount device)).byteLength with
  | error e =>
    obtain ⟨p, hrefused⟩ := makeFiles_refused rfl hsectors hclaim
    obtain ⟨made, log, hrun, hs, -⟩ := hrefused.runs.run_eq hn (unmounted_stands hdevice _)
    obtain ⟨left, log', hdiscard, hwritten⟩ := hs.discard
    rw [format_eq hsectors hn hroom, bringUp_refused _ hrun, hdiscard]
    exact hwritten.sound
  | ok new =>
    obtain ⟨store, p₁, p₂, hup, -, hserves, -⟩ := format_persists hdevice rfl hsectors hn hroom hclaim
    rw [hup]
    exact hserves.stands.coherent.device

/-- So does a mount. -/
theorem OnDevice.mount_sound (h : OnDevice device a) : LawfulDevice.Sound (mount n device limit).1.device := by
  rcases create_alike n limit device device with ⟨e, hcreate, -⟩ | ⟨hn, hcreate, -⟩
  · unfold Volume.mount
    rw [hcreate]
    exact h.working
  · obtain ⟨-, hroom, -⟩ := create_ok hcreate
    obtain ⟨store, p, hup, hserves⟩ := h.mounts hn hroom
    rw [hup]
    exact hserves.stands.coherent.device

/-- A volume is on every device that has the same in its sectors. -/
theorem OnDevice.copied {ε : Type} [BlockDevice ε] [LawfulDevice ε] {copy : ε} (h : OnDevice device a)
    (hcopy : LawfulDevice.Sound copy) (hcount : BlockDevice.sectorCount copy = BlockDevice.sectorCount device)
    (hblock : ∀ s : SectorId, s.toNat < BlockDevice.sectorCount device →
      LawfulDevice.block copy s = LawfulDevice.block device s) : OnDevice copy a := by
  refine ⟨hcopy, hcount.trans h.count, h.sound, h.kept, fun {s f} hf => ?_, h.mapFile⟩
  obtain ⟨d, hrecord⟩ := h.record hf
  have hsame : ∀ y ∈ f.sectors s, LawfulDevice.block copy y = LawfulDevice.block device y := fun y hy =>
    hblock y (h.count ▸ (h.sound.owned hf hy).1)
  exact ⟨d, hrecord.frame (hsame s (Archive.self_mem_sectors f s))
    fun y hy => hsame y (List.mem_append_left _ hy)⟩

end Sound

/-! ## Volumes on both -/

/-- What a volume on an image file and one on a RAM disk do is the same, as long as clients may ask for it: they
    answer and report the same and stay one store in front of two devices, of which the file keeps its length and
    what is after the sectors. Both can be mounted again, if the free map is on the disk. The ledger is what a
    caller keeps in mind about both. -/
def Interchanged (file : HostFile) : List Act → {n : Nat} → Store RamDisk n → Store ImageFile n → Ledger → Prop
  | [], _, _, _, _ => True
  | .ask o :: rest, _, store, twin, ledger =>
    ledger.Concedes o → ∃ answer store' twin' log,
      o.run store = ⟨.ok answer, store', log⟩ ∧ o.run twin = ⟨.ok answer, twin', log⟩ ∧
        store'.Beside (Images file) twin' ∧ Interchanged file rest store' twin' (ledger.after o answer)
  | .persist :: rest, _, store, twin, ledger =>
    ∃ store' twin' log, store.run persist = ⟨.ok (.ok ()), store', log⟩ ∧
      twin.run persist = ⟨.ok (.ok ()), twin', log⟩ ∧
        store'.Beside (Images file) twin' ∧ Interchanged file rest store' twin' (ledger.persisted store.freeMap)
  | .remount m limit :: rest, _, store, twin, ledger =>
    ∃ disk image log, shutdown store = ⟨.ok (.ok ()), disk, log⟩ ∧ shutdown twin = ⟨.ok (.ok ()), image, log⟩ ∧
      Images file disk image ∧ (readMap (untouched disk) = .ok (.ok store.freeMap.toBytes) →
        (OpenedAlike (mount m disk limit) (mount m image limit) fun store' twin' =>
          store'.Beside (Images file) twin' ∧
            Interchanged file rest store' twin' (ledger.persisted store.freeMap).mounted) ∧
        Images file (mount m disk limit).1.device (mount m image limit).1.device)

section Oversees

variable {n : Nat} {α : Type} {file : HostFile} {watched watched' : Store (Watched RamDisk) n}
  {store : Store RamDisk n} {twin : Store ImageFile n} {p : Plain} {a : Archive}

/-- A store is on a RAM disk and on an image of it, and on the disk while it is watched. -/
structure Oversees (file : HostFile) (watched : Store (Watched RamDisk) n) (store : Store RamDisk n)
    (twin : Store ImageFile n) : Prop where
  disk : watched.Beside (fun watched disk => disk = watched.device) store
  image : watched.Beside (fun watched image => Images file watched.device image) twin

theorem Hosts.inside (h : Hosts watched p a) : watched.cache.device.Inside := h.stands.coherent.device.2

namespace Oversees

variable (h : Oversees file watched store twin)
include h

theorem beside : store.Beside (Images file) twin := by
  obtain ⟨_, rfl, rfl⟩ := h.disk
  obtain ⟨image, himages, rfl⟩ := h.image
  exact ⟨image, himages, rfl⟩

theorem freeMap_eq : store.freeMap = watched.freeMap := h.disk.freeMap_eq

/-- **The same is done on both**, where the watched disk is only asked for sectors it has. -/
theorem follow {action : Action (Store (Watched RamDisk) n) α} {onDisk : Action (Store RamDisk n) α}
    {onImage : Action (Store ImageFile n) α}
    (hdisk : Store.Follows (fun _ => True) (fun watched disk => disk = watched.device) action onDisk)
    (himage : Store.Follows Watched.Inside (fun watched image => Images file watched.device image) action onImage)
    {result : Except Fault α} {log : List Event} (hrun : action watched = ⟨result, watched', log⟩)
    (hin : watched'.cache.device.Inside) :
    ∃ store' twin', onDisk store = ⟨result, store', log⟩ ∧ onImage twin = ⟨result, twin', log⟩ ∧
      Oversees file watched' store' twin' := by
  obtain ⟨store', hstore, hdisk'⟩ := hdisk.same h.disk trivial
  have hin' : (action watched).state.cache.device.Inside := by
    rw [hrun]
    exact hin
  obtain ⟨twin', htwin, himage'⟩ := himage.same h.image hin'
  rw [hrun] at hstore htwin hdisk' himage'
  exact ⟨store', twin', hstore, htwin, hdisk', himage'⟩

end Oversees

/-- What was opened on the watched disk was on both. -/
theorem opened_overseen {opened : Opening (Watched RamDisk) n × List Event} {onDisk : Opening RamDisk n × List Event}
    {onImage : Opening ImageFile n × List Event}
    (hdisk : OpenedBeside (fun watched disk => disk = watched.device) opened onDisk)
    (himage : OpenedBeside (fun watched image => Images file watched.device image) opened onImage) :
    (OpenedAlike onDisk onImage fun store twin => ∃ watched, opened.1 = .up watched ∧
      Oversees file watched store twin) ∧ Images file onDisk.1.device onImage.1.device := by
  obtain ⟨⟨watched, store, log, rfl, rfl, hstore⟩ | ⟨cause, watched, disk, log, rfl, rfl⟩, hdevice⟩ := hdisk
  · obtain ⟨⟨_, twin, _, hopened, rfl, htwin⟩ | ⟨_, _, _, _, hopened, -⟩, hdevice'⟩ := himage
    · cases hopened
      exact ⟨.inl ⟨store, twin, log, rfl, rfl, watched, rfl, hstore, htwin⟩, hdevice ▸ hdevice'⟩
    · cases hopened
  · obtain ⟨⟨_, _, _, hopened, -⟩ | ⟨_, _, image, _, hopened, rfl⟩, hdevice'⟩ := himage
    · cases hopened
    · cases hopened
      exact ⟨.inr ⟨cause, disk, image, log, rfl, rfl⟩, hdevice ▸ hdevice'⟩

/-- A format of both. -/
theorem format_overseen {disk : RamDisk} {image : ImageFile} (h : Images file disk image) (n limit : Nat) :
    (OpenedAlike (format n disk limit) (format n image limit) fun store twin => ∃ watched p a,
      Oversees file watched store twin ∧ Hosts watched p a ∧ a.ledger = .formatted store.freeMap) ∧
      Images file (format n disk limit).1.device (format n image limit).1.device := by
  have hsound : LawfulDevice.Sound (⟨disk, []⟩ : Watched RamDisk) := ⟨trivial, nofun⟩
  have hopened := opened_overseen
    ((format_carries Watched.mirrors.shadows (fun h => h ▸ rfl) n limit).same (s := ⟨disk, []⟩) rfl trivial)
    ((format_carries (Watched.shadows_image file) Images.count n limit).same h (format_sound hsound).2)
  refine ⟨hopened.1.mono ?_, hopened.2⟩
  rintro store twin ⟨watched, hup, hoversees⟩
  obtain ⟨p, a, hserves, hledger⟩ := format_serves hsound hup
  refine ⟨watched, p, a, hoversees, hserves.hosts, ?_⟩
  rw [hoversees.freeMap_eq, hserves.freeMap_eq, hledger]

/-- A mount of both. -/
theorem mount_overseen {disk : Watched RamDisk} {image : ImageFile} (hdisk : OnDevice disk a)
    (h : Images file disk.device image) (n limit : Nat) :
    (OpenedAlike (mount n disk.device limit) (mount n image limit) fun store twin => ∃ watched p,
      Oversees file watched store twin ∧ Hosts watched p a.mounted) ∧
      Images file (mount n disk.device limit).1.device (mount n image limit).1.device := by
  have hopened := opened_overseen
    ((mount_carries Watched.mirrors.shadows (fun h => h ▸ rfl) n limit).same (s := disk) rfl trivial)
    ((mount_carries (Watched.shadows_image file) Images.count n limit).same h hdisk.mount_sound.2)
  refine ⟨hopened.1.mono ?_, hopened.2⟩
  rintro store twin ⟨watched, hup, hoversees⟩
  obtain ⟨hn, hroom⟩ := mount_up hup
  obtain ⟨watched', p, hup', hserves⟩ := hdisk.mounts hn hroom
  cases hup.symm.trans hup'
  exact ⟨watched, p, hoversees, hserves.hosts⟩

/-- What is read off a disk does not depend on its being watched. -/
theorem readMap_watched (disk : Watched RamDisk) : readMap (untouched disk) = readMap (untouched disk.device) := by
  obtain ⟨_, hrun, -⟩ := (Store.run_follows Watched.mirrors.shadows
    (Inode.read freeMapFile 0 (untouched disk).freeMap.byteLength)).same (s := untouched disk) ⟨_, rfl, rfl⟩ trivial
  exact (congrArg Reply.result hrun).symm

/-- A shutdown of both. -/
theorem Oversees.shutdown (h : Oversees file watched store twin) (hhosts : Hosts watched p a) :
    ∃ (disk : Watched RamDisk) (image : ImageFile) (log : List Event), Leaves watched disk ∧
      Volume.shutdown store = ⟨.ok (.ok ()), disk.device, log⟩ ∧
      Volume.shutdown twin = ⟨.ok (.ok ()), image, log⟩ ∧ Images file disk.device image := by
  obtain ⟨p', hresult, -, -, hwritten⟩ := hhosts.shutdown
  obtain ⟨_, hstore, rfl⟩ := (shutdown_ends Watched.mirrors.shadows).same h.disk trivial
  obtain ⟨image, htwin, himage⟩ := (shutdown_ends (Watched.shadows_image file)).same h.image hwritten.sound.2
  rw [hresult] at hstore htwin
  exact ⟨_, image, _, .shutDown hresult, hstore, htwin, himage⟩

/-- **A volume does the same on an image file as on a RAM disk**, whatever is done with it. -/
theorem Oversees.interchanged (h : Oversees file watched store twin) (hhosts : Hosts watched p a)
    (acts : List Act) : Interchanged file acts store twin a.ledger := by
  -- each act leads to a volume again that is overseen, of the archive that the act leads to
  induction acts generalizing n p a with
  | nil => trivial
  | cons act rest ih =>
    have hmap : store.freeMap = a.freeMap := h.freeMap_eq.trans hhosts.freeMap_eq
    cases act with
    | ask o =>
      intro hconcedes
      obtain ⟨watched', log, p', hrun, hhosts'⟩ := hhosts.answered hconcedes
      obtain ⟨store', twin', hstore, htwin, h'⟩ := h.follow (o.run_follows Watched.mirrors.shadows)
        (o.run_follows (Watched.shadows_image file)) hrun hhosts'.inside
      have hledger := (hhosts.represents.expected o hconcedes.1).2
      exact ⟨_, store', twin', log, hstore, htwin, h'.beside, hledger ▸ ih h' hhosts'⟩
    | persist =>
      obtain ⟨watched', log, p', hrun, hhosts', -⟩ := hhosts.persist
      obtain ⟨store', twin', hstore, htwin, h'⟩ := h.follow (Store.run_follows Watched.mirrors.shadows _)
        (Store.run_follows (Watched.shadows_image file) _) hrun hhosts'.inside
      refine ⟨store', twin', log, hstore, htwin, h'.beside, ?_⟩
      rw [hmap, ← Archive.ledger_persisted hhosts.represents hhosts.houses]
      exact ih h' hhosts'
    | remount m limit =>
      obtain ⟨disk, image, log, hleaves, hstore, htwin, himage⟩ := h.shutdown hhosts
      refine ⟨disk.device, image, log, hstore, htwin, himage, fun hstored => ?_⟩
      rw [← readMap_watched, h.freeMap_eq] at hstored
      obtain ⟨hopened, hdevices⟩ := mount_overseen (hleaves.remounts hhosts hstored) himage m limit
      refine ⟨hopened.mono ?_, hdevices⟩
      rintro store' twin' ⟨watched', p', h', hhosts'⟩
      refine ⟨h'.beside, ?_⟩
      rw [hmap, ← Archive.ledger_persisted hhosts.represents hhosts.houses]
      exact ih h' hhosts'

end Oversees

/-- Both devices are opened alike, and the same can be done with both volumes from then on. -/
def OpenedInterchanged {n : Nat} (file : HostFile) (acts : List Act) (ledger : Store RamDisk n → Ledger)
    (onDisk : Opening RamDisk n × List Event) (onImage : Opening ImageFile n × List Event) : Prop :=
  (OpenedAlike onDisk onImage fun store twin =>
    store.Beside (Images file) twin ∧ Interchanged file acts store twin (ledger store)) ∧
    Images file onDisk.1.device onImage.1.device

/-- **An image file and a RAM disk are interchangeable** that have the same in their sectors. A format of both has
    the same outcome, whatever is on them, and so has a mount of both if what is on them was left by a volume with
    its free map. The volumes then do the same, whatever clients ask for: they answer and report the same and have
    the same free map, open inodes, frames and counters. The file always has what the disk has; it keeps its length
    and the bytes after the sectors. -/
theorem image_interchangeable {file : HostFile} {image : ImageFile} {disk : RamDisk}
    (hopen : ImageFile.open? file = some image) (hsize : disk.sectors.size = image.sectorCount)
    (hsector : ∀ {k} (hk : k < disk.sectors.size), disk.sectors[k] = file.blockAt k) (n limit : Nat)
    (acts : List Act) :
    OpenedInterchanged file acts (fun store => .formatted store.freeMap) (format n disk limit)
        (format n image limit) ∧
      ∀ {δ : Type} [BlockDevice δ] [LawfulDevice δ] {m : Nat} {left : Store δ m} {ledger : Ledger} {device : δ},
        Exposed left ledger → Leaves left device → readMap (untouched device) = .ok (.ok left.freeMap.toBytes) →
        disk.sectors.size = BlockDevice.sectorCount device →
        (∀ s : SectorId, s.toNat < BlockDevice.sectorCount device →
          LawfulDevice.block disk s = LawfulDevice.block device s) →
        OpenedInterchanged file acts (fun _ => (ledger.persisted left.freeMap).mounted) (mount n disk limit)
          (mount n image limit) := by
  have himages : Images file disk image := .of_open hopen hsize hsector
  constructor
  · obtain ⟨hopened, hdevices⟩ := format_overseen himages n limit
    refine ⟨hopened.mono ?_, hdevices⟩
    rintro store twin ⟨watched, p, a, hoversees, hhosts, hledger⟩
    refine ⟨hoversees.beside, ?_⟩
    show Interchanged file acts store twin (.formatted store.freeMap)
    rw [← hledger]
    exact hoversees.interchanged hhosts acts
  · intro δ _ _ m left ledger device hexposed hleaves hstored hcount hblock
    obtain ⟨p, a, hhosts, rfl⟩ := hexposed.hosts
    have hdevice : OnDevice (⟨disk, []⟩ : Watched RamDisk) a.persisted.mounted :=
      (hleaves.remounts hhosts hstored).copied ⟨trivial, nofun⟩ hcount hblock
    obtain ⟨hopened, hdevices⟩ := mount_overseen hdevice himages n limit
    refine ⟨hopened.mono ?_, hdevices⟩
    rintro store twin ⟨watched, p', hoversees, hhosts'⟩
    refine ⟨hoversees.beside, ?_⟩
    rw [hhosts.freeMap_eq, ← Archive.ledger_persisted hhosts.represents hhosts.houses]
    exact hoversees.interchanged hhosts' acts

/-! ## A disk and its image -/

/-- A disk with a volume on it, … -/
def keptDisk : RamDisk := haltedDevice smallVolume

/-- … and a file with its sectors and a hundred bytes more. -/
def keptFile : HostFile := .ofDisk keptDisk (Vector.replicate 512 9) 100

theorem keptDisk_stored : keptDisk.sectors.size = 5 ∧ (smallVolume.run persist).result = .ok (.ok ()) ∧
    readMap (untouched keptDisk) = .ok (.ok smallVolume.freeMap.toBytes) := by
  decide +kernel

/-- A file is made and written, and there when the volume is mounted with another number of frames. -/
def keeping : List Act :=
  [.ask (.create 1 false), .ask (.openInode 3), .ask (.write ⟨3⟩ 0 #[7]), .persist, .remount 2 memoryLimit,
    .ask (.openInode 3), .ask (.read ⟨3⟩ 0 #[0])]

/-- The file is made a volume, and that of the disk is taken up from it, too. -/
theorem image_interchangeable_kept :
    ImageFile.open? keptFile = some ⟨keptFile, keptDisk.sectors.size⟩ ∧
      Exposed smallVolume (.formatted smallVolume.freeMap) ∧ Leaves smallVolume keptDisk ∧
      OpenedInterchanged keptFile keeping (fun store => .formatted store.freeMap) (format 1 keptDisk)
        (format 1 (⟨keptFile, keptDisk.sectors.size⟩ : ImageFile)) ∧
      OpenedInterchanged keptFile keeping
        (fun _ => ((Ledger.formatted smallVolume.freeMap).persisted smallVolume.freeMap).mounted) (mount 1 keptDisk)
        (mount 1 (⟨keptFile, keptDisk.sectors.size⟩ : ImageFile)) := by
  obtain ⟨hsize, hpersist, hstored⟩ := keptDisk_stored
  have hopen : ImageFile.open? keptFile = some ⟨keptFile, keptDisk.sectors.size⟩ :=
    ImageFile.open?_ofDisk (hsize ▸ by decide) (by decide)
  have hleaves : Leaves smallVolume keptDisk := haltedDevice_left hpersist
  obtain ⟨hformat, hmount⟩ := image_interchangeable hopen rfl (fun hk => (HostFile.blockAt_ofDisk hk).symm) 1
    memoryLimit keeping
  exact ⟨hopen, smallVolume_exposed, hleaves, hformat,
    hmount smallVolume_exposed hleaves hstored rfl fun _ _ => rfl⟩

/-! ## A block at the front of a file -/

namespace Inode

open Routine

/-- Put a block at the front of a file that has room for it. -/
def storeFirst (d : Descriptor) (block : Block) : Routine Nat :=
  match locate? d 0 with
  | none => return 0
  | some place => do
    let sector ← follow d place
    Routine.store sector block
    return sectorSize

/-- Put a block at the front of a file and lengthen it first if need be. -/
def writeFirst (handle : Handle) (block : Block) : Routine Nat := do
  if ← isDenied handle then
    emit (.writeDenied handle.sector)
    return 0
  else
    let d ← load handle.sector
    if sectorSize ≤ d.size then storeFirst d block
    else
      exclusively handle do
        let d ← load handle.sector
        let d ← if d.size < sectorSize then extend handle.sector d sectorSize else pure d
        storeFirst d block

theorem ofBytes_toBytes (block : Block) : Block.ofBytes block.toBytes = block := by
  ext
  simp [Block.ofBytes, Block.toBytes]

theorem writeInside_first (d : Descriptor) (block : Block) : writeInside d 0 block.toBytes = storeFirst d block := by
  have hsize : block.toBytes.size = sectorSize := block.size_toArray
  have hspans : spans 0 sectorSize = [⟨0, sectorSize⟩] := by decide
  have hpart : block.toBytes.extract 0 sectorSize = block.toBytes := hsize ▸ Array.extract_size
  unfold writeInside storeFirst
  rw [hsize, Nat.zero_add]
  rw [hspans, writeSpans]
  cases locate? d 0 with
  | none => rfl
  | some place =>
    simp only [Nat.sub_zero, hpart, hsize, ofBytes_toBytes, writeSpans]
    rfl

/-- **The write of a whole block** at the front of a file puts it there as it is. -/
theorem write_first (handle : Handle) (block : Block) : write handle 0 block.toBytes = writeFirst handle block := by
  have hsize : block.toBytes.size = sectorSize := block.size_toArray
  have hnonempty : block.toBytes.isEmpty = false := by simp [Array.isEmpty, hsize, sectorSize]
  unfold write writeFirst
  simp only [hnonempty, hsize, writeInside_first]
  rfl

end Inode

/-! ## A volume without its free map -/

/-- What is dirty goes to an image file, wherever in the file that is. -/
theorem Cache.flush_image {n : Nat} {cache : Cache ImageFile n} {i : Fin n} {s : SectorId}
    (hrecency : cache.recency = [i]) (hdirty : (cache.frame i).dirty = true)
    (hsector : (cache.frame i).sector = some s) :
    ∃ cache' log, Cache.flush cache = ⟨.ok (), cache', log⟩ ∧
      cache'.device.file.length = max cache.device.file.length (sectorSize * (s.toNat + 1)) := by
  unfold Cache.flush
  rw [hrecency]
  simp only [List.reverse_singleton, writeBackAll, writeBack, Action.bind_def, Action.get, hdirty, hsector, if_pos,
    Action.emit, writeDevice, BlockDevice.write, ImageFile.write, HostFile.write, Action.modify, Action.pure_def]
  exact ⟨_, _, rfl, rfl⟩

/-- A client keeps a volume from writing to its free-map file and makes two files, … -/
def outdating : List Operation := [.openInode freeMapSector, .denyWrite freeMapFile, .create 0 false, .create 0 false]

/-- … whose descriptors are in free sectors when the volume is mounted again. A new file is made over them, and what
    is written to it says of the old one that its first block is in sector 5. -/
def straying : List Operation :=
  [.openInode 4, .create 512 false, .openInode 3, .write ⟨3⟩ 0 #[5], .write ⟨3⟩ 58 #[2],
    .write ⟨3⟩ 61 #[0x44, 0x4f, 0x4e, 0x49]]

/-- A block for there. -/
def strayBlock : Block := Vector.replicate 512 7

/-- It may be put at the front of the old file. No sector is asked for then that the disk does not have, but the next
    flush will write one. -/
def Astray (store : Store (Watched RamDisk) 1) (ledger : Ledger) : Prop :=
  let reply := store.run (writeFirst ⟨4⟩ strayBlock)
  ledger.Concedes (.write ⟨4⟩ 0 strayBlock.toBytes) ∧ reply.result = .ok (.ok sectorSize) ∧
    reply.state.cache.device.Inside ∧ reply.state.cache.recency = [Fin.last 0] ∧
    (reply.state.cache.frame (Fin.last 0)).dirty = true ∧ (reply.state.cache.frame (Fin.last 0)).sector = some 5 ∧
    (Operation.flush.run (reply.state.mapDevice Watched.device)).result = .error (.writeBeyondDisk 5)

instance (store : Store (Watched RamDisk) 1) (ledger : Ledger) : Decidable (Astray store ledger) :=
  inferInstanceAs (Decidable (_ ∧ _))

/-- What becomes of a blank disk of five sectors. -/
theorem blank_astray : (relive? 1 outdating straying (⟨RamDisk.blank 5, []⟩ : Watched RamDisk)).any
    (fun reached => decide (Astray reached.1 reached.2)) = true := by
  decide +kernel

/-- **An image file grows where a RAM disk faults.** The same is done on both, and all of it may be asked for, but
    the free map that is mounted is outdated. -/
theorem image_strays : ∃ image store twin store' twin' ledger log, ImageFile.open? (.zeros 2660) = some image ∧
    Images (.zeros 2660) (.blank 5) image ∧ relive? 1 outdating straying (RamDisk.blank 5) = some (store, ledger) ∧
    relive? 1 outdating straying image = some (twin, ledger) ∧
    ledger.Concedes (.write ⟨4⟩ 0 strayBlock.toBytes) ∧
    (Operation.write ⟨4⟩ 0 strayBlock.toBytes).run store = ⟨.ok (.ok sectorSize), store', log⟩ ∧
    (Operation.write ⟨4⟩ 0 strayBlock.toBytes).run twin = ⟨.ok (.ok sectorSize), twin', log⟩ ∧
    store'.Beside (Images (.zeros 2660)) twin' ∧
    (Operation.flush.run store').result = .error (.writeBeyondDisk 5) ∧
    (Operation.flush.run twin').result = .ok (.ok ()) ∧
    (Operation.flush.leads twin').cache.device.file.length = 3072 := by
  obtain ⟨⟨watched, ledger⟩, hlives, hastray⟩ := (Option.any_eq_true _ _).mp blank_astray
  obtain ⟨hconcedes, hresult, hin, hrecency, hdirty, hsector, hfault⟩ := of_decide_eq_true hastray
  rcases hrun : watched.run (writeFirst ⟨4⟩ strayBlock) with ⟨result, written, log⟩
  simp only [hrun] at hresult hin hrecency hdirty hsector hfault
  subst hresult
  have hopen : ImageFile.open? (.zeros 2660) = some ⟨.zeros 2660, 5⟩ := rfl
  have himages : Images (.zeros 2660) (.blank 5) ⟨.zeros 2660, 5⟩ :=
    .of_open hopen Array.size_replicate fun hk => (Array.getElem_replicate ..).trans Std.HashMap.getD_empty.symm
  -- both go through the same as the watched disk
  have hwrites := Store.run_follows (n := 1) (Watched.shadows_image (.zeros 2660)) (writeFirst ⟨4⟩ strayBlock)
  have hin₁ : watched.cache.device.Inside := hwrites.before (hrun ▸ hin)
  obtain ⟨store, hstore, hdisk⟩ := relive?_beside Watched.mirrors.shadows (fun h => h ▸ rfl) hlives trivial rfl
  obtain ⟨twin, htwin, himage⟩ := relive?_beside (Watched.shadows_image (.zeros 2660)) Images.count hlives hin₁ himages
  have hboth : Oversees (.zeros 2660) watched store twin := ⟨hdisk, himage⟩
  obtain ⟨store', twin', hwrite, hwrite', hboth'⟩ := hboth.follow
    (Store.run_follows Watched.mirrors.shadows (writeFirst ⟨4⟩ strayBlock)) hwrites hrun hin
  rw [← write_first] at hwrite hwrite'
  refine ⟨_, store, twin, store', twin', ledger, log, hopen, himages, hstore, htwin, hconcedes, hwrite, hwrite',
    hboth'.beside, ?_⟩
  -- the flush is of the one frame there is
  obtain ⟨_, rfl, rfl⟩ := hboth'.disk
  obtain ⟨image, himage', rfl⟩ := hboth'.image
  let twin' : Store ImageFile 1 := written.mapDevice fun _ => image
  obtain ⟨flushed, log', hflush, hlength⟩ : ∃ cache' log, Cache.flush twin'.cache = ⟨.ok (), cache', log⟩ ∧ _ :=
    Cache.flush_image hrecency hdirty hsector
  have hperform : Store.perform .flushCache twin' = ⟨.ok (), ⟨flushed, twin'.freeMap, twin'.registry⟩, log'⟩ := by
    simp only [Store.perform, Store.onCache, hflush]
    rfl
  have hends : Operation.flush.run twin' = ⟨.ok (.ok ()), ⟨flushed, twin'.freeMap, twin'.registry⟩, log'⟩ := by
    show twin'.run (Routine.perform .flushCache) = _
    rw [twin'.run_perform, hperform]
    rfl
  refine ⟨hfault, congrArg Reply.result hends, ?_⟩
  calc (Operation.flush.leads twin').cache.device.file.length
      = flushed.device.file.length := congrArg (·.state.cache.device.file.length) hends
    _ = max image.file.length (sectorSize * 6) := hlength
    _ = 3072 := by rw [himage'.length]; rfl

end InodeStore
