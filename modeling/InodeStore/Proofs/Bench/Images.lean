import InodeStore.Bench.Run
import InodeStore.Proofs.Bench.Measuring
import InodeStore.Proofs.Volume.Durability

/-!
# `Proofs.Bench.Images` — what a run leaves on its image

A run on a volume that was left in order ends as the free map says (`verdict`), and what a later mount loads
is known, too (`Loads`). If the run is a success, or is refused while its first scratch file is
filled, that is the free map from before. But if the second scratch file finds no room for all its bytes, the
free map was persisted with that file in it, and is not persisted again without it: then its sector stays
taken.
-/

namespace InodeStore

open Inode Volume Bench

/-! ## Devices -/

section Devices

variable {δ : Type} {n : Nat} [BlockDevice δ] [LawfulDevice δ] {store : Store δ n} {p : Plain}
  {a : Archive} {device : δ} {map : FreeMap}

/-- What the free-map file begins with is on the device, if the file's sectors are taken in it. -/
theorem Written.holds (hwritten : Written device p) (h : Serves store p a) (hmap : map.Lawful)
    (hsectors : map.sectors = a.freeMap.sectors) (htaken : ∀ y, a.freeMap.HasTaken y → map.HasTaken y)
    (hfile : (a.record freeMapFile).bytes.extract 0 map.byteLength = map.toBytes) : HoldsMap device map := by
  obtain ⟨f, hf, hrecord, hlong⟩ := h.kept.record_eq
  obtain ⟨d, hon⟩ := hwritten.record h.represents hf
  have hlength : map.byteLength = a.freeMap.byteLength := by
    unfold FreeMap.byteLength
    rw [hsectors]
  refine ⟨hwritten.sound, hwritten.count.trans (h.count.trans hsectors.symm), hmap, d, f, hon,
    h.represents.sound.nodup hf, fun y hy => htaken y (h.represents.sound.owned hf hy), ?_, hrecord ▸ hfile⟩
  rw [hlength]
  exact hlong

/-- One sector more may be taken in it. -/
theorem FreeMap.HasTaken.assign {y : SectorId} (hmap : map.Lawful) (hy : map.HasTaken y) {x : SectorId}
    (hx : map.taken x.toNat = false) : (map.assign x.toNat true).HasTaken y := by
  refine ⟨hy.1, ?_⟩
  rw [FreeMap.taken_assign (hmap.group_lt (hmap.lt_sectors hx))]
  split
  · rfl
  · exact hy.2

end Devices

/-! ## Images -/

section Images

/-- A file that can be opened gives an image with all its sectors. -/
theorem open_eq {file : HostFile} {image : ImageFile} (h : ImageFile.open? file = some image) :
    image = ⟨file, file.length / sectorSize⟩ ∧ file.length / sectorSize < UInt32.size := by
  unfold ImageFile.open? at h
  split at h
  · next hlt => exact ⟨(Option.some.inj h).symm, hlt⟩
  · cases h

/-- So it works. -/
theorem opened_sound {image : ImageFile} (h : ImageFile.open? image.file = some image) :
    LawfulDevice.Sound image := by
  obtain ⟨himage, -⟩ := open_eq h
  show sectorSize * image.sectorCount ≤ image.file.length
  rw [himage]
  exact Nat.mul_div_le _ _

/-- A block that is replaced inside of a file leaves it as long as it is. -/
theorem open_write {image : ImageFile} (h : ImageFile.open? image.file = some image) {k : Nat}
    (hk : k < image.sectorCount) (block : Block) :
    ImageFile.open? (image.file.write k block) = some { image with file := image.file.write k block } := by
  obtain ⟨himage, hlt⟩ := open_eq h
  have hfits : sectorSize * image.sectorCount ≤ image.file.length := opened_sound h
  have hlength : (image.file.write k block).length = image.file.length :=
    Nat.max_eq_left (Nat.le_trans (Nat.mul_le_mul_left _ hk) hfits)
  have hcount : image.sectorCount = image.file.length / sectorSize := congrArg ImageFile.sectorCount himage
  unfold ImageFile.open?
  rw [hlength, if_pos hlt, hcount]

/-- Images are arrays of blocks as they are opened, and whatever is done leaves them such that they would be
    opened as they are. -/
local instance openedImages : LawfulDevice ImageFile where
  Sound image := ImageFile.open? image.file = some image
  block image s := image.file.blockAt s.toNat
  read_eq {image s} hopened hs := by
    obtain ⟨image', hread, -, hcount, hblock⟩ := LawfulDevice.read_eq (opened_sound hopened) hs
    have hsame : (ImageFile.read s image).2 = image := by
      unfold ImageFile.read
      split <;> rfl
    obtain rfl : image = image' := hsame.symm.trans (congrArg Prod.snd hread)
    exact ⟨image, hread, hopened, rfl, rfl⟩
  write_eq {image s} b hopened hs := by
    obtain ⟨image', hwrite, -, hcount, hblock⟩ := LawfulDevice.write_eq b (opened_sound hopened) hs
    obtain rfl : _ = image' := congrArg Prod.snd hwrite
    exact ⟨_, hwrite, open_write hopened hs b, hcount, hblock⟩

/-- A later mount of the file, with frames that fit into memory, loads this free map. -/
def Loads (file : HostFile) (map : FreeMap) : Prop :=
  ∃ image, ImageFile.open? file = some image ∧
    ∀ m limit, 0 < m → Fault.ofDemand? (m * Frame.footprint) limit = none →
      ∃ store : Store ImageFile m, (mount m image limit).1 = .up store ∧ store.freeMap = map

theorem HoldsMap.loads_image {image : ImageFile} {map : FreeMap} (h : HoldsMap image map) :
    Loads image.file map := by
  refine ⟨image, h.working, fun m limit hm hroom => ?_⟩
  obtain ⟨store, hup, hstands⟩ := h.mounts hm hroom
  exact ⟨store, hup, hstands.freeMap⟩

/-! ## Runs -/

/-- The way a run ends on a volume with this free map, and the free map that a later mount loads. -/
def verdict (map : FreeMap) (o : Options) : Exit × FreeMap :=
  match map.nextFree? with
  | none => (.failure (.refused .allocationExhausted), map)
  | some x =>
    match claim (map.assign x.toNat true) 0 (pattern o.fileBytes).size with
    | .error e => (.failure (.refused e), map)
    | .ok _ =>
      match claimEach (map.assign x.toNat true) 0 o.writeBytes with
      | .error e => (.failure (.refused e), map.assign x.toNat true)
      | .ok () => (.success, map)

/-- A run has come to an end in this way, and its image is left with this free map. -/
def Comes (outcome : Report × HostFile) (expected : Exit × FreeMap) : Prop :=
  outcome.1.exit = expected.1 ∧ ∃ image : ImageFile, outcome.2 = image.file ∧ HoldsMap image expected.2

variable {n limit : Nat} {store : Store ImageFile n} {p : Plain} {a : Archive} {map : FreeMap}
  {lines : List String} {log : List Event} {x : SectorId} {o : Options}

/-- **A run that is refused** leaves the free map that its file begins with. -/
theorem Serves.refused (h : Serves store p a) (hmap : map.Lawful) (hsectors : map.sectors = a.freeMap.sectors)
    (htaken : ∀ y, a.freeMap.HasTaken y → map.HasTaken y)
    (hfile : (a.record freeMapFile).bytes.extract 0 map.byteLength = map.toBytes) (e : Error) :
    Comes (giveUp ⟨lines, .failure (.refused e), log⟩ store) (.failure (.refused e), map) := by
  obtain ⟨image, log', hdiscard, hwritten⟩ := h.stands.giveUp
  have hgiven : giveUp ⟨lines, .failure (.refused e), log⟩ store =
      (⟨lines, .failure (.refused e), log ++ log'⟩, image.file) := by
    unfold giveUp
    dsimp only [Exit.code]
    rw [hdiscard]
  rw [hgiven]
  exact ⟨rfl, image, rfl, hwritten.holds h hmap hsectors htaken hfile⟩

/-- A shutdown leaves the free map of the volume. -/
theorem Serves.ended (h : Serves store p a) :
    (Volume.shutdown store).result = .ok (.ok ()) ∧ HoldsMap (Volume.shutdown store).state a.freeMap := by
  obtain ⟨p', hresult, hrepresents, hcount, hwritten⟩ := h.hosts.shutdown
  refine ⟨hresult, ?_⟩
  rw [← h.freeMap_persisted]
  exact (hwritten.onDevice h hrepresents hcount).holds

/-- **The measurements on a volume** whose free map was persisted come to what the free map says. -/
theorem Serves.measured (h : Serves store p a)
    (hsaved : (a.record freeMapFile).bytes.extract 0 a.freeMap.byteLength = a.freeMap.toBytes)
    (hroom : Fault.ofDemand? o.fileBytes limit = none) (report : Report) :
    Comes (Bench.measure o report store limit) (verdict a.freeMap o) := by
  have hlawful := h.represents.sound.lawful
  unfold verdict Bench.measure
  cases hx : a.freeMap.nextFree? with
  | none =>
    obtain ⟨_, store₁, log₁, p₁, a₁, hrun, h₁, rfl, rfl⟩ := measureReads_exhausted h hx hroom n
    rw [hrun]
    exact h₁.refused hlawful rfl (fun _ hy => hy) hsaved _
  | some x =>
    obtain ⟨answer, store₁, log₁, p₁, a₁, hrun, h₁, hmap, hreads⟩ := measureReads_leads h hx hroom n
    unfold ReadsTo at hreads
    rw [hrun]
    dsimp only
    cases hclaim : claim (a.freeMap.assign x.toNat true) 0 (pattern o.fileBytes).size with
    | error e =>
      rw [hclaim] at hreads
      obtain ⟨rfl, hrecord⟩ := hreads
      have hsectors : a.freeMap.sectors = a₁.freeMap.sectors := congrArg FreeMap.sectors hmap.symm
      exact h₁.refused hlawful hsectors (fun _ hy => hmap ▸ hy) (hrecord ▸ hsaved) e
    | ok new =>
      rw [hclaim] at hreads
      obtain ⟨passes, rfl⟩ := hreads
      obtain ⟨answer, store₂, log₂, p₂, a₂, hrun₂, h₂, hmap₂, hwrites⟩ :=
        measureWrites_leads h₁ (hmap.symm ▸ hx) o.writeBytes
      unfold WritesTo at hwrites
      rw [hmap] at hwrites
      dsimp only
      rw [hrun₂]
      cases heach : claimEach (a.freeMap.assign x.toNat true) 0 o.writeBytes with
      | error e =>
        rw [heach] at hwrites
        obtain ⟨rfl, hfile⟩ := hwrites
        have hfree := hlawful.nextFree?_free hx
        have hsame : a₂.freeMap = a.freeMap := hmap₂.trans hmap
        have hsectors : a.freeMap.sectors = a₂.freeMap.sectors := congrArg FreeMap.sectors hsame.symm
        refine h₂.refused (hlawful.assign (hlawful.lt_sectors hfree) true) hsectors (fun y hy => ?_) hfile e
        rw [hsame] at hy
        exact hy.assign hlawful hfree
      | ok _ =>
        rw [heach] at hwrites
        obtain ⟨stats, rfl⟩ := hwrites
        obtain ⟨hresult, hholds⟩ := h₂.ended
        dsimp only
        rcases hdown : Volume.shutdown store₂ with ⟨result, image, log₃⟩
        rw [hdown] at hresult hholds
        obtain rfl : result = .ok (.ok ()) := hresult
        exact ⟨rfl, image, rfl, hmap ▸ hmap₂ ▸ hholds⟩

/-- There is memory for what a run asks for. -/
def Bench.Options.Fits (o : Options) (limit : Nat) : Prop :=
  0 < o.frames ∧ Fault.ofDemand? (o.frames * Frame.footprint) limit = none ∧
    Fault.ofDemand? o.fileBytes limit = none

instance (o : Options) (limit : Nat) : Decidable (o.Fits limit) := inferInstanceAs (Decidable (_ ∧ _ ∧ _))

section Mounted

variable {image : ImageFile} (h : OnDevice image a) (hmounts : o.format = false)
include h hmounts

/-- The image is opened and mounted, and the measurements are made on this volume. -/
theorem OnDevice.runOn_eq (hn : 0 < o.frames)
    (hroom : Fault.ofDemand? (o.frames * Frame.footprint) limit = none) (lines : List String) :
    ∃ (store : Store ImageFile o.frames) (p : Plain) (log : List Event), Serves store p a.mounted ∧
      runOn o lines image.file limit = Bench.measure o ⟨lines, .success, log⟩ store limit := by
  obtain ⟨store, p, hup, hserves⟩ := h.mounts hn hroom
  rcases hmount : mount o.frames image limit with ⟨opening, log⟩
  rw [hmount] at hup
  obtain rfl : opening = .up store := hup
  refine ⟨store, p, log, hserves, ?_⟩
  have hopened : ImageFile.open? image.file = some image := h.working
  unfold runOn
  rw [hopened, hmounts]
  dsimp only
  rw [if_neg Bool.false_ne_true, hmount]

/-- **A run** on an image that has an archive comes to what the archive's free map says. -/
theorem OnDevice.run (hfits : o.Fits limit) (lines : List String) :
    Comes (runOn o lines image.file limit) (verdict a.freeMap o) := by
  obtain ⟨hn, hroom, hbytes⟩ := hfits
  obtain ⟨store, p, log, hserves, hrun⟩ := h.runOn_eq hmounts hn hroom lines
  rw [hrun]
  exact hserves.measured h.mapFile hbytes _

/-- Where there is no memory, it faults. -/
theorem OnDevice.run_faults (hfits : ¬ o.Fits limit) (lines : List String) :
    ∃ e, (runOn o lines image.file limit).1.exit = .fault e := by
  have hopened : ImageFile.open? image.file = some image := h.working
  have hdown : ∀ {e log}, mount o.frames image limit = (.down (.faulted e) image, log) →
      ∃ e, (runOn o lines image.file limit).1.exit = .fault e := by
    intro e log hmount
    refine ⟨e, ?_⟩
    unfold runOn
    rw [hopened, hmounts]
    dsimp only
    rw [if_neg Bool.false_ne_true, hmount]
  rcases Nat.eq_zero_or_pos o.frames with hzero | hn
  · refine hdown (?_ : mount o.frames image limit = (.down (.faulted .noFrames) image, []))
    rw [hzero]
    rfl
  cases hroom : Fault.ofDemand? (o.frames * Frame.footprint) limit with
  | some e => exact hdown (mount_beyond hn hroom)
  | none =>
    cases hbytes : Fault.ofDemand? o.fileBytes limit with
    | none => exact absurd ⟨hn, hroom, hbytes⟩ hfits
    | some e =>
      obtain ⟨store, p, log, -, hrun⟩ := h.runOn_eq hmounts hn hroom lines
      have hreads : store.run (measureReads o.fileBytes o.frames limit) = ⟨.error e, store, []⟩ := by
        unfold measureReads
        rw [hbytes]
        rfl
      refine ⟨e, ?_⟩
      rw [hrun]
      unfold Bench.measure giveUp
      rw [hreads]
      dsimp only
      split <;> rfl

end Mounted

theorem run_mounts (hmounts : o.format = false) (file : HostFile) (limit : Nat) :
    Bench.run o (some file) limit =
      ((runOn o [imageLine o] file limit).1, some (runOn o [imageLine o] file limit).2) := by
  unfold Bench.run
  rw [hmounts]
  rfl

/-- The device that is left in order of a volume in use. -/
theorem InUse.left {ledger : Ledger} {image : ImageFile} (h : InUse store ledger)
    (hleaves : Leaves store image) : ∃ a, OnDevice image a ∧ a.freeMap = store.freeMap := by
  obtain ⟨p, a, hserves, -⟩ := h.serves
  exact ⟨a.persisted, hleaves.onDevice hserves, hserves.freeMap_persisted.trans hserves.freeMap_eq.symm⟩

/-- **What a run leaves on its image.** A run without formatting, on an image that a volume was left on in
    order, is a fault if it has no frames or there is no memory for them or for the bytes of its file, and else
    ends as the free map says. Then a later mount loads the free map that a mount loaded before, bit for bit,
    if the run is a success or is refused while the first scratch file is made or filled. If it is refused
    while the second one is filled, the first free sector, which was the scratch file's, stays taken for good:
    the free map was persisted with the scratch file in it, and not again once it was removed. -/
theorem run_remains {ledger : Ledger} {image : ImageFile} (h : InUse store ledger)
    (hleaves : Leaves store image) (hmounts : o.format = false) (limit : Nat) :
    Loads image.file store.freeMap ∧ ∃ report file, Bench.run o (some image.file) limit = (report, some file) ∧
      if o.Fits limit then report.exit = (verdict store.freeMap o).1 ∧ Loads file (verdict store.freeMap o).2
      else ∃ e, report.exit = .fault e := by
  obtain ⟨a, hdevice, hmap⟩ := h.left hleaves
  refine ⟨hmap ▸ hdevice.holds.loads_image, _, _, run_mounts hmounts image.file limit, ?_⟩
  split
  · next hfits =>
    obtain ⟨hexit, image', hfile, hholds⟩ := hdevice.run hmounts hfits [imageLine o]
    rw [hmap] at hexit hholds
    exact ⟨hexit, hfile ▸ hholds.loads_image⟩
  · next hfits => exact hdevice.run_faults hmounts hfits _

/-! ## A small image -/

/-- A free map of four sectors, of which the last one is free. -/
def smallMap : FreeMap := (formatMap 4).assign 2 true

/-- One byte is written, after none was read. -/
def oneByte : Options := ⟨"disk.img", false, 4, 1, 0, 1⟩

/-- The scratch file takes the last sector, and there is none for its byte. -/
theorem verdict_small : (verdict smallMap oneByte).1 = .failure (.refused .allocationExhausted) ∧
    (verdict smallMap oneByte).2.taken 3 = true ∧ smallMap.taken 3 = false := by
  decide +kernel

/-- Four sectors of zeros. -/
def smallImage : ImageFile := ⟨HostFile.zeros 2048, 4⟩

/-- A RAM disk of four sectors is a volume with this free map. -/
theorem smallDisk_up : ((format 1 (RamDisk.blank 4)).1.store?.map fun store =>
    (store.freeMap.sectors, store.freeMap.groups)) = some (smallMap.sectors, smallMap.groups) := by
  decide +kernel

/-- So is the image, and it can be left in order. -/
theorem smallImage_left : ∃ (store : Store ImageFile 1) (image : ImageFile),
    InUse store (.formatted store.freeMap) ∧ Leaves store image ∧ store.freeMap = smallMap := by
  have himage : LawfulDevice.Sound smallImage := if_pos (by decide)
  have hblank : LawfulDevice.Sound (RamDisk.blank 4) := trivial
  have hdisk := smallDisk_up
  rcases format_paired himage hblank rfl 1 memoryLimit with
    ⟨store, disk, log, hup, hup', p, q, a, hpaired, -⟩ | ⟨cause, device₁, device₂, log, -, hdown⟩
  · have hinUse : InUse store (.formatted store.freeMap) := .formatted himage (congrArg Prod.fst hup)
    obtain ⟨p', hresult, -⟩ := hpaired.first.hosts.shutdown
    refine ⟨store, _, hinUse, .shutDown hresult, ?_⟩
    rw [hup'] at hdisk
    obtain ⟨hsectors, hgroups⟩ := Prod.mk.inj (Option.some.inj hdisk)
    have hsame : store.freeMap = disk.freeMap := congrArg Store.freeMap hpaired.twins.outline
    rw [hsame]
    exact congrArg₂ FreeMap.mk hsectors hgroups
  · rw [hdown] at hdisk
    cases hdisk

/-- The free map that is loaded is known. -/
theorem Loads.unique {file : HostFile} {map map' : FreeMap} (h : Loads file map) (h' : Loads file map') :
    map = map' := by
  obtain ⟨image, hopened, hall⟩ := h
  obtain ⟨image', hopened', hall'⟩ := h'
  obtain rfl : image = image' := Option.some.inj (hopened.symm.trans hopened')
  obtain ⟨store, hup, rfl⟩ := hall 1 memoryLimit Nat.one_pos (by decide)
  obtain ⟨store', hup', rfl⟩ := hall' 1 memoryLimit Nat.one_pos (by decide)
  rw [hup] at hup'
  cases hup'
  rfl

/-- The run is refused, and the last sector is taken afterwards. -/
theorem run_remains_small : ∃ (store : Store ImageFile 1) (image : ImageFile),
    InUse store (.formatted store.freeMap) ∧ Leaves store image ∧ oneByte.format = false ∧
      oneByte.Fits memoryLimit ∧
      Loads image.file smallMap ∧ ∃ report file, Bench.run oneByte (some image.file) = (report, some file) ∧
        report.exit = .failure (.refused .allocationExhausted) ∧ Loads file (verdict smallMap oneByte).2 := by
  obtain ⟨store, image, hinUse, hleaves, hmap⟩ := smallImage_left
  have hfits : oneByte.Fits memoryLimit := by decide
  obtain ⟨hbefore, report, file, hrun, hafter⟩ := run_remains hinUse hleaves (o := oneByte) rfl memoryLimit
  rw [if_pos hfits, hmap] at hafter
  exact ⟨store, image, hinUse, hleaves, rfl, hfits, hmap ▸ hbefore, report, file, hrun,
    hafter.1.trans verdict_small.1, hafter.2⟩

/-- **Not every run leaves the free map as it was** that is no fault. -/
theorem run_not_traceless : ¬ ∀ {n : Nat} {store : Store ImageFile n} {ledger : Ledger} {image : ImageFile}
    {o : Options} {report : Report} {file : HostFile}, InUse store ledger → Leaves store image →
      o.format = false → Bench.run o (some image.file) = (report, some file) →
        (∀ e, report.exit ≠ .fault e) → ∀ map, Loads image.file map → Loads file map := by
  intro hall
  obtain ⟨store, image, hinUse, hleaves, hmap⟩ := smallImage_left
  obtain ⟨a, hdevice, ha⟩ := hinUse.left hleaves
  obtain ⟨hexit, image', hfile, hholds⟩ :=
    hdevice.run (o := oneByte) rfl (show oneByte.Fits memoryLimit by decide) [imageLine oneByte]
  rw [ha, hmap] at hexit hholds
  obtain ⟨hrefused, htaken, hfree⟩ := verdict_small
  rw [hrefused] at hexit
  have hbefore : Loads image.file smallMap := hmap ▸ ha ▸ hdevice.holds.loads_image
  have hafter := hall hinUse hleaves rfl (run_mounts (o := oneByte) rfl image.file memoryLimit)
    (fun e he => nomatch hexit.symm.trans he) smallMap hbefore
  -- a later mount finds the sector taken that was free
  rw [hfile] at hafter
  rw [← hafter.unique hholds.loads_image, hfree] at htaken
  cases htaken

end Images

end InodeStore
