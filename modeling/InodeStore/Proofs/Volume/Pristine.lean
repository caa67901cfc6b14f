import InodeStore.Proofs.FreeMap.Changes
import InodeStore.Proofs.Volume.Space

/-!
# `Proofs.Volume.Pristine` — what a format makes of a device

Only the number of sectors decides what comes of a format. The free map gets the sectors after the first two,
in ascending order (`claim_formatMap`): with two sectors there is none for it, and with too many of them it is
too long for a file. Otherwise the volume is `Pristine`: taken are the two descriptors and the sectors of the
free-map file, which describe themselves in it. This is on the device right away, and a mount finds the same
(`format_exact`).
-/

namespace InodeStore

open Inode Volume

variable {sectors : Nat}

/-! ## The sectors of the free map -/

/-- How many sectors the free-map file needs besides its descriptor's. -/
def mapBlocks (sectors : Nat) : Nat := totalBlocks ((sectors + 7) / 8)

/-- Those after the first two. -/
def mapSectors (sectors : Nat) : List SectorId := (List.range' 2 (mapBlocks sectors)).map UInt32.ofNat

/-- A device with a third sector has enough of them for its free map. -/
theorem mapBlocks_le (hsectors : 2 < sectors) : 2 + mapBlocks sectors ≤ sectors := by
  have hblocks : dataBlocks ((sectors + 7) / 8) = ((sectors + 7) / 8 + 511) / 512 := rfl
  simp only [mapBlocks, totalBlocks, hblocks]
  split <;> split <;> omega

/-- One is needed at least. -/
theorem mapBlocks_pos (hsectors : 0 < sectors) : 0 < mapBlocks sectors := by
  have hblocks : dataBlocks ((sectors + 7) / 8) = ((sectors + 7) / 8 + 511) / 512 := rfl
  simp only [mapBlocks, totalBlocks, hblocks]
  omega

/-- Free are all sectors but the first two. -/
theorem freeNumbers_formatMap (hsectors : 2 ≤ sectors) :
    (formatMap sectors).freeNumbers = List.range' 2 (sectors - 2) := by
  obtain ⟨rest, rfl⟩ := Nat.exists_eq_add_of_le hsectors
  have hcount : (formatMap (2 + rest)).sectors = 2 + rest := rfl
  have hreserved : (List.range 2).filter (fun s => !(formatMap (2 + rest)).taken s) = [] := by
    rw [List.filter_eq_nil_iff]
    intro s hs
    have hs := List.mem_range.mp hs
    rw [taken_formatMap (by omega)]
    have hcases : s = 0 ∨ s = 1 := by omega
    rcases hcases with rfl | rfl <;> simp
  have hfree : ((List.range rest).map (2 + ·)).filter (fun s => !(formatMap (2 + rest)).taken s) =
      (List.range rest).map (2 + ·) := by
    rw [List.filter_eq_self]
    intro s hs
    obtain ⟨k, hk, rfl⟩ := List.mem_map.mp hs
    have hk := List.mem_range.mp hk
    rw [taken_formatMap (by omega), decide_eq_false (by omega)]
    have hone : 2 + k ≠ 1 := by omega
    simp [hone]
  rw [FreeMap.freeNumbers, hcount, List.range_add, List.filter_append, hreserved, hfree, List.nil_append,
    Nat.add_sub_cancel_left, List.range'_eq_map_range]

/-- Of these the free-map file takes the first ones. -/
theorem take_formatMap (hsectors : 2 < sectors) :
    (formatMap sectors).freeSectors.take (mapBlocks sectors) = mapSectors sectors := by
  have henough := mapBlocks_le hsectors
  rw [FreeMap.freeSectors, freeNumbers_formatMap (Nat.le_of_lt hsectors), ← List.map_take,
    List.take_range'_of_length_ge (by omega), mapSectors]

theorem freeCount_formatMap (hsectors : 2 ≤ sectors) (hmax : sectors ≤ UInt32.size) :
    (formatMap sectors).freeCount = sectors - 2 := by
  rw [← (formatMap_lawful hsectors hmax).length_freeSectors, FreeMap.freeSectors, freeNumbers_formatMap hsectors,
    List.length_map, List.length_range']

/-- **The claim of the free map** is granted from a third sector on, up to the longest file. -/
theorem claim_formatMap (hsectors : 2 ≤ sectors) :
    sectors = 2 ∧ claim (formatMap sectors) 0 (formatMap sectors).byteLength = .error .allocationExhausted ∨
      8 * maxFileSize < sectors ∧
        claim (formatMap sectors) 0 (formatMap sectors).byteLength = .error .fileTooLarge ∨
      2 < sectors ∧ sectors ≤ 8 * maxFileSize ∧
        claim (formatMap sectors) 0 (formatMap sectors).byteLength = .ok (mapSectors sectors) := by
  have hlength := length_formatMap sectors
  by_cases hlong : 8 * maxFileSize < sectors
  · exact .inr (.inl ⟨hlong, claim_long _ _ (by omega)⟩)
  have hlargest : maxFileSize = 8460288 := rfl
  have hnumbers : UInt32.size = 4294967296 := rfl
  have hmax : sectors ≤ UInt32.size := by omega
  have hmap := formatMap_lawful hsectors hmax
  have hfree := freeCount_formatMap hsectors hmax
  have hblocks : totalBlocks (formatMap sectors).byteLength = mapBlocks sectors := congrArg totalBlocks hlength
  have hpos : 0 < mapBlocks sectors := mapBlocks_pos (by omega)
  have hdecides := claim_decides_empty hmap (formatMap sectors).byteLength
  cases hclaim : claim (formatMap sectors) 0 (formatMap sectors).byteLength with
  | error e =>
    rw [hclaim] at hdecides
    cases hdecides with
    | tooLong hnot hlong' => omega
    | exhausted hnot hshort =>
      refine .inl ⟨?_, rfl⟩
      by_contra hmore
      have henough := mapBlocks_le (by omega : 2 < sectors)
      exact hnot ⟨by omega, by omega⟩
  | ok new =>
    rw [hclaim] at hdecides
    cases hdecides with
    | ok _ hdone hshort =>
      have hempty : totalBlocks 0 = 0 := rfl
      obtain ⟨hnew, -, -⟩ := claim_lowest hmap (Nat.zero_le _) hclaim
      refine .inr (.inr ⟨by omega, by omega, congrArg Except.ok ?_⟩)
      rw [hnew, hempty, Nat.sub_zero, hblocks, take_formatMap (by omega)]

/-! ## The free map -/

section Map

variable (hsectors : 2 < sectors) (hmax : sectors ≤ UInt32.size)
include hsectors hmax

/-- A sector is one of the free-map file's if it is among those after the first two. -/
theorem mem_mapSectors {s : Nat} (hs : s < sectors) :
    UInt32.ofNat s ∈ mapSectors sectors ↔ 2 ≤ s ∧ s < 2 + mapBlocks sectors := by
  have henough := mapBlocks_le hsectors
  have hnumber : ∀ t, t < sectors → (UInt32.ofNat t).toNat = t :=
    fun t ht => UInt32.toNat_ofNat_of_lt' (Nat.lt_of_lt_of_le ht hmax)
  unfold mapSectors
  rw [List.mem_map]
  constructor
  · rintro ⟨t, ht, he⟩
    obtain ⟨k, hk, rfl⟩ := List.mem_range'.mp ht
    have hsame : 2 + 1 * k = s := by rw [← hnumber (2 + 1 * k) (by omega), ← hnumber s hs, he]
    omega
  · rintro ⟨hlow, hhigh⟩
    exact ⟨s, List.mem_range'_1.mpr ⟨hlow, hhigh⟩, rfl⟩

/-- **Taken are the first sectors**: those of the descriptors, then those of the free-map file. -/
theorem allocated_twoFiles : (Archive.twoFiles sectors (mapSectors sectors)).freeMap.allocated =
    Finset.range (2 + mapBlocks sectors) := by
  have hmap := formatMap_lawful (Nat.le_of_lt hsectors) hmax
  have hfresh : (formatMap sectors).Fresh (mapSectors sectors) := by
    rw [← take_formatMap hsectors, ← hmap.takeEach_eq]
    exact hmap.fresh_takeEach _
  have htaken : (Archive.twoFiles sectors (mapSectors sectors)).freeMap =
      (formatMap sectors).takeAll (mapSectors sectors) := rfl
  have hcount : ((formatMap sectors).takeAll (mapSectors sectors)).sectors = sectors :=
    FreeMap.sectors_foldl (formatMap sectors) _ true
  have henough := mapBlocks_le hsectors
  ext s
  rw [htaken, (FreeMap.takeAll_lawful hmap hfresh).shaped.mem_allocated, hcount, Finset.mem_range]
  by_cases hs : s < sectors
  · have hnumber : (UInt32.ofNat s).toNat = s := UInt32.toNat_ofNat_of_lt' (Nat.lt_of_lt_of_le hs hmax)
    have hbit := FreeMap.taken_takeAll hmap hfresh (UInt32.ofNat s)
    rw [hnumber, taken_formatMap (by omega), decide_eq_false (Nat.not_le.mpr hs)] at hbit
    rw [hbit, Bool.or_eq_true, decide_eq_true_iff, mem_mapSectors hsectors hmax hs, Bool.or_false,
      Bool.or_eq_true, beq_iff_eq, beq_iff_eq]
    omega
  · omega

end Map

/-! ## The volume -/

section Volume

variable {δ : Type} {n : Nat} [BlockDevice δ] [LawfulDevice δ] {device : δ} {store : Store δ n} {p : Plain}

omit [LawfulDevice δ] in
/-- A volume of so many sectors that has an empty root directory, its free-map file and nothing else. -/
structure Pristine (store : Store δ n) (sectors : Nat) : Prop where
  count : store.freeMap.sectors = sectors
  /-- Taken are the sectors of the two descriptors and those of the free-map file, … -/
  allocated : store.freeMap.allocated = Finset.range (2 + mapBlocks sectors)
  /-- … and all others are free. -/
  freeCount : store.freeMap.freeCount + (2 + mapBlocks sectors) = sectors
  length : store.freeMap.toBytes.size = (sectors + 7) / 8
  /-- The free-map file has the free map in it, and so the bits of its own sectors. -/
  mapFile : Tells store freeMapSector ⟨false, store.freeMap.toBytes⟩ (mapSectors sectors ++ [freeMapSector])
  root : Tells store rootSector ⟨true, #[]⟩ [rootSector]
  /-- Only the free-map file is open, through the volume's handle. -/
  opened : ∀ s, store.registry.find? s = if s = freeMapSector then some ⟨1, 0, false, false⟩ else none

/-- The archive of a volume that was just made. -/
def Archive.formatted (sectors : Nat) : Archive := (twoFiles sectors (mapSectors sectors)).attended.persisted

/-- Bytes that are put over as many others. -/
theorem patched_all {bytes data : Bytes} (h : data.size = bytes.size) : patched bytes 0 data = data := by
  have hsize : (patched bytes 0 data).size = data.size := (size_patched (by omega)).trans h.symm
  have hfront := Archive.extract_patched (Nat.le_of_eq h)
  rwa [← hsize, Array.extract_size] at hfront

namespace Archive

variable (hsectors : 2 < sectors) (hp : Represents p (.twoFiles sectors (mapSectors sectors)))
include hsectors hp

/-- The free map was written to its file. -/
theorem formatted_eq : formatted sectors = (twoFiles sectors (mapSectors sectors)).attended.filed freeMapSector
    ((FileRecord.zeros false (formatMap sectors).byteLength (mapSectors sectors)).written 0
      (twoFiles sectors (mapSectors sectors)).freeMap.toBytes []) [] := by
  have hkept : (twoFiles sectors (mapSectors sectors)).attended.Kept := twoFiles_kept (Nat.le_of_lt hsectors)
  obtain ⟨f, hf, -⟩ := hkept.mapFile
  have hattended := hp.attend (congrArg Option.isSome hf)
  exact hkept.persisted_eq hattended.sound (hattended.mapFile_size hkept.houses)

theorem freeMap_formatted :
    (formatted sectors).freeMap = (twoFiles sectors (mapSectors sectors)).freeMap := by
  rw [formatted_eq hsectors hp]
  rfl

/-- To mount it changes nothing, since nothing else is open. -/
theorem mounted_formatted : (formatted sectors).mounted = formatted sectors := by
  rw [formatted_eq hsectors hp]
  rfl

/-- What was on record as zeros is the free map now. -/
theorem mapFile_formatted : (formatted sectors).record? freeMapSector =
    some ⟨false, (formatted sectors).freeMap.toBytes, mapSectors sectors⟩ := by
  have hsize : (twoFiles sectors (mapSectors sectors)).freeMap.toBytes.size =
      (FileRecord.zeros false (formatMap sectors).byteLength (mapSectors sectors)).bytes.size := by
    rw [FreeMap.toBytes_size, FreeMap.byteLength, sectors_twoFiles]
    exact Array.size_replicate.symm
  rw [formatted_eq hsectors hp, written_inside _ (by omega)]
  exact congrArg (fun bytes => some (FileRecord.mk false bytes _)) (patched_all hsize)

theorem root_formatted : (formatted sectors).record? rootSector = some ⟨true, #[], []⟩ := by
  rw [formatted_eq hsectors hp]
  rfl

theorem open?_formatted : (formatted sectors).open? =
    Function.update (fun _ => none) freeMapSector (some ⟨1, 0, false, false⟩) := by
  rw [formatted_eq hsectors hp]
  rfl

end Archive

/-- A volume of this archive is pristine. -/
theorem Serves.pristine {p' : Plain} (hsectors : 2 < sectors) (hmax : sectors ≤ UInt32.size)
    (hp : Represents p (.twoFiles sectors (mapSectors sectors))) (h : Serves store p' (.formatted sectors)) :
    Pristine store sectors := by
  have hmap : store.freeMap = (Archive.twoFiles sectors (mapSectors sectors)).freeMap :=
    h.freeMap_eq.trans (Archive.freeMap_formatted hsectors hp)
  have hcount : store.freeMap.sectors = sectors := hmap ▸ Archive.sectors_twoFiles sectors _
  have hallocated : store.freeMap.allocated = Finset.range (2 + mapBlocks sectors) :=
    hmap ▸ allocated_twoFiles hsectors hmax
  have hmapFile := h.tells (Archive.mapFile_formatted hsectors hp)
  rw [← h.freeMap_eq] at hmapFile
  refine ⟨hcount, hallocated, ?_, ?_, hmapFile, h.tells (Archive.root_formatted hsectors hp), fun s => ?_⟩
  · have hlawful : store.freeMap.Lawful := h.freeMap_eq ▸ h.represents.sound.lawful
    have hsum := hlawful.freeCount_add_card
    rw [hallocated, Finset.card_range, hcount] at hsum
    exact hsum
  · rw [FreeMap.toBytes_size, FreeMap.byteLength, hcount]
  · rw [h.stands.registry, h.represents.lists.find, Archive.open?_formatted hsectors hp,
      Function.update_apply]

/-! ## What comes of a format -/

omit [LawfulDevice δ] in
/-- From a device a mount brings a pristine volume up with this free map, if there is memory for its frames. -/
def MountsPristine (device : δ) (map : FreeMap) (sectors : Nat) : Prop :=
  ∀ m limit, 0 < m →
    match Fault.ofDemand? (m * Frame.footprint) limit with
    | none => ∃ mounted : Store δ m, (mount m device limit).1 = .up mounted ∧ mounted.freeMap = map ∧
        Pristine mounted sectors
    | some e => mount m device limit = (.down (.faulted e) device, [])

/-- How a format ends, by the number of sectors. -/
inductive FormatEnds (sectors : Nat) : Opening δ n → Prop
  | few (e : Fault) (device : δ) (hfew : sectors < 2) : FormatEnds sectors (.down (.faulted e) device)
  | exhausted (device : δ) (htwo : sectors = 2) :
      FormatEnds sectors (.down (.refused .allocationExhausted) device)
  | tooLarge (device : δ) (hlong : 8 * maxFileSize < sectors) :
      FormatEnds sectors (.down (.refused .fileTooLarge) device)
  | up (store : Store δ n) (hsectors : 2 < sectors) (hshort : sectors ≤ 8 * maxFileSize)
      (hpristine : Pristine store sectors)
      (hmounts : MountsPristine store.cache.device store.freeMap sectors) : FormatEnds sectors (.up store)

section Format

variable (hdevice : LawfulDevice.Sound device) (hcount : BlockDevice.sectorCount device = sectors) (hn : 0 < n)
include hdevice hcount hn

/-- **The number of sectors decides**, if there is memory for the frames. -/
theorem format_ends (hroom : Fault.ofDemand? (n * Frame.footprint) limit = none) :
    FormatEnds sectors (format n device limit).1 := by
  by_cases hfew : sectors < 2
  · obtain ⟨e, hdown⟩ := format_few (n := n) (hcount ▸ hfew)
    rw [hdown]
    exact .few e device hfew
  have hsectors := Nat.le_of_not_lt hfew
  rcases claim_formatMap hsectors with ⟨htwo, hclaim⟩ | ⟨hlong, hclaim⟩ | ⟨hmore, hshort, hclaim⟩
  · obtain ⟨device', hdown⟩ := format_refused hdevice hcount hsectors hn hroom hclaim
    rw [hdown]
    exact .exhausted device' htwo
  · obtain ⟨device', hdown⟩ := format_refused hdevice hcount hsectors hn hroom hclaim
    rw [hdown]
    exact .tooLarge device' hlong
  · obtain ⟨store, p₁, p₂, hup, hp₁, hserves, hondevice⟩ :=
      format_persists hdevice hcount hsectors hn hroom hclaim
    have hmax := sectors_le_of_length (claim_ok hclaim)
    rw [hup]
    refine .up store hmore hshort (hserves.pristine hmore hmax hp₁) fun m limit' hm => ?_
    cases hroom' : Fault.ofDemand? (m * Frame.footprint) limit' with
    | some e => exact mount_beyond hm hroom'
    | none =>
      obtain ⟨mounted, p₃, hmount, hserves'⟩ := hondevice.mounts hm hroom'
      have hserves' : Serves mounted p₃ (.formatted sectors) :=
        Archive.mounted_formatted hmore hp₁ ▸ hserves'
      exact ⟨mounted, hmount, hserves'.freeMap_eq.trans hserves.freeMap_eq.symm,
        hserves'.pristine hmore hmax hp₁⟩

/-- **What a format makes of a device**, whatever is on it. If there is memory for the frames it faults exactly
with less than two sectors, is refused exactly with two of them or with more than the longest file has bits, and
brings up a pristine volume with any other number. The device has the volume already then, and a mount of what is
left of it finds the same. If there is not, the device is left alone. -/
theorem format_exact (limit : Nat) :
    match Fault.ofDemand? (n * Frame.footprint) limit with
    | some _ => ∃ e, format n device limit = (.down (.faulted e) device, [])
    | none =>
      ((∃ e device', (format n device limit).1 = .down (.faulted e) device') ↔ sectors < 2) ∧
      ((∃ device', (format n device limit).1 = .down (.refused .allocationExhausted) device') ↔ sectors = 2) ∧
      ((∃ device', (format n device limit).1 = .down (.refused .fileTooLarge) device') ↔ 8 * maxFileSize < sectors) ∧
      ((∃ store, (format n device limit).1 = .up store) ↔ 2 < sectors ∧ sectors ≤ 8 * maxFileSize) ∧
      ∀ store, (format n device limit).1 = .up store →
        Pristine store sectors ∧ MountsPristine store.cache.device store.freeMap sectors := by
  cases hroom : Fault.ofDemand? (n * Frame.footprint) limit with
  | some e =>
    by_cases hfew : sectors < 2
    · exact format_few (hcount ▸ hfew)
    · exact ⟨e, format_beyond (hcount ▸ Nat.le_of_not_lt hfew) hn hroom⟩
  | none =>
    have hends := format_ends hdevice hcount hn hroom
    have hmax : maxFileSize = 8460288 := rfl
    dsimp only
    generalize (format n device limit).1 = opening at hends ⊢
    cases hends with
    | few e device hfew => simp; omega
    | exhausted device htwo => simp; omega
    | tooLarge device hlong => simp; omega
    | up store hsectors hshort hpristine hmounts =>
      have hothers : ¬ sectors < 2 ∧ ¬ sectors = 2 ∧ ¬ 8 * maxFileSize < sectors := by omega
      simp [hothers, hsectors, hshort, hpristine, hmounts]

end Format

end Volume

/-- Of five sectors, one is for the free map, and two are free. A mount with two frames finds them. -/
theorem format_exact_small : (format 1 (RamDisk.blank 5)).1 = .up smallVolume ∧ Pristine smallVolume 5 ∧
    ∃ mounted : Store RamDisk 2, (mount 2 smallVolume.cache.device).1 = .up mounted ∧
      mounted.freeMap = smallVolume.freeMap ∧ Pristine mounted 5 := by
  have hup : (format 1 (RamDisk.blank 5)).1 = .up smallVolume := Opening.eq_up smallVolume_up
  have hcount : BlockDevice.sectorCount (RamDisk.blank 5) = 5 := by decide
  have hdevice : LawfulDevice.Sound (RamDisk.blank 5) := trivial
  obtain ⟨-, -, -, -, hall⟩ := format_exact (n := 1) hdevice hcount (by decide) memoryLimit
  obtain ⟨hpristine, hmounts⟩ := hall smallVolume hup
  exact ⟨hup, hpristine, hmounts 2 memoryLimit (by decide)⟩

/-- There is no memory for so many frames, whatever its size, although there are enough sectors. -/
theorem format_too_large : BlockDevice.sectorCount (RamDisk.blank 16) = 16 ∧
    ∀ limit, (format 18446744073709551615 (RamDisk.blank 16) limit).1 =
      .down (.faulted .beyondMemory) (RamDisk.blank 16) :=
  ⟨by decide, fun _ => congrArg Prod.fst (format_beyond (by decide) (by decide) (if_pos (by decide)))⟩

end InodeStore
