import InodeStore.Proofs.FreeMap.Runs
import InodeStore.Proofs.Volume.Mounting

/-!
# `Proofs.Volume.Formatting` — a device made a volume

A format reserves the first two sectors, makes the free-map file and the root directory there and persists
the volume. What comes of it depends on whether both sectors are there (`format_few`), the frames fit into
memory (`format_beyond`) and there are free sectors for the free map (`format_refused`). If so, it brings up a
volume with these two files, the first of which is open, and the device has all of it (`format_persists`,
`Ledger.formatted`, `format_serves`).
-/

namespace InodeStore

open Inode Volume

/-! ## The reserved sectors -/

/-- The free map with the sectors of both descriptors reserved. -/
def formatMap (sectors : Nat) : FreeMap :=
  ((FreeMap.blank sectors).assign freeMapSector.toNat true).assign rootSector.toNat true

section Map

variable {sectors : Nat}

/-- Nothing else is taken. -/
theorem taken_formatMap (hsectors : 0 < sectors) (s : Nat) :
    (formatMap sectors).taken s = (s == 1 || s == 0 || decide (sectors ≤ s)) := by
  have hgroups : 0 < (FreeMap.blank sectors).groups.size := by
    rw [FreeMap.blank_size]
    omega
  unfold formatMap
  rw [FreeMap.taken_assign (by rw [FreeMap.assign_size]; exact hgroups), FreeMap.taken_assign hgroups,
    FreeMap.taken_blank]
  show (if s = 1 then true else if s = 0 then true else decide (sectors ≤ s)) = _
  by_cases hone : s = 1
  · simp [hone]
  · by_cases hzero : s = 0
    · simp [hzero]
    · simp [hone, hzero]

theorem formatMap_lawful (hsectors : 2 ≤ sectors) (hmax : sectors ≤ UInt32.size) :
    (formatMap sectors).Lawful := by
  have hzero : freeMapSector.toNat < sectors := Nat.lt_of_lt_of_le (by decide) hsectors
  have hone : rootSector.toNat < sectors := Nat.lt_of_lt_of_le (by decide) hsectors
  exact ((FreeMap.blank_lawful hmax).assign hzero true).assign hone true

/-- Both sectors cannot be reserved if there are not as many. -/
theorem reserved_few (hfew : sectors < 2) : ∃ e map,
    (do FreeMap.mark freeMapSector; FreeMap.mark rootSector : Action FreeMap Unit) (.blank sectors) =
      ⟨.error e, map, []⟩ := by
  have hcases : sectors = 0 ∨ sectors = 1 := by omega
  rcases hcases with rfl | rfl
  · exact ⟨.indexOutOfBounds, _, rfl⟩
  · exact ⟨.sectorInUse rootSector, _, rfl⟩

/-- If there are as many, they are, and nothing else is. -/
theorem reserved_eq (hsectors : 2 ≤ sectors) :
    (do FreeMap.mark freeMapSector; FreeMap.mark rootSector : Action FreeMap Unit) (.blank sectors) =
      ⟨.ok (), formatMap sectors, []⟩ := by
  have hsize : (FreeMap.blank sectors).groups.size = (sectors + 63) / 64 := FreeMap.blank_size sectors
  have hzero : (FreeMap.blank sectors).bit? freeMapSector.toNat = some false := by
    rw [FreeMap.bit?_eq_taken (by rw [hsize]; show 0 < _; omega), FreeMap.taken_blank]
    exact congrArg some (decide_eq_false (Nat.not_le_of_lt (Nat.lt_of_succ_lt hsectors)))
  have hone : ((FreeMap.blank sectors).assign freeMapSector.toNat true).bit? rootSector.toNat = some false := by
    rw [FreeMap.bit?_assign_of_ne (by rw [hsize]; show 0 < _; omega) (by decide),
      FreeMap.bit?_eq_taken (by rw [hsize]; show 1 < _; omega), FreeMap.taken_blank]
    exact congrArg some (decide_eq_false (Nat.not_le_of_lt hsectors))
  rw [Action.bind_def]
  simp only [FreeMap.mark, hzero, hone]
  rfl

theorem reserved_ok {map : FreeMap} {log : List Event}
    (h : (do FreeMap.mark freeMapSector; FreeMap.mark rootSector : Action FreeMap Unit)
      (.blank sectors) = ⟨.ok (), map, log⟩) : 2 ≤ sectors ∧ map = formatMap sectors := by
  by_cases hsectors : 2 ≤ sectors
  · cases (reserved_eq hsectors).symm.trans h
    exact ⟨hsectors, rfl⟩
  · obtain ⟨e, map', hfault⟩ := reserved_few (Nat.lt_of_not_le hsectors)
    cases hfault.symm.trans h

end Map

/-! ## The files -/

/-- What a caller keeps in mind about a volume whose free map was written to its file. -/
def Ledger.persisted (ledger : Ledger) (map : FreeMap) : Ledger :=
  ledger.write freeMapFile 0 map.toBytes (.ok map.byteLength)

/-- What a caller keeps in mind about a volume that was just made. -/
def Ledger.formatted (map : FreeMap) : Ledger :=
  let made := (Ledger.withFile ⟨fun _ => none, fun _ => none, fun _ => false⟩ freeMapSector
    (.zeros false map.byteLength)).withFile rootSector (.zeros true 0)
  (made.change freeMapFile fun inode => { inode with openCount := inode.openCount + 1 }).persisted map

theorem Archive.ledger_persisted {p : Plain} {a : Archive} {denials : Nat → Prop} (h : Represents p a)
    (hhouses : a.Houses denials) : a.persisted.ledger = a.ledger.persisted a.freeMap := by
  have hledger := (h.write_keeps hhouses.hasOpen 0 a.freeMap.toBytes).2
  obtain ⟨count, hwrite⟩ := hhouses.write_eq h.sound (h.mapFile_size hhouses)
  rw [hwrite] at hledger
  -- how many bytes were written is nothing that a caller keeps in mind
  exact hledger

namespace Archive

/-- The free-map file, which got these sectors. -/
def mapFile (sectors : Nat) (new : List SectorId) : Archive :=
  (start (formatMap sectors)).filed freeMapSector (.zeros false (formatMap sectors).byteLength new) new

/-- Both files. -/
def twoFiles (sectors : Nat) (new : List SectorId) : Archive :=
  (mapFile sectors new).filed rootSector (.zeros true 0 []) []

/-- A free sector for each of its blocks, and the file is made. -/
theorem createAt_ok {a : Archive} {x : SectorId} {length : Nat} {new : List SectorId}
    (h : claim a.freeMap 0 length = .ok new) (isDir : Bool) :
    a.createAt x length isDir = (.ok (), a.filed x (.zeros isDir length new) new) := by
  unfold createAt
  rw [h]

theorem createAt_error {a : Archive} {x : SectorId} {length : Nat} {e : Error}
    (h : claim a.freeMap 0 length = .error e) (isDir : Bool) :
    a.createAt x length isDir = (.error e, a) := by
  unfold createAt
  rw [h]

theorem sectors_twoFiles (sectors : Nat) (new : List SectorId) :
    (twoFiles sectors new).freeMap.sectors = sectors :=
  (FreeMap.sectors_foldl _ [] true).trans (FreeMap.sectors_foldl (formatMap sectors) new true)

/-- No reserved sector is left. -/
theorem twoFiles_noSpare {sectors : Nat} (hsectors : 0 < sectors) (new : List SectorId) (s : SectorId) :
    (twoFiles sectors new).spare s = false := by
  show Function.update (Function.update (start (formatMap sectors)).spare freeMapSector false) rootSector
    false s = false
  by_cases hone : s = rootSector
  · rw [hone, Function.update_self]
  by_cases hzero : s = freeMapSector
  · rw [hzero, Function.update_of_ne (by decide), Function.update_self]
  rw [Function.update_of_ne hone, Function.update_of_ne hzero]
  show (decide (s.toNat < sectors) && (formatMap sectors).taken s.toNat) = false
  have hone' : s.toNat ≠ 1 := fun he => hone (UInt32.toNat_inj.mp he)
  have hzero' : s.toNat ≠ 0 := fun he => hzero (UInt32.toNat_inj.mp he)
  rw [taken_formatMap hsectors]
  simp [hone', hzero']

end Archive

section Formatting

variable {δ : Type} {n limit : Nat} [BlockDevice δ] [LawfulDevice δ] {device : δ} {store : Store δ n}
  {sectors : Nat} {new : List SectorId} {p : Plain}

/-- A file that is too long is refused at once. -/
theorem createAt_long {length : Nat} (x : SectorId) (isDir : Bool) (h : maxFileSize < length) :
    Inode.createAt x length isDir = .halt (.refused .fileTooLarge) := by
  unfold Inode.createAt build grow
  rw [if_pos h]
  rfl

/-- Both sectors are reserved for a file. -/
theorem Archive.start_spare (hsectors : 2 ≤ sectors) {s : SectorId} (hs : s.toNat < 2) :
    (Archive.start (formatMap sectors)).spare s = true := by
  have hlow : s.toNat = 0 ∨ s.toNat = 1 := by omega
  have hinside : s.toNat < sectors := by omega
  show (decide (s.toNat < sectors) && (formatMap sectors).taken s.toNat) = true
  rw [taken_formatMap (by omega), decide_eq_true hinside]
  rcases hlow with hlow | hlow <;> simp [hlow]

theorem length_formatMap (sectors : Nat) : (formatMap sectors).byteLength = (sectors + 7) / 8 := rfl

/-- A free map that fits into a file is not for too many sectors. -/
theorem sectors_le_of_length (hlong : (formatMap sectors).byteLength ≤ maxFileSize) :
    sectors ≤ UInt32.size := by
  have hsize : maxFileSize = 8460288 := rfl
  have hnumbers : UInt32.size = 4294967296 := rfl
  rw [length_formatMap] at hlong
  omega

section Files

variable (hcount : BlockDevice.sectorCount device = sectors) (hsectors : 2 ≤ sectors)
include hcount hsectors

/-- The archive that the files are made in. -/
theorem start_represents (hmax : sectors ≤ UInt32.size) :
    Represents (Plain.unmounted device (formatMap sectors)) (.start (formatMap sectors)) :=
  ⟨Archive.start_sound (formatMap_lawful hsectors hmax), rfl, Nat.le_of_eq hcount.symm,
    Registry.lists_empty, nofun⟩

/-- The free-map file is made if there are free sectors for the free map. -/
theorem mapFile_runs
    (hclaim : claim (formatMap sectors) 0 (formatMap sectors).byteLength = .ok new) :
    Gives true (Inode.createAt freeMapSector (formatMap sectors).byteLength false)
      (Plain.unmounted device (formatMap sectors)) (.ok (), .mapFile sectors new) := by
  have hp := start_represents hcount hsectors (sectors_le_of_length (claim_ok hclaim))
  have hfirst := hp.createAt (Archive.start_spare hsectors (s := freeMapSector) (by decide))
    (formatMap sectors).byteLength false
  rw [Archive.createAt_ok hclaim] at hfirst
  exact hfirst

omit hcount in
/-- Then the root directory is, since a file without bytes needs no sector. -/
theorem root_runs (hp : Represents p (.mapFile sectors new)) :
    Gives true (Inode.createAt rootSector 0 true) p (.ok (), .twoFiles sectors new) := by
  have hroot : (Archive.mapFile sectors new).spare rootSector = true := by
    show Function.update (Archive.start (formatMap sectors)).spare freeMapSector false rootSector = true
    rw [Function.update_of_ne (by decide)]
    exact Archive.start_spare hsectors (by decide)
  have hsecond := hp.createAt hroot 0 true
  rw [Archive.createAt_ok (claim_inside _ (Nat.le_refl 0) (Nat.zero_le _))] at hsecond
  exact hsecond

/-- **Both files are made**, and no block is looked at that was on the device before. -/
theorem makeFiles_informed
    (hclaim : claim (formatMap sectors) 0 (formatMap sectors).byteLength = .ok new) :
    ∃ p', Informed true (fun _ => False) (makeFiles (formatMap sectors).byteLength)
        (Plain.unmounted device (formatMap sectors)) (.ok ()) p'
        (Archive.twoFiles sectors new).freeMap.HasTaken ∧
      Represents p' (.twoFiles sectors new) := by
  have hp := start_represents hcount hsectors (sectors_le_of_length (claim_ok hclaim))
  obtain ⟨p₁, hfirst, hp₁⟩ := mapFile_runs hcount hsectors hclaim
  obtain ⟨p₂, hsecond, hp₂⟩ := root_runs hsectors hp₁
  have hmade : Informed true (fun _ => False) (Inode.createAt freeMapSector _ false) _ (.ok ()) p₁ _ :=
    createAt_informed hp.lawful hp.inside hfirst
  refine ⟨p₂, (hmade.bind (createAt_informed hp₁.lawful hp₁.inside hsecond)).narrow ?_, hp₂⟩
  intro t ht
  have hcount₁ : p₁.count = sectors := hfirst.count_eq.trans hcount
  have hcount₂ : p₂.count = (Archive.twoFiles sectors new).freeMap.sectors :=
    (hsecond.count_eq.trans hcount₁).trans (Archive.sectors_twoFiles sectors new).symm
  have hpermits := (hp₂.permits_iff hcount₂).mpr ht
  have hlt : t.toNat < sectors := hcount₁ ▸ hsecond.count_eq ▸ hpermits.1
  -- the sector was reserved, or it has been taken for one of the files
  cases hbefore : p₁.freeMap.taken t.toNat with
  | false => exact .inr (.inr ⟨hbefore, hpermits⟩)
  | true =>
    cases hreserved : (formatMap sectors).taken t.toNat with
    | false => exact .inr (.inl (.inr (.inr ⟨hreserved, hcount₁ ▸ hlt, fun _ => hbefore⟩)))
    | true =>
      rw [taken_formatMap (by omega), decide_eq_false (Nat.not_le_of_lt hlt), Bool.or_false,
        Bool.or_eq_true, beq_iff_eq, beq_iff_eq] at hreserved
      rcases hreserved with hone | hzero
      · exact .inl (UInt32.toNat_inj.mp hone)
      · exact .inr (.inl (.inl (UInt32.toNat_inj.mp hzero)))

/-- Else they are not, also where the free map is too long for a file. -/
theorem makeFiles_refused {e : Error}
    (hclaim : claim (formatMap sectors) 0 (formatMap sectors).byteLength = .error e) :
    ∃ p', Informed true (fun _ => False) (makeFiles (formatMap sectors).byteLength)
      (Plain.unmounted device (formatMap sectors)) (.error (.refused e)) p' fun _ => False := by
  unfold makeFiles
  by_cases hlong : maxFileSize < (formatMap sectors).byteLength
  · rw [claim_long _ _ hlong] at hclaim
    cases hclaim
    rw [createAt_long _ _ hlong]
    exact ⟨_, .halt fun _ h => h⟩
  · have hp := start_represents hcount hsectors (sectors_le_of_length (Nat.le_of_not_lt hlong))
    obtain ⟨p₁, hfirst, -⟩ := hp.createAt
      (Archive.start_spare hsectors (s := freeMapSector) (by decide)) (formatMap sectors).byteLength false
    rw [Archive.createAt_error hclaim] at hfirst
    exact ⟨p₁, (createAt_informed hp.lawful hp.inside hfirst).bind_halt⟩

end Files

/-! ## The volume -/

/-- The volume keeps the file that was made for it. -/
theorem Archive.twoFiles_kept (hsectors : 2 ≤ sectors) : (twoFiles sectors new).attended.Kept where
  mapFile := by
    refine ⟨.zeros false (formatMap sectors).byteLength new, rfl, ?_⟩
    · show ((twoFiles sectors new).freeMap.sectors + 7) / 8 ≤ _
      rw [sectors_twoFiles]
      exact Nat.le_of_eq Array.size_replicate.symm
  held := ⟨⟨1, 0, false, false⟩, rfl, rfl⟩
  noSpare := twoFiles_noSpare (by omega) new

/-- What a caller sees of it. -/
theorem Archive.ledger_twoFiles (hsectors : 2 ≤ sectors) :
    (twoFiles sectors new).attended.ledger.persisted (twoFiles sectors new).freeMap =
      .formatted (twoFiles sectors new).freeMap := by
  have hlength : (twoFiles sectors new).freeMap.byteLength = (formatMap sectors).byteLength := by
    unfold FreeMap.byteLength
    rw [sectors_twoFiles]
    rfl
  have hspare : (twoFiles sectors new).spare = fun _ => false :=
    funext (twoFiles_noSpare (by omega) new)
  have hledger : (twoFiles sectors new).ledger =
      (Ledger.withFile ⟨fun _ => none, fun _ => none, fun _ => false⟩ freeMapSector
        (.zeros false (twoFiles sectors new).freeMap.byteLength)).withFile rootSector (.zeros true 0) := by
    rw [hlength, ← hspare, twoFiles, mapFile, ledger_filed, ledger_filed]
    rfl
  unfold Ledger.formatted
  rw [← hledger]
  rfl

/-- **The volume is persisted** once its files are made and the first of them is open. -/
theorem twoFiles_persists (hsectors : 2 ≤ sectors) (hp : Represents p (.twoFiles sectors new)) :
    Gives true (do let _ ← Routine.openInode freeMapSector; persist) p
      (.ok (), (Archive.twoFiles sectors new).attended.persisted) := by
  have hkept : (Archive.twoFiles sectors new).attended.Kept := Archive.twoFiles_kept hsectors
  obtain ⟨f, hf, -⟩ := hkept.mapFile
  obtain ⟨p', hpersist, hp'⟩ := (hp.attend (congrArg Option.isSome hf)).persist hkept
  exact ⟨p', (Runs.openInode _).bind hpersist, hp'⟩

/-- It is then one in use. -/
theorem Archive.twoFiles_persisted (hsectors : 2 ≤ sectors) (hp : Represents p (.twoFiles sectors new)) :
    (twoFiles sectors new).attended.persisted.Kept ∧
      (twoFiles sectors new).attended.persisted.freeMap = (twoFiles sectors new).freeMap ∧
      (twoFiles sectors new).attended.persisted.ledger =
        .formatted (twoFiles sectors new).attended.persisted.freeMap := by
  have hkept : (twoFiles sectors new).attended.Kept := twoFiles_kept hsectors
  obtain ⟨f, hf, -⟩ := hkept.mapFile
  have hattended := hp.attend (congrArg Option.isSome hf)
  have hmap := hkept.freeMap_persisted hattended.sound (hattended.mapFile_size hkept.houses)
  refine ⟨hkept.write 0 _, hmap, ?_⟩
  rw [ledger_persisted hattended hkept.houses, hmap]
  exact ledger_twoFiles hsectors

/-- Both are opened and persisted, and the device has what the volume can be taken up from again. -/
theorem twoFiles_saved (hsectors : 2 ≤ sectors) (hn : 0 < n) (hs : Stands store p)
    (hp : Represents p (.twoFiles sectors new)) (hcount : p.count = sectors) :
    ∃ saved log p', store.run (do let _ ← Routine.openInode freeMapSector; persist) =
        ⟨.ok (.ok ()), saved, log⟩ ∧
      Serves saved p' (Archive.twoFiles sectors new).attended.persisted ∧
      OnDevice saved.cache.device (Archive.twoFiles sectors new).attended.persisted := by
  have hkept : (Archive.twoFiles sectors new).attended.Kept := Archive.twoFiles_kept hsectors
  obtain ⟨f, hf, -⟩ := hkept.mapFile
  have hattended := hp.attend (congrArg Option.isSome hf)
  have hopen : Runs true (Routine.openInode freeMapSector) p _ _ := Runs.openInode freeMapSector
  obtain ⟨opened, log, hs', -, hrun⟩ := hopen.run_bind hn hs fun _ => persist
  have hserves : Serves opened _ (Archive.twoFiles sectors new).attended :=
    ⟨hn, hs', hattended, hkept, hcount.trans (Archive.sectors_twoFiles sectors new).symm⟩
  obtain ⟨saved, log', p', hpersist, hsaved, hwritten⟩ := hserves.persist
  rw [hpersist] at hrun
  exact ⟨saved, _, p', hrun, hsaved, hwritten.onDevice hserves hsaved.represents hsaved.count⟩

/-! ## What comes of a format -/

omit [LawfulDevice δ] in
/-- Without the first two sectors there is none. -/
theorem format_few (hfew : BlockDevice.sectorCount device < 2) :
    ∃ e, format n device limit = (.down (.faulted e) device, []) := by
  obtain ⟨e, map, hfault⟩ := reserved_few hfew
  unfold Volume.format
  dsimp only
  rw [hfault]
  exact ⟨e, rfl⟩

omit [LawfulDevice δ] in
/-- With both of them, frames that do not fit into memory are a fault. -/
theorem format_beyond (hsectors : 2 ≤ BlockDevice.sectorCount device) (hn : 0 < n) {e : Fault}
    (hroom : Fault.ofDemand? (n * Frame.footprint) limit = some e) :
    format n device limit = (.down (.faulted e) device, []) := by
  unfold Volume.format Cache.create
  dsimp only
  rw [reserved_eq hsectors, if_neg (Nat.ne_of_gt hn), hroom]

omit [LawfulDevice δ] in
/-- If they do fit, the files are made and the volume is persisted. -/
theorem format_eq (hsectors : 2 ≤ BlockDevice.sectorCount device) (hn : 0 < n)
    (hroom : Fault.ofDemand? (n * Frame.footprint) limit = none) :
    format n device limit =
      bringUp Store.discard ⟨Cache.blank n device, formatMap (BlockDevice.sectorCount device), .empty⟩
        (makeFiles (formatMap (BlockDevice.sectorCount device)).byteLength) fun store =>
      bringUp discard store (do let _ ← Routine.openInode freeMapSector; persist) fun store =>
        (.up store, [.formatted store.freeMap.sectors store.freeMap.freeCount]) := by
  unfold Volume.format
  dsimp only
  rw [reserved_eq hsectors, create_eq hn hroom]

omit [LawfulDevice δ] in
/-- So much a format needs. -/
theorem format_needs (hup : (format n device limit).1 = .up store) :
    2 ≤ BlockDevice.sectorCount device ∧ 0 < n ∧ Fault.ofDemand? (n * Frame.footprint) limit = none := by
  unfold Volume.format at hup
  dsimp only at hup
  split at hup
  · cases hup
  next map log hreserved =>
  obtain ⟨hsectors, -⟩ := reserved_ok hreserved
  split at hup
  · cases hup
  next cache hcache =>
  obtain ⟨hn, hroom, -⟩ := create_ok hcache
  exact ⟨hsectors, hn, hroom⟩

section Enough

variable (hdevice : LawfulDevice.Sound device) (hcount : BlockDevice.sectorCount device = sectors)
  (hsectors : 2 ≤ sectors) (hn : 0 < n) (hroom : Fault.ofDemand? (n * Frame.footprint) limit = none)
include hdevice hcount hsectors hn hroom

/-- **A format is refused** where the free map gets no sectors. -/
theorem format_refused {e : Error}
    (hclaim : claim (formatMap sectors) 0 (formatMap sectors).byteLength = .error e) :
    ∃ device', (format n device limit).1 = .down (.refused e) device' := by
  have hs := unmounted_stands (n := n) hdevice (formatMap sectors)
  obtain ⟨p', hrefused⟩ := makeFiles_refused hcount hsectors hclaim
  obtain ⟨store', log, hrun, -⟩ := hrefused.runs.run_eq hn hs
  rw [format_eq (hcount ▸ hsectors) hn hroom, hcount, bringUp_refused _ hrun]
  exact ⟨_, rfl⟩

/-- **A format brings its volume up** where the free map gets its sectors, and all of the volume is on the
device. -/
theorem format_persists
    (hclaim : claim (formatMap sectors) 0 (formatMap sectors).byteLength = .ok new) :
    ∃ (store : Store δ n) (p₁ p₂ : Plain), (format n device limit).1 = .up store ∧
      Represents p₁ (.twoFiles sectors new) ∧
      Serves store p₂ (Archive.twoFiles sectors new).attended.persisted ∧
      OnDevice store.cache.device (Archive.twoFiles sectors new).attended.persisted := by
  have hs := unmounted_stands (n := n) hdevice (formatMap sectors)
  obtain ⟨p₁, hmade, hp₁⟩ := makeFiles_informed hcount hsectors hclaim
  obtain ⟨made, log, hrun, hs₁, -⟩ := hmade.runs.run_eq hn hs
  obtain ⟨saved, log', p₂, hrun', hsaved, hondevice⟩ :=
    twoFiles_saved hsectors hn hs₁ hp₁ (hmade.runs.count_eq.trans hcount)
  rw [format_eq (hcount ▸ hsectors) hn hroom, hcount, bringUp_done _ hrun]
  dsimp only
  rw [bringUp_done _ hrun']
  exact ⟨saved, p₁, p₂, rfl, hp₁, hsaved, hondevice⟩

end Enough

/-- **A format that brings its volume up** leaves one that is in use, with both files. -/
theorem format_serves (hdevice : LawfulDevice.Sound device) (hup : (format n device limit).1 = .up store) :
    ∃ p a, Serves store p a ∧ a.ledger = .formatted a.freeMap := by
  obtain ⟨hsectors, hn, hroom⟩ := format_needs hup
  cases hclaim : claim (formatMap (BlockDevice.sectorCount device)) 0
      (formatMap (BlockDevice.sectorCount device)).byteLength with
  | error e =>
    obtain ⟨device', hdown⟩ := format_refused hdevice rfl hsectors hn hroom hclaim
    cases hup.symm.trans hdown
  | ok new =>
    obtain ⟨saved, p₁, p₂, hup', hp₁, hserves, -⟩ := format_persists hdevice rfl hsectors hn hroom hclaim
    cases hup.symm.trans hup'
    obtain ⟨-, -, hledger⟩ := Archive.twoFiles_persisted hsectors hp₁
    exact ⟨p₂, _, hserves, hledger⟩

end Formatting

end InodeStore
