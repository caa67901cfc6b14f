import InodeStore.Proofs.Session.Semantics
import InodeStore.Volume

/-!
# `Proofs.Volume.Clients` — what the clients of a volume may do

The free map of a volume is a file, which the volume keeps open. Clients may ask for whatever may be asked
for of a store (`Ledger.Admits`); the free-map file, too, may be opened and used, but only through handles
of the client's own, and nobody may keep the volume from writing to it. Then the free-map file stays as
long as the volume is in use, never gets shorter than the free map, and can be written to
(`Archive.Kept.reply`). `Serves` is a volume in use, and `Serves.answered` what it answers.

But for the last point this holds also of clients who do keep the volume from writing (`Ledger.Concedes`,
`Archive.Houses.reply`, `Hosts`).
-/

namespace InodeStore

open Inode Volume

/-! ## Operations of clients -/

/-- The handle that an operation is asked for through. -/
def Operation.handle? : Operation → Option Handle
  | .reopen handle | .close handle | .drop handle | .remove handle | .denyWrite handle
  | .allowWrite handle | .read handle _ _ | .write handle _ _ | .length handle | .isDir handle
  | .sectorOfByte handle _ | .ownedSectors handle | .openCount handle | .isRemoved handle => some handle
  | .create _ _ | .createAt _ _ _ | .openInode _ | .openInodes | .flush | .reset => none

/-- Does an operation keep others from writing? -/
def Operation.denies : Operation → Bool
  | .denyWrite _ => true
  | _ => false

/-- What clients may ask for. One of the handles on the free-map file is the volume's. -/
def Ledger.Admits (ledger : Ledger) (o : Operation) : Prop :=
  ledger.Permits o ∧ (o.handle? = some freeMapFile →
    1 < (ledger.entry freeMapFile).openCount ∧ o.denies = false)

instance (ledger : Ledger) (o : Operation) : Decidable (ledger.Admits o) :=
  inferInstanceAs (Decidable (_ ∧ _))

/-- What clients may ask for that may also keep the volume from writing. They leave it its handle. -/
def Ledger.Concedes (ledger : Ledger) (o : Operation) : Prop :=
  ledger.Permits o ∧ (o.handle? = some freeMapFile → 1 < (ledger.entry freeMapFile).openCount)

instance (ledger : Ledger) (o : Operation) : Decidable (ledger.Concedes o) :=
  inferInstanceAs (Decidable (_ ∧ _))

theorem Ledger.Admits.concedes {ledger : Ledger} {o : Operation} (h : ledger.Admits o) : ledger.Concedes o :=
  ⟨h.1, fun he => (h.2 he).1⟩

/-! ## The free-map file -/

theorem FreeMap.sectors_foldl (map : FreeMap) (l : List SectorId) (b : Bool) :
    (l.foldl (fun map s => map.assign s.toNat b) map).sectors = map.sectors := by
  induction l generalizing map with
  | nil => rfl
  | cons s rest ih => exact ih (map.assign s.toNat b)

namespace Archive

/-- The free-map file is there, long enough for the free map, and open to be written to. No sector is
    reserved. -/
structure Kept (a : Archive) : Prop where
  mapFile : ∃ f, a.record? freeMapSector = some f ∧ a.freeMap.byteLength ≤ f.bytes.size
  held : ∃ inode, a.open? freeMapSector = some inode ∧ inode.denyCount = 0
  noSpare : ∀ s, a.spare s = false

/-- The free-map file is there, long enough for the free map, and open, with so many denials of writing. No
    sector is reserved. -/
structure Houses (denials : Nat → Prop) (a : Archive) : Prop where
  mapFile : ∃ f, a.record? freeMapSector = some f ∧ a.freeMap.byteLength ≤ f.bytes.size
  held : ∃ inode, a.open? freeMapSector = some inode ∧ denials inode.denyCount
  noSpare : ∀ s, a.spare s = false

variable {a : Archive} {x : SectorId} {f : FileRecord} {new : List SectorId} {handle : Handle}
  {denials denials' : Nat → Prop}

theorem Houses.mono (h : a.Houses denials) (hdenials : ∀ k, denials k → denials' k) : a.Houses denials' := by
  obtain ⟨inode, hinode, hdeny⟩ := h.held
  exact ⟨h.mapFile, ⟨inode, hinode, hdenials _ hdeny⟩, h.noSpare⟩

/-- It can be written to if there are none. -/
theorem kept_iff : a.Kept ↔ a.Houses (· = 0) :=
  ⟨fun h => ⟨h.mapFile, h.held, h.noSpare⟩, fun h => ⟨h.mapFile, h.held, h.noSpare⟩⟩

theorem Kept.houses (h : a.Kept) : a.Houses fun _ => True := (kept_iff.mp h).mono fun _ _ => trivial

theorem Houses.kept (h : a.Houses denials) (hdeny : (a.ledger.entry freeMapFile).denyCount = 0) : a.Kept := by
  obtain ⟨inode, hinode, -⟩ := h.held
  have hentry : a.ledger.entry freeMapFile = inode := congrArg (Option.getD · _) hinode
  exact ⟨h.mapFile, ⟨inode, hinode, hentry ▸ hdeny⟩, h.noSpare⟩

theorem byteLength_filed (a : Archive) (x : SectorId) (f : FileRecord) (new : List SectorId) :
    (a.filed x f new).freeMap.byteLength = a.freeMap.byteLength :=
  congrArg (fun n => (n + 7) / 8) (a.freeMap.sectors_foldl new true)

theorem byteLength_released (a : Archive) (x : SectorId) (f : FileRecord) :
    (a.released x f).freeMap.byteLength = a.freeMap.byteLength :=
  congrArg (fun n => (n + 7) / 8) (a.freeMap.sectors_foldl (f.sectors x) false)

/-- A file is put somewhere, where the free-map file is only if it stays long enough. -/
theorem Houses.filed (h : a.Houses denials)
    (hx : x = freeMapSector → a.freeMap.byteLength ≤ f.bytes.size) : (a.filed x f new).Houses denials := by
  constructor
  case mapFile =>
    rw [a.byteLength_filed]
    by_cases he : freeMapSector = x
    · rw [he]
      exact ⟨f, Function.update_self _ _ _, hx he.symm⟩
    · obtain ⟨g, hg, hlong⟩ := h.mapFile
      exact ⟨g, (Function.update_of_ne he _ _).trans hg, hlong⟩
  case held => exact h.held
  case noSpare =>
    intro s
    show Function.update a.spare x false s = false
    by_cases he : s = x
    · rw [he, Function.update_self]
    · rw [Function.update_of_ne he, h.noSpare]

/-- What is known of an inode changes. -/
theorem Houses.attend (h : a.Houses denials) {entry : Option OpenInode}
    (hentry : x = freeMapSector → ∃ inode, entry = some inode ∧ denials inode.denyCount) :
    Houses denials { a with open? := Function.update a.open? x entry } := by
  refine ⟨h.mapFile, ?_, h.noSpare⟩
  by_cases he : freeMapSector = x
  · obtain ⟨inode, hinode, hdeny⟩ := hentry he.symm
    rw [he]
    exact ⟨inode, (Function.update_self x entry a.open?).trans hinode, hdeny⟩
  · obtain ⟨inode, hinode, hdeny⟩ := h.held
    exact ⟨inode, (Function.update_of_ne he _ _).trans hinode, hdeny⟩

theorem Houses.denyCount (h : a.Houses denials) (hhandle : handle.sector = freeMapSector) :
    denials (a.ledger.entry handle).denyCount := by
  obtain ⟨inode, hinode, hdeny⟩ := h.held
  have hentry : a.ledger.entry handle = inode := by
    unfold Ledger.entry
    rw [hhandle]
    exact congrArg (Option.getD · _) hinode
  rw [hentry]
  exact hdeny

/-- An inode stays open, and the denials are such as they may be or it is not the free-map file's. -/
theorem Houses.change (h : a.Houses denials) {change : OpenInode → OpenInode}
    (hdeny : handle.sector = freeMapSector → ∀ inode, denials inode.denyCount → denials (change inode).denyCount) :
    (a.change handle change).Houses denials := by
  apply h.attend
  intro he
  exact ⟨_, rfl, hdeny he _ (h.denyCount he)⟩

/-- A file other than the free-map file goes. -/
theorem Houses.released (h : a.Houses denials) (hx : x ≠ freeMapSector) : (a.released x f).Houses denials := by
  obtain ⟨g, hg, hlong⟩ := h.mapFile
  obtain ⟨inode, hinode, hdeny⟩ := h.held
  refine ⟨⟨g, (Function.update_of_ne hx.symm _ _).trans hg, ?_⟩,
    ⟨inode, (Function.update_of_ne hx.symm _ _).trans hinode, hdeny⟩, h.noSpare⟩
  rw [a.byteLength_released]
  exact hlong

/-- A free sector is not the free-map file's. -/
theorem Houses.ne_of_free (h : a.Houses denials) (hs : a.Sound) (hx : a.freeMap.taken x.toNat = false) :
    x ≠ freeMapSector := by
  rintro rfl
  obtain ⟨f, hf, -⟩ := h.mapFile
  rw [(hs.owned hf (self_mem_sectors f _)).2] at hx
  cases hx

theorem Houses.create (h : a.Houses denials) (hs : a.Sound) (length : Nat) (isDir : Bool) :
    (a.create length isDir).2.Houses denials := by
  unfold Archive.create
  cases hclaim : claimNew a.freeMap length with
  | error e => exact h
  | ok claimed =>
    obtain ⟨x, new⟩ := claimed
    have hfree := hs.lawful.nextFree?_free (claimNew_ok hclaim).1
    exact h.filed fun he => absurd he (h.ne_of_free hs hfree)

theorem Houses.close (h : a.Houses denials)
    (hhandle : handle = freeMapFile → 1 < (a.ledger.entry freeMapFile).openCount) :
    (a.close handle).Houses denials := by
  unfold Archive.close
  split
  · exact h.change fun _ inode hdeny => hdeny
  · next hone =>
    have hne : handle.sector ≠ freeMapSector := by
      intro he
      obtain ⟨x⟩ := handle
      obtain rfl : x = freeMapSector := he
      exact hone (hhandle rfl)
    split
    · exact h.released hne
    · exact h.attend fun he => absurd he hne

/-- The file that was put at a sector. -/
theorem record_filed (a : Archive) (x : SectorId) (f : FileRecord) (new : List SectorId) :
    (a.filed x f new).record ⟨x⟩ = f := congrArg (Option.getD · _) (Function.update_self x _ a.record?)

theorem size_written (f : FileRecord) (offset : Nat) (data : Bytes) (new : List SectorId) :
    (f.written offset data new).bytes.size = max f.bytes.size (offset + data.size) := by
  have hpadded : (padded f.bytes (max f.bytes.size (offset + data.size))).size =
      max f.bytes.size (offset + data.size) := size_padded (Nat.le_max_left _ _)
  show (patched (padded _ _) offset data).size = _
  rw [size_patched (by rw [hpadded]; exact Nat.le_max_right _ _), hpadded]

theorem Houses.write (h : a.Houses denials) (offset : Nat) (data : Bytes) :
    (a.write handle offset data).2.Houses denials := by
  unfold Archive.write
  by_cases hskips : a.ledger.Skips handle data
  · rw [if_pos hskips]
    exact h
  rw [if_neg hskips]
  cases claim a.freeMap (a.record handle).bytes.size (offset + data.size) with
  | error e => exact h
  | ok new =>
    apply h.filed
    intro he
    obtain ⟨f, hf, hlong⟩ := h.mapFile
    have hrecord : a.record handle = f := by
      unfold Archive.record
      rw [he]
      exact congrArg (Option.getD · _) hf
    rw [size_written, hrecord]
    exact Nat.le_trans hlong (Nat.le_max_left _ _)

/-- **The free-map file stays**, whatever clients may ask for. Its denials are such as they may be if these go
    on so when one is taken back and when one is added that a client may ask for. -/
theorem Houses.reply (h : a.Houses denials) (hs : a.Sound) {o : Operation} (hconcedes : a.ledger.Concedes o)
    (hdeny : o.handle? = some freeMapFile → o.denies = true → ∀ k, denials k → denials (k + 1))
    (hallow : ∀ k, denials k → denials (k - 1)) : (a.reply o).2.Houses denials := by
  obtain ⟨hpermits, hhandle⟩ := hconcedes
  cases o with
  | create length isDir => exact h.create hs length isDir
  | createAt x length isDir =>
    have hspare : a.spare x = true := hpermits
    rw [h.noSpare] at hspare
    cases hspare
  | openInode x =>
    show (a.change ⟨x⟩ fun inode => { inode with openCount := inode.openCount + 1 }).Houses denials
    exact h.change fun _ _ hdeny => hdeny
  | reopen handle =>
    show (a.change handle fun inode => { inode with openCount := inode.openCount + 1 }).Houses denials
    exact h.change fun _ _ hdeny => hdeny
  | close handle => exact h.close fun he => hhandle (congrArg some he)
  | remove handle =>
    show (a.change handle fun inode => { inode with removed := true }).Houses denials
    exact h.change fun _ _ hdeny => hdeny
  | denyWrite handle =>
    show (a.change handle fun inode => { inode with denyCount := inode.denyCount + 1 }).Houses denials
    apply h.change
    intro he
    obtain ⟨x⟩ := handle
    obtain rfl : x = freeMapSector := he
    exact fun inode => hdeny rfl rfl inode.denyCount
  | allowWrite handle =>
    show (a.change handle fun inode => { inode with denyCount := inode.denyCount - 1 }).Houses denials
    exact h.change fun _ inode => hallow inode.denyCount
  | write handle offset data => exact h.write offset data
  | _ => exact h

/-! What can be written to stays so. -/

theorem Kept.denyCount (h : a.Kept) (hhandle : handle.sector = freeMapSector) :
    (a.ledger.entry handle).denyCount = 0 := (kept_iff.mp h).denyCount hhandle

theorem Kept.change (h : a.Kept) {change : OpenInode → OpenInode}
    (hdeny : handle.sector = freeMapSector → ∀ inode, inode.denyCount = 0 → (change inode).denyCount = 0) :
    (a.change handle change).Kept := kept_iff.mpr ((kept_iff.mp h).change hdeny)

theorem Kept.released (h : a.Kept) (hx : x ≠ freeMapSector) : (a.released x f).Kept :=
  kept_iff.mpr ((kept_iff.mp h).released hx)

theorem Kept.write (h : a.Kept) (offset : Nat) (data : Bytes) : (a.write handle offset data).2.Kept :=
  kept_iff.mpr ((kept_iff.mp h).write offset data)

/-- **The free-map file is kept** by whatever clients may ask for. -/
theorem Kept.reply (h : a.Kept) (hs : a.Sound) {o : Operation} (hadmits : a.ledger.Admits o) :
    (a.reply o).2.Kept := by
  refine kept_iff.mpr ((kept_iff.mp h).reply hs hadmits.concedes ?_ ?_)
  · intro he hdenies
    rw [(hadmits.2 he).2] at hdenies
    cases hdenies
  · intro k hk
    rw [hk]

/-- The number of sectors of the free map stays. -/
theorem sectors_reply (a : Archive) (o : Operation) :
    (a.reply o).2.freeMap.sectors = a.freeMap.sectors := by
  cases o with
  | create length isDir =>
    show (a.create length isDir).2.freeMap.sectors = _
    unfold Archive.create
    split
    · exact a.freeMap.sectors_foldl _ true
    · rfl
  | createAt x length isDir =>
    show (a.createAt x length isDir).2.freeMap.sectors = _
    unfold Archive.createAt
    split
    · exact a.freeMap.sectors_foldl _ true
    · rfl
  | close handle =>
    show (a.close handle).freeMap.sectors = _
    unfold Archive.close
    split
    · rfl
    · split
      · exact a.freeMap.sectors_foldl _ false
      · rfl
  | write handle offset data =>
    show (a.write handle offset data).2.freeMap.sectors = _
    unfold Archive.write
    dsimp only
    split
    · rfl
    · split
      · exact a.freeMap.sectors_foldl _ true
      · rfl
  | _ => rfl

end Archive

/-! ## Volumes in use -/

/-- A sector is one of the map's, and taken. -/
def FreeMap.HasTaken (map : FreeMap) (t : SectorId) : Prop :=
  t.toNat < map.sectors ∧ map.taken t.toNat = true

/-- If the free map is for all blocks, those of taken sectors may be used. -/
theorem Represents.permits_iff {p : Plain} {a : Archive} {t : SectorId} (h : Represents p a)
    (hcount : p.count = a.freeMap.sectors) : p.Permits true t ↔ a.freeMap.HasTaken t := by
  unfold Plain.Permits FreeMap.HasTaken
  rw [hcount, h.freeMap]
  exact and_congr_right fun _ => ⟨fun h => h rfl, fun h _ => h⟩

section Serves

variable {δ : Type} {n : Nat} [BlockDevice δ] [LawfulDevice δ] {store : Store δ n} {p : Plain}
  {a : Archive}

/-- A store is that of a volume in use, which has an archive: the free map is for all sectors of the device
    and has a file. -/
structure Serves (store : Store δ n) (p : Plain) (a : Archive) : Prop where
  frames : 0 < n
  stands : Stands store p
  represents : Represents p a
  kept : a.Kept
  count : p.count = a.freeMap.sectors

/-- A store is that of a volume whose clients may have kept it from writing to its free-map file. -/
structure Hosts (store : Store δ n) (p : Plain) (a : Archive) : Prop where
  frames : 0 < n
  stands : Stands store p
  represents : Represents p a
  houses : a.Houses fun _ => True
  count : p.count = a.freeMap.sectors

theorem Serves.hosts (h : Serves store p a) : Hosts store p a :=
  ⟨h.frames, h.stands, h.represents, h.kept.houses, h.count⟩

theorem Hosts.serves (h : Hosts store p a) (hkept : a.Kept) : Serves store p a :=
  ⟨h.frames, h.stands, h.represents, hkept, h.count⟩

theorem Hosts.freeMap_eq (h : Hosts store p a) : store.freeMap = a.freeMap :=
  h.stands.freeMap.trans h.represents.freeMap

/-- What a client may ask for is answered, also where the volume is kept from writing. -/
theorem Hosts.answered (h : Hosts store p a) {o : Operation} (hconcedes : a.ledger.Concedes o) :
    ∃ store' log p', o.run store = ⟨.ok (a.reply o).1, store', log⟩ ∧ Hosts store' p' (a.reply o).2 := by
  obtain ⟨store', log, p', hrun, hs, hr, hcount⟩ :=
    h.represents.answered_count h.frames h.stands hconcedes.1
  have hhouses := h.houses.reply h.represents.sound hconcedes (fun _ _ _ => id) fun _ => id
  refine ⟨store', log, p', hrun, h.frames, hs, hr, hhouses, ?_⟩
  rw [hcount, h.count, a.sectors_reply]

/-- **A client's operation** is answered as by the archive, and the volume stays in use. -/
theorem Serves.answered (h : Serves store p a) {o : Operation} (hadmits : a.ledger.Admits o) :
    ∃ store' log p', o.run store = ⟨.ok (a.reply o).1, store', log⟩ ∧ Serves store' p' (a.reply o).2 := by
  obtain ⟨store', log, p', hrun, hhosts⟩ := h.hosts.answered hadmits.concedes
  exact ⟨store', log, p', hrun, hhosts.serves (h.kept.reply h.represents.sound hadmits)⟩

/-- The free-map file is open. -/
theorem Archive.Houses.hasOpen {denials : Nat → Prop} (h : a.Houses denials) : a.ledger.HasOpen freeMapFile := by
  obtain ⟨inode, hinode, -⟩ := h.held
  exact congrArg Option.isSome hinode

theorem Archive.Kept.hasOpen (h : a.Kept) : a.ledger.HasOpen freeMapFile := h.houses.hasOpen

end Serves

end InodeStore
