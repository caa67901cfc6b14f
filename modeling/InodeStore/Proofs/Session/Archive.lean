import InodeStore.Proofs.Inode.Handles
import InodeStore.Proofs.Session.Ledger

/-!
# `Proofs.Session.Archive` — what determines the answers

An `Archive` is a ledger with the free map and, for every live file, the sectors it owns. All answers are
functions of it, also which sector a new file gets and whether there is one (`Archive.reply`), so whatever
is not in it can be told by nobody.

`Archive.Sound` is what holds of the archives that come up: no sector is owned twice, by one file or by
two, and a sector is taken exactly if a file owns it or the caller has reserved it. What files that are
made, lengthened or given back do to an archive is `filed` and `released`, and both keep it sound.
-/

namespace InodeStore

open Inode

/-- A ledger with the sectors of its files and the free map. -/
structure Archive where
  record? : SectorId → Option FileRecord
  open? : SectorId → Option OpenInode
  spare : SectorId → Bool
  freeMap : FreeMap

/-- What a caller sees of a file on record. -/
def Inode.FileRecord.file (f : FileRecord) : File := ⟨f.isDir, f.bytes⟩

namespace Archive

/-- What a caller sees of it. -/
def ledger (a : Archive) : Ledger := ⟨fun s => (a.record? s).map FileRecord.file, a.open?, a.spare⟩

/-- The file of a handle. -/
def record (a : Archive) (handle : Handle) : FileRecord :=
  (a.record? handle.sector).getD ⟨false, #[], []⟩

/-- A file is put at a sector, for which others are taken. -/
def filed (a : Archive) (x : SectorId) (f : FileRecord) (new : List SectorId) : Archive where
  record? := Function.update a.record? x (some f)
  open? := a.open?
  spare := Function.update a.spare x false
  freeMap := a.freeMap.takeAll new

/-- A file goes and gives its sectors back. -/
def released (a : Archive) (x : SectorId) (f : FileRecord) : Archive where
  record? := Function.update a.record? x none
  open? := Function.update a.open? x none
  spare := a.spare
  freeMap := a.freeMap.giveAll (f.sectors x)

/-- What is known of an inode changes. -/
def change (a : Archive) (handle : Handle) (f : OpenInode → OpenInode) : Archive :=
  { a with
    open? := Function.update a.open? handle.sector
      (some (f ((a.open? handle.sector).getD .fresh))) }

/-- Nobody has a file open any more. -/
def shut (a : Archive) (x : SectorId) : Archive := { a with open? := Function.update a.open? x none }

/-- The end of a handle. -/
def close (a : Archive) (handle : Handle) : Archive :=
  if 1 < (a.ledger.entry handle).openCount then
    a.change handle fun inode => { inode with openCount := inode.openCount - 1 }
  else if (a.ledger.entry handle).removed then a.released handle.sector (a.record handle)
  else a.shut handle.sector

/-- A new file, which gets the sectors that are taken next. -/
def create (a : Archive) (length : Nat) (isDir : Bool) : Except Error SectorId × Archive :=
  match claimNew a.freeMap length with
  | .ok (x, new) => (.ok x, a.filed x (.zeros isDir length new) (x :: new))
  | .error e => (.error e, a)

/-- A new file at a sector that was reserved. -/
def createAt (a : Archive) (x : SectorId) (length : Nat) (isDir : Bool) : Except Error Unit × Archive :=
  match claim a.freeMap 0 length with
  | .ok new => (.ok (), a.filed x (.zeros isDir length new) new)
  | .error e => (.error e, a)

/-- A write, which lengthens the file if it has to. -/
def write (a : Archive) (handle : Handle) (offset : Nat) (data : Bytes) : Except Error Nat × Archive :=
  let f := a.record handle
  if a.ledger.Skips handle data then (.ok 0, a)
  else
    match claim a.freeMap f.bytes.size (offset + data.size) with
    | .ok new => (.ok data.size, a.filed handle.sector (f.written offset data new) new)
    | .error e => (.error e, a)

/-- The sector of a byte. -/
def sectorOfByte (a : Archive) (handle : Handle) (offset : Nat) : Except Error SectorId :=
  match (a.record handle).sectorAt offset with
  | some s => .ok s
  | none => .error .outOfRange

/-- The answer to an operation, and the archive afterwards. -/
noncomputable def reply (a : Archive) : (o : Operation) → Except Error o.Answer × Archive
  | .create length isDir => a.create length isDir
  | .createAt x length isDir => a.createAt x length isDir
  | .openInode x => (.ok ⟨x⟩, a.change ⟨x⟩ fun inode => { inode with openCount := inode.openCount + 1 })
  | .reopen handle =>
    (.ok handle, a.change handle fun inode => { inode with openCount := inode.openCount + 1 })
  | .close handle => (.ok (), a.close handle)
  | .drop _ => (.ok (), a)
  | .remove handle => (.ok (), a.change handle fun inode => { inode with removed := true })
  | .denyWrite handle =>
    (.ok (), a.change handle fun inode => { inode with denyCount := inode.denyCount + 1 })
  | .allowWrite handle =>
    (.ok (), a.change handle fun inode => { inode with denyCount := inode.denyCount - 1 })
  | .read handle offset buffer => (.ok ((a.ledger.file handle).readInto offset buffer), a)
  | .write handle offset data => a.write handle offset data
  | .length handle => (.ok (a.ledger.file handle).bytes.size, a)
  | .isDir handle => (.ok (a.ledger.file handle).isDir, a)
  | .sectorOfByte handle offset => (a.sectorOfByte handle offset, a)
  | .ownedSectors handle => (.ok ((a.record handle).sectors handle.sector), a)
  | .openCount handle => (.ok (a.ledger.entry handle).openCount, a)
  | .isRemoved handle => (.ok (a.ledger.entry handle).removed, a)
  | .openInodes => (.ok (Set.ncard {s | (a.open? s).isSome = true}), a)
  | .flush => (.ok (), a)
  | .reset => (.ok (), a)

/-- A new sector is reserved. -/
def reserve (a : Archive) (x : SectorId) : Archive where
  record? := a.record?
  open? := a.open?
  spare := Function.update a.spare x true
  freeMap := a.freeMap.takeAll [x]

/-- The archive without files. -/
def start (map : FreeMap) : Archive where
  record? _ := none
  open? _ := none
  spare sector := decide (sector.toNat < map.sectors) && map.taken sector.toNat
  freeMap := map

/-! ## Ownership -/

/-- What holds of every archive that comes up. -/
structure Sound (a : Archive) : Prop where
  lawful : a.freeMap.Lawful
  /-- No file owns a sector twice. -/
  nodup : ∀ {x f}, a.record? x = some f → (f.sectors x).Nodup
  /-- What a file owns is taken. -/
  owned : ∀ {x f y}, a.record? x = some f → y ∈ f.sectors x →
    y.toNat < a.freeMap.sectors ∧ a.freeMap.taken y.toNat = true
  /-- No two files own one sector. -/
  apart : ∀ {x z f g y}, a.record? x = some f → a.record? z = some g → y ∈ f.sectors x →
    y ∈ g.sectors z → x = z
  /-- What the caller has reserved is taken, and no file owns it. -/
  spare : ∀ {y}, a.spare y = true → y.toNat < a.freeMap.sectors ∧ a.freeMap.taken y.toNat = true ∧
    ∀ {x f}, a.record? x = some f → y ∉ f.sectors x
  /-- What is taken is owned or reserved. -/
  covered : ∀ {y}, y.toNat < a.freeMap.sectors → a.freeMap.taken y.toNat = true →
    a.spare y = true ∨ ∃ x f, a.record? x = some f ∧ y ∈ f.sectors x
  /-- Only live files are open, each with a handle, and nobody lengthens one. -/
  attended : ∀ {x inode}, a.open? x = some inode →
    (a.record? x).isSome = true ∧ 0 < inode.openCount ∧ inode.growing = false

variable {a : Archive} {x y : SectorId} {f g : FileRecord} {new : List SectorId} {inode : OpenInode}

/-- What is at a sector: a file with all it owns, or a sector that was reserved. -/
def Holding (a : Archive) (x y : SectorId) : Prop :=
  (∃ g, a.record? x = some g ∧ y ∈ g.sectors x) ∨ y = x ∧ a.spare x = true

theorem self_mem_sectors (f : FileRecord) (x : SectorId) : x ∈ f.sectors x :=
  List.mem_append_right _ (List.mem_singleton_self x)

theorem Sound.taken_of_holding (h : a.Sound) (hy : a.Holding x y) :
    y.toNat < a.freeMap.sectors ∧ a.freeMap.taken y.toNat = true := by
  rcases hy with ⟨g, hg, hy⟩ | ⟨rfl, hspare⟩
  · exact h.owned hg hy
  · exact ⟨(h.spare hspare).1, (h.spare hspare).2.1⟩

/-- What is at one sector is not at another. -/
theorem Sound.not_holding (h : a.Sound) {z : SectorId} (hz : a.record? z = some g) (hy : y ∈ g.sectors z)
    (hne : z ≠ x) : ¬ a.Holding x y := by
  rintro (⟨f, hf, hy'⟩ | ⟨rfl, hspare⟩)
  · exact hne (h.apart hz hf hy hy')
  · exact (h.spare hspare).2.2 hz hy

/-! ## A file more -/

/-- A file on record is the new one, or one from before at another sector. -/
theorem record?_filed {z : SectorId} (hz : (a.filed x f new).record? z = some g) :
    z = x ∧ g = f ∨ z ≠ x ∧ a.record? z = some g := by
  by_cases he : z = x
  · subst he
    rw [show (a.filed z f new).record? z = some f from Function.update_self _ _ _] at hz
    exact .inl ⟨rfl, (Option.some.inj hz).symm⟩
  · exact .inr ⟨he, (Function.update_of_ne he _ _).symm.trans hz⟩

section Filed

variable (h : a.Sound) (hfresh : a.freeMap.Fresh new)
include h hfresh

theorem Sound.sectors_filed (x : SectorId) (f : FileRecord) :
    (a.filed x f new).freeMap.sectors = a.freeMap.sectors :=
  (FreeMap.foldl_assign h.lawful true (hfresh.lt_sectors h.lawful)).2.1

theorem Sound.taken_filed (x : SectorId) (f : FileRecord) (y : SectorId) :
    (a.filed x f new).freeMap.taken y.toNat = true ↔ y ∈ new ∨ a.freeMap.taken y.toNat = true := by
  rw [show (a.filed x f new).freeMap.taken y.toNat = _ from FreeMap.taken_takeAll h.lawful hfresh y,
    Bool.or_eq_true, decide_eq_true_iff]

variable (hmem : ∀ y, y ∈ f.sectors x ↔ y ∈ new ∨ a.Holding x y)
include hmem

/-- What another file owns is not the new one's. -/
theorem Sound.apart_filed {z : SectorId} (hne : z ≠ x) (hz : a.record? z = some g)
    (hy : y ∈ g.sectors z) : y ∉ f.sectors x := by
  rw [hmem, not_or]
  exact ⟨hfresh.not_mem (h.owned hz hy).2, h.not_holding hz hy hne⟩

theorem Sound.owned_filed {z : SectorId} (hz : (a.filed x f new).record? z = some g)
    (hy : y ∈ g.sectors z) :
    y.toNat < (a.filed x f new).freeMap.sectors ∧
      (a.filed x f new).freeMap.taken y.toNat = true := by
  rw [h.sectors_filed hfresh, h.taken_filed hfresh]
  rcases record?_filed hz with ⟨rfl, rfl⟩ | ⟨-, hz⟩
  · rcases (hmem y).mp hy with hnew | hold
    · exact ⟨hfresh.lt_sectors h.lawful y hnew, .inl hnew⟩
    · exact ⟨(h.taken_of_holding hold).1, .inr (h.taken_of_holding hold).2⟩
  · exact ⟨(h.owned hz hy).1, .inr (h.owned hz hy).2⟩

theorem Sound.spare_filed (hspare : (a.filed x f new).spare y = true) :
    y.toNat < (a.filed x f new).freeMap.sectors ∧ (a.filed x f new).freeMap.taken y.toNat = true ∧
      ∀ {z g}, (a.filed x f new).record? z = some g → y ∉ g.sectors z := by
  have hne : y ≠ x := by
    rintro rfl
    rw [show (a.filed y f new).spare y = false from Function.update_self _ _ _] at hspare
    cases hspare
  obtain ⟨hlt, hy, hfree⟩ := h.spare ((Function.update_of_ne hne _ _).symm.trans hspare)
  rw [h.sectors_filed hfresh, h.taken_filed hfresh]
  refine ⟨hlt, .inr hy, ?_⟩
  intro z g hz hmine
  rcases record?_filed hz with ⟨rfl, rfl⟩ | ⟨-, hz⟩
  · rcases (hmem y).mp hmine with hnew | ⟨g', hg', hy'⟩ | ⟨he, -⟩
    · exact hfresh.not_mem hy hnew
    · exact hfree hg' hy'
    · exact hne he
  · exact hfree hz hmine

theorem Sound.covered_filed (hlt : y.toNat < (a.filed x f new).freeMap.sectors)
    (hy : (a.filed x f new).freeMap.taken y.toNat = true) :
    (a.filed x f new).spare y = true ∨
      ∃ z g, (a.filed x f new).record? z = some g ∧ y ∈ g.sectors z := by
  rw [h.sectors_filed hfresh] at hlt
  rw [h.taken_filed hfresh] at hy
  -- a sector that is not the new file's is reserved or owned as before
  by_cases hmine : y ∈ f.sectors x
  · exact .inr ⟨x, f, Function.update_self _ _ _, hmine⟩
  have hother := not_or.mp (mt (hmem y).mpr hmine)
  rcases h.covered hlt (hy.resolve_left hother.1) with hspare | ⟨z, g, hz, hy⟩
  · have hne : y ≠ x := fun he => hmine (he ▸ self_mem_sectors f x)
    exact .inl ((Function.update_of_ne hne _ _).trans hspare)
  · have hne : z ≠ x := fun he => hother.2 (.inl ⟨g, he ▸ hz, he ▸ hy⟩)
    exact .inr ⟨z, g, (Function.update_of_ne hne _ _).trans hz, hy⟩

/-- **A file of free sectors and of what is at its own** is put there. -/
theorem Sound.filed (hnodup : (f.sectors x).Nodup) : (a.filed x f new).Sound where
  lawful := FreeMap.takeAll_lawful h.lawful hfresh
  nodup := by
    intro z g hz
    rcases record?_filed hz with ⟨rfl, rfl⟩ | ⟨-, hz⟩
    · exact hnodup
    · exact h.nodup hz
  owned := h.owned_filed hfresh hmem
  apart := by
    intro z z' g g' y hz hz' hy hy'
    -- the new file has nothing that an old one owns
    rcases record?_filed hz with ⟨rfl, rfl⟩ | ⟨hne, hold⟩
    · rcases record?_filed hz' with ⟨rfl, rfl⟩ | ⟨hne', hold'⟩
      · rfl
      · exact absurd hy (h.apart_filed hfresh hmem hne' hold' hy')
    · rcases record?_filed hz' with ⟨rfl, rfl⟩ | ⟨-, hold'⟩
      · exact absurd hy' (h.apart_filed hfresh hmem hne hold hy)
      · exact h.apart hold hold' hy hy'
  spare := h.spare_filed hfresh hmem
  covered := h.covered_filed hfresh hmem
  attended := by
    intro z inode hz
    obtain ⟨hlive, hcount, hidle⟩ := h.attended hz
    refine ⟨?_, hcount, hidle⟩
    by_cases he : z = x
    · subst he
      rw [show (a.filed z f new).record? z = some f from Function.update_self _ _ _]
      rfl
    · rw [show (a.filed x f new).record? z = a.record? z from Function.update_of_ne he _ _]
      exact hlive

end Filed

/-! ## A file less -/

/-- A file that is left was there before. -/
theorem record?_released {z : SectorId} (hz : (a.released x f).record? z = some g) :
    z ≠ x ∧ a.record? z = some g := by
  by_cases he : z = x
  · subst he
    rw [show (a.released z f).record? z = none from Function.update_self _ _ _] at hz
    cases hz
  · exact ⟨he, (Function.update_of_ne he _ _).symm.trans hz⟩

section Released

variable (h : a.Sound) (hx : a.record? x = some f)
include h hx

theorem Sound.sectors_released : (a.released x f).freeMap.sectors = a.freeMap.sectors :=
  (FreeMap.foldl_assign h.lawful false fun _ hs => (h.owned hx hs).1).2.1

/-- Exactly the file's sectors are not taken any more. -/
theorem Sound.taken_released (y : SectorId) :
    (a.released x f).freeMap.taken y.toNat = true ↔
      a.freeMap.taken y.toNat = true ∧ y ∉ f.sectors x := by
  have htaken := (FreeMap.foldl_assign h.lawful false fun _ hs => (h.owned hx hs).1).2.2.2 y
  rw [show (a.released x f).freeMap.taken y.toNat = _ from htaken]
  by_cases hy : y ∈ f.sectors x
  · simp [hy]
  · simp [hy]

/-- **A file goes with all its sectors.** -/
theorem Sound.released : (a.released x f).Sound where
  lawful := (FreeMap.foldl_assign h.lawful false fun _ hs => (h.owned hx hs).1).1
  nodup hz := h.nodup (record?_released hz).2
  owned := by
    intro z g y hz hy
    obtain ⟨hne, hz⟩ := record?_released hz
    rw [h.sectors_released hx, h.taken_released hx]
    exact ⟨(h.owned hz hy).1, (h.owned hz hy).2, fun hy' => hne (h.apart hz hx hy hy')⟩
  apart hz hz' hy hy' := h.apart (record?_released hz).2 (record?_released hz').2 hy hy'
  spare := by
    intro y hspare
    obtain ⟨hlt, hy, hfree⟩ := h.spare hspare
    rw [h.sectors_released hx, h.taken_released hx]
    exact ⟨hlt, ⟨hy, hfree hx⟩, fun hz => hfree (record?_released hz).2⟩
  covered := by
    intro y hlt hy
    rw [h.sectors_released hx] at hlt
    rw [h.taken_released hx] at hy
    rcases h.covered hlt hy.1 with hspare | ⟨z, g, hz, hmem⟩
    · exact .inl hspare
    · have hne : z ≠ x := by
        rintro rfl
        rw [hx] at hz
        exact hy.2 (Option.some.inj hz ▸ hmem)
      exact .inr ⟨z, g, (Function.update_of_ne hne _ _).trans hz, hmem⟩
  attended := by
    intro z inode hz
    -- a sector that is still taken was none of the file's
    have hne : z ≠ x := by
      rintro rfl
      rw [show (a.released z f).open? z = none from Function.update_self _ _ _] at hz
      cases hz
    obtain ⟨hlive, hrest⟩ := h.attended ((Function.update_of_ne hne _ _).symm.trans hz)
    refine ⟨?_, hrest⟩
    rw [show (a.released x f).record? z = a.record? z from Function.update_of_ne hne _ _]
    exact hlive

end Released

/-! ## The rest -/

/-- Nobody lengthens a file between two operations. -/
theorem Sound.idle (h : a.Sound) (handle : Handle) : (a.ledger.entry handle).growing = false := by
  unfold Ledger.entry
  cases hopen : a.ledger.open? handle.sector with
  | none => rfl
  | some inode => exact (h.attended hopen).2.2

/-- An entry of an open inode is changed or dropped. -/
theorem Sound.attend (h : a.Sound) {entry : Option OpenInode}
    (hentry : ∀ inode, entry = some inode →
      (a.record? x).isSome = true ∧ 0 < inode.openCount ∧ inode.growing = false) :
    Sound { a with open? := Function.update a.open? x entry } := by
  refine ⟨h.lawful, h.nodup, h.owned, h.apart, h.spare, h.covered, ?_⟩
  intro z inode hz
  by_cases he : z = x
  · subst he
    exact hentry inode ((Function.update_self z entry a.open?).symm.trans hz)
  · exact h.attended ((Function.update_of_ne he _ _).symm.trans hz)

/-- What is known of an open inode changes. -/
theorem Sound.change (h : a.Sound) {handle : Handle} {change : OpenInode → OpenInode}
    (hlive : (a.record? handle.sector).isSome = true)
    (hcount : 0 < (change (a.ledger.entry handle)).openCount)
    (hidle : (change (a.ledger.entry handle)).growing = false) : (a.change handle change).Sound := by
  apply h.attend
  rintro _ ⟨⟩
  exact ⟨hlive, hcount, hidle⟩

theorem Sound.shut (h : a.Sound) (x : SectorId) : (a.shut x).Sound := h.attend nofun

theorem start_sound {map : FreeMap} (hmap : map.Lawful) : (start map).Sound where
  lawful := hmap
  nodup := nofun
  owned := nofun
  apart := nofun
  spare hspare := by
    obtain ⟨hlt, htaken⟩ := (Bool.and_eq_true _ _).mp hspare
    exact ⟨of_decide_eq_true hlt, htaken, nofun⟩
  covered hlt htaken := .inl ((Bool.and_eq_true _ _).mpr ⟨decide_eq_true hlt, htaken⟩)
  attended := nofun

section Reserve

theorem fresh_singleton {map : FreeMap} (hx : map.taken x.toNat = false) : map.Fresh [x] :=
  ⟨List.nodup_singleton x, fun _ hs => List.mem_singleton.mp hs ▸ hx⟩

variable (h : a.Sound) (hx : a.freeMap.taken x.toNat = false)
include h hx

theorem Sound.sectors_reserve : (a.reserve x).freeMap.sectors = a.freeMap.sectors :=
  h.sectors_filed (fresh_singleton hx) x ⟨false, #[], []⟩

theorem Sound.taken_reserve (y : SectorId) :
    (a.reserve x).freeMap.taken y.toNat = true ↔ y = x ∨ a.freeMap.taken y.toNat = true :=
  (h.taken_filed (fresh_singleton hx) x ⟨false, #[], []⟩ y).trans (or_congr_left List.mem_singleton)

/-- **A free sector is reserved.** -/
theorem Sound.reserve : (a.reserve x).Sound where
  lawful := FreeMap.takeAll_lawful h.lawful (fresh_singleton hx)
  nodup := h.nodup
  owned hz hy := by
    rw [h.sectors_reserve hx, h.taken_reserve hx]
    exact ⟨(h.owned hz hy).1, .inr (h.owned hz hy).2⟩
  apart := h.apart
  spare := by
    intro y hspare
    rw [h.sectors_reserve hx, h.taken_reserve hx]
    by_cases he : y = x
    · subst he
      refine ⟨h.lawful.lt_sectors hx, .inl rfl, ?_⟩
      intro z g hz hy
      have htaken := (h.owned hz hy).2
      rw [hx] at htaken
      cases htaken
    · obtain ⟨hlt, htaken, hfree⟩ := h.spare ((Function.update_of_ne he _ _).symm.trans hspare)
      exact ⟨hlt, .inr htaken, hfree⟩
  covered := by
    intro y hlt hy
    rw [h.sectors_reserve hx] at hlt
    rw [h.taken_reserve hx] at hy
    by_cases he : y = x
    · exact .inl (he ▸ Function.update_self _ _ _)
    · rcases h.covered hlt (hy.resolve_left he) with hspare | howned
      · exact .inl ((Function.update_of_ne he _ _).trans hspare)
      · exact .inr howned
  attended := h.attended

end Reserve

/-! ## Reserved sectors that become a file's -/

/-- A file takes over sectors that were reserved. -/
def adopt (a : Archive) (x : SectorId) (f : FileRecord) (l : List SectorId) : Archive where
  record? := Function.update a.record? x (some f)
  open? := a.open?
  spare y := a.spare y && !decide (y ∈ l)
  freeMap := a.freeMap

/-- A file on record is the one that takes over, or another one from before. -/
theorem record?_adopt {l : List SectorId} {z : SectorId} (hz : (a.adopt x f l).record? z = some g) :
    z = x ∧ g = f ∨ z ≠ x ∧ a.record? z = some g := by
  have hfiled : (a.filed x f []).record? z = some g := hz
  exact record?_filed hfiled

/-- **A file takes over sectors** that were reserved, and nobody else's. -/
theorem Sound.adopt {l : List SectorId} (h : a.Sound) (hx : a.record? x = some g)
    (hnodup : (f.sectors x).Nodup) (hmem : ∀ y, y ∈ f.sectors x ↔ y ∈ g.sectors x ∨ y ∈ l)
    (hl : ∀ y ∈ l, a.spare y = true) : (a.adopt x f l).Sound := by
  have hspare : ∀ {y}, (a.adopt x f l).spare y = true ↔ a.spare y = true ∧ y ∉ l := by
    intro y
    show (a.spare y && !decide (y ∈ l)) = true ↔ _
    simp
  have hother : ∀ {z f' y}, z ≠ x → a.record? z = some f' → y ∈ f'.sectors z → y ∉ f.sectors x := by
    intro z f' y hne hz hy hmine
    rcases (hmem y).mp hmine with hold | hnew
    · exact hne (h.apart hz hx hy hold)
    · exact (h.spare (hl y hnew)).2.2 hz hy
  constructor
  case lawful => exact h.lawful
  case nodup =>
    intro z f' hz
    rcases record?_adopt hz with ⟨rfl, rfl⟩ | ⟨-, hz⟩
    · exact hnodup
    · exact h.nodup hz
  case owned =>
    intro z f' y hz hy
    rcases record?_adopt hz with ⟨rfl, rfl⟩ | ⟨-, hz⟩
    · rcases (hmem y).mp hy with hold | hnew
      · exact h.owned hx hold
      · exact ⟨(h.spare (hl y hnew)).1, (h.spare (hl y hnew)).2.1⟩
    · exact h.owned hz hy
  case apart =>
    intro z z' f' g' y hz hz' hy hy'
    rcases record?_adopt hz with ⟨rfl, rfl⟩ | ⟨hne, hold⟩
    · rcases record?_adopt hz' with ⟨rfl, rfl⟩ | ⟨hne', hold'⟩
      · rfl
      · exact absurd hy (hother hne' hold' hy')
    · rcases record?_adopt hz' with ⟨rfl, rfl⟩ | ⟨-, hold'⟩
      · exact absurd hy' (hother hne hold hy)
      · exact h.apart hold hold' hy hy'
  case spare =>
    intro y hy
    obtain ⟨hy, hnew⟩ := hspare.mp hy
    obtain ⟨hlt, htaken, hfree⟩ := h.spare hy
    refine ⟨hlt, htaken, ?_⟩
    intro z f' hz hmine
    rcases record?_adopt hz with ⟨rfl, rfl⟩ | ⟨-, hz⟩
    · exact ((hmem y).mp hmine).elim (hfree hx) hnew
    · exact hfree hz hmine
  case covered =>
    intro y hlt htaken
    by_cases hmine : y ∈ f.sectors x
    · exact .inr ⟨x, f, Function.update_self _ _ _, hmine⟩
    obtain ⟨hold, hnew⟩ := not_or.mp (mt (hmem y).mpr hmine)
    rcases h.covered hlt htaken with hy | ⟨z, f', hz, hy⟩
    · exact .inl (hspare.mpr ⟨hy, hnew⟩)
    · have hne : z ≠ x := by
        rintro rfl
        rw [hx] at hz
        exact hold (Option.some.inj hz ▸ hy)
      exact .inr ⟨z, f', (Function.update_of_ne hne _ _).trans hz, hy⟩
  case attended =>
    intro z inode hz
    obtain ⟨hlive, hrest⟩ := h.attended hz
    refine ⟨?_, hrest⟩
    by_cases he : z = x
    · subst he
      rw [show (a.adopt z f l).record? z = some f from Function.update_self _ _ _]
      rfl
    · rw [show (a.adopt x f l).record? z = a.record? z from Function.update_of_ne he _ _]
      exact hlive

end Archive

end InodeStore
