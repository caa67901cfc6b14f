import InodeStore.Bench.Measure
import InodeStore.Proofs.Volume.Leading
import InodeStore.Proofs.Volume.Mounting

/-!
# `Proofs.Bench.Scratch` — scratch files on a volume in use

A scratch file is made, used, removed and closed. Whatever is done to it meanwhile (`Archive.Scratch`), in
the end the free map is bit for bit what it was before (`Archive.Scratch.freeMap_eq`), also if the use was
refused (`onScratchFile_leads`). But what was written into the free-map file in between stays there.
-/

namespace InodeStore

open Inode Volume

/-! ## Archives -/

namespace Archive

variable {a a' : Archive} {x : SectorId} {f : FileRecord} {new : List SectorId}

theorem Sound.taken_of_owned (h : a.Sound) (h' : a'.Sound) (hspare : ∀ s, a.spare s = false)
    (howned : ∀ z, (a'.record? z).map FileRecord.owned = (a.record? z).map FileRecord.owned) {y : SectorId}
    (hlt : y.toNat < a.freeMap.sectors) (hy : a.freeMap.taken y.toNat = true) :
    a'.freeMap.taken y.toNat = true := by
  rcases h.covered hlt hy with hreserved | ⟨z, f, hf, hmem⟩
  · rw [hspare] at hreserved
    cases hreserved
  · have hz := howned z
    rw [hf] at hz
    obtain ⟨g, hg, hsame⟩ := Option.map_eq_some_iff.mp hz
    have hmem' : y ∈ g.sectors z := by
      unfold FileRecord.sectors
      rw [hsame]
      exact hmem
    exact (h'.owned hg hmem').2

/-- **The free map is determined** by what the files own, if nothing is reserved. -/
theorem Sound.freeMap_eq (h : a.Sound) (h' : a'.Sound) (hspare : ∀ s, a.spare s = false)
    (hspare' : ∀ s, a'.spare s = false) (hsectors : a'.freeMap.sectors = a.freeMap.sectors)
    (howned : ∀ z, (a'.record? z).map FileRecord.owned = (a.record? z).map FileRecord.owned) :
    a'.freeMap = a.freeMap := by
  refine FreeMap.ext_taken hsectors (by rw [h.lawful.size, h'.lawful.size, hsectors]) fun s => ?_
  by_cases hlt : s < a.freeMap.sectors
  · have hnumber : (UInt32.ofNat s).toNat = s :=
      UInt32.toNat_ofNat_of_lt' (Nat.lt_of_lt_of_le hlt h.lawful.addressable)
    have hlt' : s < a'.freeMap.sectors := hsectors.symm ▸ hlt
    rw [← hnumber] at hlt hlt' ⊢
    exact Bool.eq_iff_iff.mpr ⟨h'.taken_of_owned h hspare' (fun z => (howned z).symm) hlt',
      h.taken_of_owned h' hspare howned hlt⟩
  · have hge := Nat.le_of_not_lt hlt
    rw [h.lawful.sealed s hge, h'.lawful.sealed s (hsectors.symm ▸ hge)]

/-- The archive with an empty file more, which is open. -/
def withScratch (a : Archive) (x : SectorId) : Archive :=
  (a.filed x (.zeros false 0 []) [x]).change ⟨x⟩ fun inode =>
    { inode with openCount := inode.openCount + 1 }

/-- A file is marked removed. -/
def removed (a : Archive) (handle : Handle) : Archive :=
  a.change handle fun inode => { inode with removed := true }

/-- An archive is as `a` but for a file at `x`, which is open, and for what is written in the files. -/
structure Scratch (a : Archive) (x : SectorId) (a' : Archive) : Prop where
  sectors : a'.freeMap.sectors = a.freeMap.sectors
  elsewhere : ∀ z, z ≠ x → (a'.record? z).map FileRecord.owned = (a.record? z).map FileRecord.owned
  held : a'.open? x = some ⟨1, 0, false, false⟩

/-- The sector of a new file is free. -/
structure Vacant (a : Archive) (x : SectorId) : Prop where
  record : a.record? x = none
  closed : a.open? x = none
  apart : x ≠ freeMapSector

theorem Kept.vacant (h : a.Kept) (hs : a.Sound) (hx : a.freeMap.nextFree? = some x) : a.Vacant x := by
  have hfree := hs.lawful.nextFree?_free hx
  obtain ⟨hrecord, -⟩ := hs.nothing_free hfree
  refine ⟨hrecord, ?_, h.houses.ne_of_free hs hfree⟩
  refine Option.eq_none_iff_forall_ne_some.mpr fun inode hinode => ?_
  have hlive := (hs.attended hinode).1
  rw [hrecord] at hlive
  cases hlive

theorem Vacant.scratch (h : a.Vacant x) : a.Scratch x (a.withScratch x) where
  sectors := a.freeMap.sectors_foldl [x] true
  elsewhere z hz := congrArg _ (Function.update_of_ne hz _ _)
  held := by
    have hclosed : (a.filed x (.zeros false 0 []) [x]).open? x = none := h.closed
    show Function.update a.open? x (some _) x = _
    rw [Function.update_self, hclosed]
    rfl

/-- The volume's own file is another one. -/
theorem Vacant.record_withScratch (h : a.Vacant x) :
    (a.withScratch x).record freeMapFile = a.record freeMapFile := by
  have hsame : (a.withScratch x).record? freeMapSector = a.record? freeMapSector :=
    Function.update_of_ne h.apart.symm _ _
  exact congrArg (Option.getD · _) hsame

namespace Scratch

variable (h : a.Scratch x a')
include h

theorem hasOpen : a'.ledger.HasOpen ⟨x⟩ := congrArg Option.isSome h.held

theorem entry : a'.ledger.entry ⟨x⟩ = ⟨1, 0, false, false⟩ := congrArg (Option.getD · _) h.held

/-- The file is written to. -/
theorem write (offset : Nat) (data : Bytes) : a.Scratch x (a'.write ⟨x⟩ offset data).2 := by
  unfold Archive.write
  dsimp only
  split
  · exact h
  · split
    · exact ⟨(a'.freeMap.sectors_foldl _ true).trans h.sectors,
        fun z hz => (congrArg _ (Function.update_of_ne hz _ _)).trans (h.elsewhere z hz), h.held⟩
    · exact h

/-- The volume is persisted. -/
theorem persisted (hkept : a'.Kept) (hs : a'.Sound)
    (hlong : (a'.record freeMapFile).bytes.size ≤ maxFileSize) : a.Scratch x a'.persisted := by
  obtain ⟨f, hf, hrecord, -⟩ := hkept.record_eq
  rw [hkept.persisted_eq hs hlong]
  refine ⟨h.sectors, fun z hz => Eq.trans ?_ (h.elsewhere z hz), h.held⟩
  show (Function.update a'.record? freeMapSector _ z).map FileRecord.owned = _
  by_cases he : z = freeMapSector
  · rw [he, Function.update_self, hf, hrecord]
    exact congrArg some (List.append_nil f.owned)
  · rw [Function.update_of_ne he]

/-- The file is removed and closed. -/
theorem gone : ∃ f, (a'.removed ⟨x⟩).close ⟨x⟩ = (a'.removed ⟨x⟩).released x f := by
  have hentry : (a'.removed ⟨x⟩).ledger.entry ⟨x⟩ = ⟨1, 0, true, false⟩ := by
    show (Function.update a'.open? x (some _) x).getD _ = _
    rw [Function.update_self, h.held]
    rfl
  unfold Archive.close
  rw [hentry]
  exact ⟨_, rfl⟩

end Scratch

/-- **What is left of a scratch file** is nothing: the free map is the one from before. -/
theorem Scratch.freeMap_eq (h : a.Scratch x a') (hs : a.Sound) (hspare : ∀ s, a.spare s = false)
    (hx : a.record? x = none) (f : FileRecord) (hs' : ((a'.removed ⟨x⟩).released x f).Sound)
    (hspare' : ∀ s, ((a'.removed ⟨x⟩).released x f).spare s = false) :
    ((a'.removed ⟨x⟩).released x f).freeMap = a.freeMap := by
  refine hs.freeMap_eq hs' hspare hspare' ?_ fun z => ?_
  · exact (a'.freeMap.sectors_foldl (f.sectors x) false).trans h.sectors
  · show (Function.update a'.record? x none z).map FileRecord.owned = _
    by_cases he : z = x
    · rw [he, Function.update_self, hx]
    · rw [Function.update_of_ne he]
      exact h.elsewhere z he

/-- A new file takes the sector. -/
theorem create_eq_filed (hx : a.freeMap.nextFree? = some x) :
    a.create 0 false = (.ok x, a.filed x (.zeros false 0 []) [x]) := by
  have hclaim : claim (a.freeMap.assign x.toNat true) 0 0 = .ok [] :=
    claim_inside _ (Nat.le_refl 0) (Nat.zero_le _)
  unfold create claimNew
  rw [hx]
  dsimp only
  rw [hclaim]
  rfl

/-- Where no sector is free, there is no new file. -/
theorem create_exhausted (hx : a.freeMap.nextFree? = none) (length : Nat) (isDir : Bool) :
    a.create length isDir = (.error .allocationExhausted, a) := by
  unfold create claimNew
  rw [hx]

end Archive

/-! ## Volumes in use -/

section Volumes

variable {δ : Type} {n : Nat} [BlockDevice δ] [LawfulDevice δ] {store store' : Store δ n} {p p' : Plain}
  {a a' : Archive} {x : SectorId} {α : Type} {body : Handle → Routine α}
  {post : Except Error α → FileRecord → Prop}

/-- No sector is free for a scratch file. -/
theorem onScratchFile_exhausted (h : Serves store p a) (hx : a.freeMap.nextFree? = none) :
    Leads store (Bench.onScratchFile body) fun answer _ a' =>
      answer = .error .allocationExhausted ∧ a' = a := by
  have hcreate := h.replies (o := .create 0 false) ⟨trivial, nofun⟩ rfl
  rw [show a.reply (.create 0 false) = _ from Archive.create_exhausted hx 0 false] at hcreate
  refine hcreate.bind (fun _ hmid => ?_) fun hmid => ?_
  · cases hmid.1
  · cases hmid.1
    exact ⟨rfl, hmid.2⟩

/-- A scratch file is made at the first free sector, and opened. -/
theorem scratch_opened (h : Serves store p a) (hx : a.freeMap.nextFree? = some x) :
    Leads store (do Routine.openInode (← Inode.create 0 false)) fun answer _ a' =>
      ∃ handle, answer = .ok handle ∧ handle = ⟨x⟩ ∧ a' = a.withScratch x := by
  have hcreate := h.replies (o := .create 0 false) ⟨trivial, nofun⟩ rfl
  rw [show a.reply (.create 0 false) = _ from Archive.create_eq_filed hx] at hcreate
  refine hcreate.bind (fun {y _ p₁ _} hserves hmid => ?_) fun hmid => ?_
  · obtain ⟨hy, rfl⟩ := hmid
    cases hy
    have hrecord : (a.filed x (.zeros false 0 []) [x]).record? x = some (.zeros false 0 []) :=
      Function.update_self x _ a.record?
    have hopen : Gives false (Routine.openInode x) p₁ (.ok ⟨x⟩, a.withScratch x) :=
      ⟨_, Runs.openInode x, hserves.represents.change (congrArg Option.isSome hrecord) (Nat.succ_pos _)
        (hserves.represents.sound.idle ⟨x⟩)⟩
    exact (hserves.gives hopen (hserves.kept.change fun _ _ hdeny => hdeny) rfl).mono
      fun ⟨hanswer, ha⟩ => ⟨_, hanswer, rfl, ha⟩
  · cases hmid.1

/-- **A scratch file is removed and closed**, and the free map is the one from before. -/
theorem scratch_disposed (h : Serves store p a) (hx : a.Vacant x) (h' : Serves store' p' a')
    (hscratch : a.Scratch x a') :
    Leads store' (do Routine.remove ⟨x⟩; Inode.close ⟨x⟩) fun answer _ a'' =>
      ∃ done, answer = .ok done ∧ a''.freeMap = a.freeMap ∧
        a''.record freeMapFile = a'.record freeMapFile := by
  obtain ⟨hlive, hcount⟩ := h'.represents.open_live hscratch.hasOpen
  have hchanged : Represents _ (a'.removed ⟨x⟩) :=
    h'.represents.change hlive hcount (h'.represents.sound.idle ⟨x⟩)
  have hremove : Gives false (Routine.remove ⟨x⟩) p' (.ok (), a'.removed ⟨x⟩) :=
    ⟨_, Runs.perform .remove, hchanged⟩
  have hkept : (a'.removed ⟨x⟩).Kept := h'.kept.change fun _ _ hdeny => hdeny
  refine (h'.gives hremove hkept rfl).bind
    (fun {_ _ p₁ _} hserves hmid => ?_) fun hmid => ?_
  · obtain ⟨-, rfl⟩ := hmid
    have hopen : (a'.removed ⟨x⟩).ledger.HasOpen ⟨x⟩ :=
      congrArg Option.isSome (Function.update_self x _ a'.open?)
    have hclose := hserves.represents.close hopen
    obtain ⟨f, hgone⟩ := hscratch.gone
    rw [hgone] at hclose
    have hsound : ((a'.removed ⟨x⟩).released x f).Sound := hclose.choose_spec.2.sound
    have hkept := hserves.kept.released (f := f) hx.apart
    refine (hserves.gives hclose hkept (a'.freeMap.sectors_foldl _ false)).mono
      fun ⟨hanswer, ha⟩ => ⟨(), hanswer, ?_, ?_⟩
    · rw [ha]
      exact hscratch.freeMap_eq h.represents.sound h.kept.noSpare hx.record f hsound hkept.noSpare
    · rw [ha]
      exact congrArg (Option.getD · _) (Function.update_of_ne hx.apart.symm _ _)
  · cases hmid.1

/-- **A scratch file is used.** Whatever is done with it, or refused, the free map is in the end the one
    from before, and what was put into the free-map file meanwhile is in it. -/
theorem onScratchFile_leads (h : Serves store p a) (hx : a.freeMap.nextFree? = some x)
    (hbody : ∀ {store' : Store δ n} {p'}, Serves store' p' (a.withScratch x) → Leads store' (body ⟨x⟩)
      fun answer _ a' => a.Scratch x a' ∧ post answer (a'.record freeMapFile)) :
    Leads store (Bench.onScratchFile body) fun answer _ a' =>
      a'.freeMap = a.freeMap ∧ post answer (a'.record freeMapFile) := by
  unfold Bench.onScratchFile
  rw [← Routine.bind_assoc]
  refine (scratch_opened h hx).next fun hopened hmid => ?_
  obtain ⟨rfl, rfl⟩ := hmid
  refine (hbody hopened).attempt.next fun hused hmid => ?_
  obtain ⟨answer, rfl, hscratch, hpost⟩ := hmid
  have hdisposed := scratch_disposed h (h.kept.vacant h.represents.sound hx) hused hscratch
  cases answer with
  | ok b =>
    dsimp only [ending]
    rw [← Routine.bind_assoc]
    refine hdisposed.next fun hserves hmid => .pure hserves ?_
    exact ⟨hmid.1, hmid.2.symm ▸ hpost⟩
  | error e =>
    dsimp only [ending]
    rw [← Routine.bind_assoc]
    refine hdisposed.next fun hserves hmid => .refuse hserves ?_
    exact ⟨hmid.1, hmid.2.symm ▸ hpost⟩

end Volumes

end InodeStore
