import InodeStore.Proofs.FreeMap.Counting
import InodeStore.Proofs.Session.Jobs
import InodeStore.Proofs.Session.Simulation
import InodeStore.Proofs.Store.Interleaving
import Mathlib.Algebra.Order.BigOperators.Group.Finset

/-!
# `Proofs.Session.Moments` — a store between two calls of several writers

Between two calls a file may be half lengthened: sectors were taken for it that it does not have on record. A
`Moment` tells of whom the file waits for and which sectors these are. Everything else is as in an archive
whose reserve has them, and that is what stays true at every moment (`Plan.Intact`).

A party looks at a file by its descriptor and comes back to it some calls later. Meanwhile the others may make
the file longer, or write to its blocks, but what the party has found out stays so (`Respects`).

## Contents
- `Moment`, and what is a file's at it.
- `Develops`, `Respects`: what a party may rely on.
- `Plan`, `Plan.Intact`; `Plan.conduct`, by which the parties' calls are told as steps.
-/

namespace InodeStore

open Inode

/-! ## Moments -/

/-- A store between two calls, with the archive that it is in the middle of: who is lengthening a file, and
    which sectors were taken for it that are not on record. They count as reserved in the archive. -/
structure Moment where
  plain : Plain
  archive : Archive
  holder : SectorId → Option Nat
  loose : SectorId → List SectorId

/-- A byte of a file, zero behind the last one. -/
def Inode.FileRecord.byte (f : FileRecord) (q : Nat) : UInt8 := f.bytes[q]?.getD 0

namespace Moment

/-- The file at a sector. -/
def record (m : Moment) (x : SectorId) : FileRecord := m.archive.record ⟨x⟩

def size (m : Moment) (x : SectorId) : Nat := (m.record x).bytes.size

/-- The descriptor at a sector. -/
def descriptor (m : Moment) (x : SectorId) : Descriptor := .decode (m.plain.block x)

/-- The spots that a file on record has in use. -/
def spots (m : Moment) (x : SectorId) : List Spot := Inode.spots (dataBlocks (m.size x))

/-- The sector at a spot of a file. -/
def sectorAt (m : Moment) (x : SectorId) (t : Spot) : SectorId := sectorOf m.plain.block (m.descriptor x) t

/-- The sectors that are in use for a file. -/
def used (m : Moment) (x : SectorId) : Nat := totalBlocks (m.size x) + (m.loose x).length

/-- The sector is one of a file or was taken for it. -/
def Owns (m : Moment) (x y : SectorId) : Prop :=
  (∃ f, m.archive.record? x = some f ∧ y ∈ f.sectors x) ∨ y ∈ m.loose x

/-- What nobody but the party that lengthens the file changes: its descriptor, its index blocks and what was
    taken for it. -/
def Frame (m : Moment) (x y : SectorId) : Prop :=
  y = x ∨ y ∈ m.loose x ∨ ∃ t ∈ m.spots x, t.isIndex = true ∧ y = m.sectorAt x t

/-- A descriptor that leads to blocks of the file, as the one on record does or one from earlier on. -/
structure Leads (m : Moment) (x : SectorId) (d : Descriptor) : Prop where
  size : d.size ≤ m.size x
  same : ∀ t ∈ Inode.spots (dataBlocks d.size), sectorOf m.plain.block d t = m.sectorAt x t

end Moment

/-! ## What a party may rely on -/

/-- What may become of a file: it gets longer, and a byte is replaced by one that a job has for it. -/
structure Develops (jobs : List Job) (x : SectorId) (f f' : FileRecord) : Prop where
  isDir : f'.isDir = f.isDir
  size : f.bytes.size ≤ f'.bytes.size
  byte : ∀ q, f'.byte q = f.byte q ∨ Offered jobs x q (f'.byte q)

theorem Develops.refl (jobs : List Job) (x : SectorId) (f : FileRecord) : Develops jobs x f f :=
  ⟨rfl, Nat.le_refl _, fun _ => .inl rfl⟩

theorem Develops.trans {jobs : List Job} {x : SectorId} {f f' f'' : FileRecord}
    (h : Develops jobs x f f') (h' : Develops jobs x f' f'') : Develops jobs x f f'' where
  isDir := h'.isDir.trans h.isDir
  size := Nat.le_trans h.size h'.size
  byte q := by
    rcases h'.byte q with hsame | hnew
    · rw [hsame]
      exact h.byte q
    · exact .inr hnew

/-- What a party may rely on for a file while the others make calls. -/
structure Respects (jobs : List Job) (t : Nat) (m m' : Moment) (x : SectorId) : Prop where
  develops : Develops jobs x (m.record x) (m'.record x)
  same : ∀ u ∈ m.spots x, m'.sectorAt x u = m.sectorAt x u
  leads : ∀ {d}, m.Leads x d → m'.Leads x d
  free : m.holder x ≠ some t → m'.holder x ≠ some t
  held : m.holder x = some t → m'.holder x = some t ∧ m'.loose x = m.loose x ∧
    m'.size x = m.size x ∧ ∀ y, m.Frame x y → m'.plain.block y = m.plain.block y

namespace Respects

variable {jobs : List Job} {t : Nat} {m m' m'' : Moment} {x y : SectorId} {spot : Spot}

theorem mem_spots (h : Respects jobs t m m' x) (hspot : spot ∈ m.spots x) : spot ∈ m'.spots x :=
  spots_mono (dataBlocks_mono h.develops.size) hspot

theorem frame (h : Respects jobs t m m' x) (hx : m.holder x = some t) (hy : m.Frame x y) :
    m'.Frame x y := by
  obtain ⟨-, hloose, -⟩ := h.held hx
  rcases hy with rfl | hy | ⟨u, hu, hindex, rfl⟩
  · exact .inl rfl
  · exact .inr (.inl (hloose.symm ▸ hy))
  · exact .inr (.inr ⟨u, h.mem_spots hu, hindex, (h.same u hu).symm⟩)

theorem refl (jobs : List Job) (t : Nat) (m : Moment) (x : SectorId) : Respects jobs t m m x :=
  ⟨.refl _ _ _, fun _ _ => rfl, id, id, fun hx => ⟨hx, rfl, rfl, fun _ _ => rfl⟩⟩

theorem trans (h : Respects jobs t m m' x) (h' : Respects jobs t m' m'' x) :
    Respects jobs t m m'' x where
  develops := h.develops.trans h'.develops
  same u hu := (h'.same u (h.mem_spots hu)).trans (h.same u hu)
  leads hd := h'.leads (h.leads hd)
  free hx := h'.free (h.free hx)
  held hx := by
    obtain ⟨hholder, hloose, hsize, hblock⟩ := h.held hx
    obtain ⟨hholder', hloose', hsize', hblock'⟩ := h'.held hholder
    exact ⟨hholder', hloose'.trans hloose, hsize'.trans hsize, fun y hy =>
      (hblock' y (h.frame hx hy)).trans (hblock y hy)⟩

end Respects

/-! ## Plans -/

/-- A number of parties and all that they are to do, from a store on. -/
structure Plan where
  parties : Nat
  jobs : List Job
  plain : Plain
  archive : Archive
  represents : Represents plain archive
  grants : archive.ledger.Grants jobs plain.freeMap.freeCount

namespace Plan

variable {P : Plan} {m m' : Moment} {x y z : SectorId} {d : Descriptor} {f : FileRecord}

/-- How long a file is in the end. -/
def target (P : Plan) (x : SectorId) : Nat := P.archive.ledger.finalLength P.jobs x

theorem le_target (P : Plan) (x : SectorId) : (P.archive.record ⟨x⟩).bytes.size ≤ P.target x := by
  have hle : (P.archive.ledger.file ⟨x⟩).bytes.size ≤ P.target x := le_lengthAfter
  rw [P.archive.ledger_file] at hle
  exact hle

/-- What holds at every moment. -/
structure Intact (P : Plan) (m : Moment) : Prop where
  /-- The files are on record, whoever is lengthening them. -/
  represents : Represents { m.plain with registry := P.plain.registry } m.archive
  lists : m.plain.registry.Lists fun x =>
    (P.archive.open? x).map fun inode => { inode with growing := (m.holder x).isSome }
  isOpen : m.archive.open? = P.archive.open?
  live : ∀ x, (m.archive.record? x).isSome = (P.archive.record? x).isSome
  develops : ∀ x, Develops P.jobs x (P.archive.record ⟨x⟩) (m.record x)
  target : ∀ x, m.size x ≤ P.target x
  /-- What was taken and is not on record was taken for one file. -/
  spare : ∀ y, m.archive.spare y = true ↔ P.archive.spare y = true ∨ ∃ x, y ∈ m.loose x
  fresh : ∀ {x y}, y ∈ m.loose x → P.archive.spare y = false
  nodup : ∀ x, (m.loose x).Nodup
  apart : ∀ {x z y}, y ∈ m.loose x → y ∈ m.loose z → x = z
  /-- Only who keeps the others from lengthening a file takes sectors for it. -/
  unheld : ∀ {x}, m.holder x = none → m.loose x = []
  holder : ∀ {x t}, m.holder x = some t → t < P.parties ∧ x ∈ filesOf P.jobs
  /-- No more sectors are in use than in the end. -/
  used : ∀ x, m.used x ≤ totalBlocks (P.target x)
  count : m.plain.freeMap.freeCount + ∑ x ∈ filesOf P.jobs, m.used x =
    P.plain.freeMap.freeCount + ∑ x ∈ filesOf P.jobs, totalBlocks (P.archive.record ⟨x⟩).bytes.size

/-- The file that a job is for is live and open, and writing to it is not denied. -/
theorem of_job (P : Plan) {j : Job} (hj : j ∈ P.jobs) :
    (P.archive.record? j.sector).isSome = true ∧
      ∃ inode, P.archive.open? j.sector = some inode ∧ inode.denyCount = 0 := by
  obtain ⟨inode, hinode⟩ := Option.isSome_iff_exists.mp (P.grants.isOpen j hj)
  have hallowed := P.grants.allowed j hj
  have hentry : P.archive.ledger.entry j.handle = inode := congrArg (Option.getD · _) hinode
  exact ⟨(P.represents.open_live (P.grants.isOpen j hj)).1, inode, hinode, hentry ▸ hallowed⟩

theorem live_of_mem (P : Plan) (hx : x ∈ filesOf P.jobs) : (P.archive.record? x).isSome = true := by
  obtain ⟨j, hj, rfl⟩ := mem_filesOf.mp hx
  exact (P.of_job hj).1

theorem Intact.record? (h : P.Intact m) (hx : (P.archive.record? x).isSome = true) :
    m.archive.record? x = some (m.record x) := by
  obtain ⟨f, hf⟩ := Option.isSome_iff_exists.mp ((h.live x).trans hx)
  have hrecord : m.record x = f := congrArg (Option.getD · _) hf
  rw [hf, hrecord]

/-- A file at a moment. -/
theorem Intact.fileAt (h : P.Intact m) (hx : m.archive.record? x = some f) :
    FileAt m.plain x (m.descriptor x) f := by
  obtain ⟨d, hfile⟩ := h.represents.fileAt hx
  have hd : m.descriptor x = d := hfile.record.stored.decode
  exact hd ▸ hfile.withRegistry m.plain.registry

theorem Intact.size_le (h : P.Intact m) (hx : m.archive.record? x = some f) :
    m.size x = f.bytes.size ∧ (m.descriptor x).size = m.size x ∧ m.size x ≤ maxFileSize := by
  have hfile := h.fileAt hx
  have hrecord : m.record x = f := congrArg (Option.getD · _) hx
  have hsize : m.size x = f.bytes.size := congrArg (fun f => f.bytes.size) hrecord
  have hdescriptor := hfile.record.holds.size
  exact ⟨hsize, hdescriptor.trans hsize.symm, hsize ▸ hdescriptor ▸ hfile.record.stored.size⟩

/-- No sector is one of two files, or was taken for two. -/
theorem Intact.owner_unique (h : P.Intact m) (hx : m.Owns x y) (hz : m.Owns z y) : x = z := by
  have hsound := h.represents.sound
  have hfree : ∀ {x}, y ∈ m.loose x → ∀ {z f}, m.archive.record? z = some f → y ∉ f.sectors z :=
    fun hloose => (hsound.spare ((h.spare y).mpr (.inr ⟨_, hloose⟩))).2.2
  rcases hx with ⟨f, hf, hy⟩ | hy
  · rcases hz with ⟨g, hg, hy'⟩ | hy'
    · exact hsound.apart hf hg hy hy'
    · exact absurd hy (hfree hy' hf)
  · rcases hz with ⟨g, hg, hy'⟩ | hy'
    · exact absurd hy' (hfree hy hg)
    · exact h.apart hy hy'

/-- What is owned may be used. -/
theorem Intact.permits (h : P.Intact m) (hx : m.Owns x y) : m.plain.Permits true y := by
  have hsound := h.represents.sound
  have hmap : m.plain.freeMap = m.archive.freeMap := h.represents.freeMap
  have hinside : y.toNat < m.archive.freeMap.sectors ∧ m.archive.freeMap.taken y.toNat = true := by
    rcases hx with ⟨f, hf, hy⟩ | hy
    · exact hsound.owned hf hy
    · obtain ⟨hlt, htaken, -⟩ := hsound.spare ((h.spare y).mpr (.inr ⟨x, hy⟩))
      exact ⟨hlt, htaken⟩
  exact ⟨Nat.lt_of_lt_of_le hinside.1 h.represents.fits, fun _ => hmap ▸ hinside.2⟩

/-- Whoever waits does so for the party that lengthens the file. -/
theorem Intact.waiting (h : P.Intact m) {c : Call} (hc : m.plain.ready c = false) :
    ∃ t < P.parties, ¬ ∀ x, m.holder x ≠ some t := by
  cases c with
  | beginGrowth handle =>
    obtain ⟨x⟩ := handle
    have hgrowing : (m.plain.registry.entry ⟨x⟩).growing = true := by
      simpa [Plain.ready, Registry.isGrowing] using hc
    rw [h.lists.entry] at hgrowing
    cases hopen : P.archive.open? x with
    | none =>
      rw [hopen] at hgrowing
      cases hgrowing
    | some inode =>
      rw [hopen] at hgrowing
      obtain ⟨t, ht⟩ := Option.isSome_iff_exists.mp (show (m.holder x).isSome = true from hgrowing)
      exact ⟨t, (h.holder ht).1, fun hidle => hidle x ht⟩
  | _ => cases hc

/-- What the parties keep to. -/
def conduct (P : Plan) : Conduct Moment where
  parties := P.parties
  plain := Moment.plain
  Sound := P.Intact
  Rely t m m' := ∀ x, Respects P.jobs t m m' x
  Idle t m := ∀ x, m.holder x ≠ some t
  refl t m x := .refl P.jobs t m x
  trans h h' x := (h x).trans (h' x)
  waiting h hc := h.waiting hc

end Plan

end InodeStore
