import InodeStore.Proofs.Session.Archive
import InodeStore.Proofs.Store.Refinement

/-!
# `Proofs.Session.Simulation` — a store answers as its archive does

`Represents p a` says that a plain store is that of an archive: it has the files on record, each at its
sector, the free map, and a registry with the open inodes. There is one lemma for each operation
(`Represents.create`, `Represents.write`, …): what it answers and leaves behind is the archive's reply.
-/

namespace InodeStore

open Inode

/-- A plain store is that of an archive. -/
structure Represents (p : Plain) (a : Archive) : Prop where
  sound : a.Sound
  freeMap : p.freeMap = a.freeMap
  fits : a.freeMap.sectors ≤ p.count
  lists : p.registry.Lists a.open?
  record : ∀ {s f}, a.record? s = some f → ∃ d, OnRecord p.block s d f

variable {α : Type} {p p' : Plain} {a : Archive} {x y : SectorId} {d : Descriptor} {f g : FileRecord}
  {new loose : List SectorId} {handle : Handle} {registry : Registry}

/-! ## Files -/

theorem Represents.lawful (h : Represents p a) : p.freeMap.Lawful := h.freeMap ▸ h.sound.lawful

/-- The sectors of the free map are sectors of the device. -/
theorem Represents.inside (h : Represents p a) : p.freeMap.sectors ≤ p.count := h.freeMap ▸ h.fits

/-- The files of the archive can be used. -/
theorem Represents.fileAt (h : Represents p a) (hx : a.record? x = some f) : ∃ d, FileAt p x d f := by
  obtain ⟨d, hrecord⟩ := h.record hx
  exact ⟨d, hrecord.fileAt h.lawful h.inside (h.sound.nodup hx)
    fun y hy => h.freeMap ▸ h.sound.owned hx hy⟩

theorem Represents.entry (h : Represents p a) (handle : Handle) :
    p.registry.entry handle = a.ledger.entry handle := h.lists.entry handle.sector

/-- An open inode is that of a live file. -/
theorem Represents.open_file (h : Represents p a) (hopen : a.ledger.HasOpen handle) :
    ∃ d inode, FileAt p handle.sector d (a.record handle) ∧ a.record? handle.sector =
      some (a.record handle) ∧ a.open? handle.sector = some inode ∧ inode.growing = false := by
  obtain ⟨inode, hinode⟩ := Option.isSome_iff_exists.mp hopen
  obtain ⟨hlive, -, hidle⟩ := h.sound.attended hinode
  obtain ⟨f, hf⟩ := Option.isSome_iff_exists.mp hlive
  have hrecord : a.record handle = f := congrArg (Option.getD · _) hf
  obtain ⟨d, hfile⟩ := h.fileAt hf
  exact ⟨d, inode, hrecord ▸ hfile, hrecord ▸ hf, hinode, hidle⟩

/-- What is known of an open inode changes. -/
theorem Represents.change (h : Represents p a) {change : OpenInode → OpenInode}
    (hlive : (a.record? handle.sector).isSome = true)
    (hcount : 0 < (change (a.ledger.entry handle)).openCount)
    (hidle : (change (a.ledger.entry handle)).growing = false) :
    Represents { p with registry := p.registry.change handle change } (a.change handle change) :=
  ⟨h.sound.change hlive hcount hidle, h.freeMap, h.fits, h.lists.change _ _, h.record⟩

/-- A file was put at a sector. -/
theorem Represents.made (h : Represents p a) (hm : Made p p' x d f new)
    (hmem : ∀ y, y ∈ f.sectors x ↔ y ∈ new ∨ a.Holding x y) (hlists : registry.Lists a.open?) :
    Represents { p' with registry } (a.filed x f new) := by
  have hmap := h.freeMap
  have hfresh : a.freeMap.Fresh new := hmap ▸ hm.fresh
  refine ⟨h.sound.filed hfresh hmem hm.file.nodup, ?_, ?_, hlists, fun {z g} hz => ?_⟩
  · exact hm.freeMap.trans (congrArg (·.takeAll new) hmap)
  · rw [h.sound.sectors_filed hfresh]
    exact Nat.le_trans h.fits (Nat.le_of_eq hm.count.symm)
  rcases Archive.record?_filed hz with ⟨rfl, rfl⟩ | ⟨hne, hz⟩
  · exact ⟨d, hm.file.record⟩
  · obtain ⟨d', hrecord⟩ := h.record hz
    have hblock : ∀ y ∈ g.sectors z, p'.block y = p.block y := fun y hy =>
      hm.block y (hmap ▸ (h.sound.owned hz hy).2) (h.sound.apart_filed hfresh hmem hne hz hy)
    exact ⟨d', hrecord.frame (hblock z (Archive.self_mem_sectors g z))
      fun y hy => hblock y (List.mem_append_left _ hy)⟩

/-- A refusal changes nothing that is on record. -/
theorem Represents.unharmed (h : Represents p a) (hu : Unharmed p p' loose)
    (hfiles : ∀ {z g}, a.record? z = some g →
      (∀ y ∈ g.sectors z, y ∉ loose) ∨ ∃ d, FileAt p' z d g)
    (hlists : registry.Lists a.open?) : Represents { p' with registry } a := by
  refine ⟨h.sound, hu.freeMap.trans h.freeMap, hu.count.symm ▸ h.fits, hlists, ?_⟩
  intro z g hz
  rcases hfiles hz with hapart | ⟨d, hfile⟩
  · obtain ⟨d, hfile⟩ := h.fileAt hz
    exact ⟨d, (hu.fileAt hfile hapart).record⟩
  · exact ⟨d, hfile.record⟩

/-! ## Routines -/

/-- How a routine ends that gives an answer. -/
def ending : Except Error α → Except Halt α
  | .ok answer => .ok answer
  | .error e => .error (.refused e)

/-- A routine gives an answer, and the store is afterwards that of an archive. -/
def Gives (guarded : Bool) (r : Routine α) (p : Plain) (reply : Except Error α × Archive) : Prop :=
  ∃ p', Runs guarded r p (ending reply.1) p' ∧ Represents p' reply.2

theorem Gives.unguarded {guarded : Bool} {r : Routine α} {reply : Except Error α × Archive}
    (h : Gives guarded r p reply) : Gives false r p reply := by
  obtain ⟨p', hrun, hrepresents⟩ := h
  exact ⟨p', hrun.unguarded, hrepresents⟩

/-- At a free sector there is nothing. -/
theorem Archive.Sound.not_holding_of_free (h : a.Sound) (hx : a.freeMap.taken x.toNat = false) :
    ¬ a.Holding x y := by
  have hfree : ¬ a.freeMap.taken x.toNat = true := Bool.eq_false_iff.mp hx
  rintro (⟨g, hg, -⟩ | ⟨-, hspare⟩)
  · exact hfree (h.owned hg (Archive.self_mem_sectors g x)).2
  · exact hfree (h.spare hspare).2.1

/-- At a sector that was reserved there is no file. -/
theorem Archive.Sound.holding_of_spare (h : a.Sound) (hx : a.spare x = true) :
    a.Holding x y ↔ y = x := by
  constructor
  · rintro (⟨g, hg, -⟩ | ⟨he, -⟩)
    · exact absurd (Archive.self_mem_sectors g x) ((h.spare hx).2.2 hg)
    · exact he
  · intro he
    exact .inr ⟨he, hx⟩

theorem Archive.Sound.holding_of_record (h : a.Sound) (hx : a.record? x = some g) :
    a.Holding x y ↔ y ∈ g.sectors x := by
  constructor
  · rintro (⟨g', hg', hy⟩ | ⟨-, hspare⟩)
    · rw [hx] at hg'
      exact Option.some.inj hg' ▸ hy
    · exact absurd (Archive.self_mem_sectors g x) ((h.spare hspare).2.2 hx)
  · intro hy
    exact .inl ⟨g, hx, hy⟩

theorem Represents.create (h : Represents p a) (length : Nat) (isDir : Bool) :
    Gives true (Inode.create length isDir) p (a.create length isDir) := by
  have hmap := h.freeMap
  unfold Archive.create
  cases hclaim : claimNew a.freeMap length with
  | error e =>
    obtain ⟨p', hrun, hunharmed⟩ := create_refused h.lawful h.inside (hmap ▸ hclaim)
    exact ⟨p', hrun, h.unharmed hunharmed (fun _ => .inl fun _ _ => List.not_mem_nil)
      (hunharmed.registry ▸ h.lists)⟩
  | ok claimed =>
    obtain ⟨x, new⟩ := claimed
    obtain ⟨p', d, hrun, hmade⟩ := create_runs h.lawful h.inside (hmap ▸ hclaim)
    have hfree := h.sound.lawful.nextFree?_free (claimNew_ok hclaim).1
    refine ⟨p', hrun, h.made hmade ?_ (hmade.registry ▸ h.lists)⟩
    intro y
    have hnothing : ¬ a.Holding x y := h.sound.not_holding_of_free hfree
    rw [FileRecord.sectors, List.mem_append, List.mem_singleton, List.mem_cons, or_comm]
    exact ⟨.inl, fun hy => hy.resolve_right hnothing⟩

theorem Represents.createAt (h : Represents p a) (hx : a.spare x = true) (length : Nat) (isDir : Bool) :
    Gives true (Inode.createAt x length isDir) p (a.createAt x length isDir) := by
  have hmap := h.freeMap
  obtain ⟨hlt, htaken, -⟩ := h.sound.spare hx
  rw [← hmap] at hlt htaken
  unfold Archive.createAt
  cases hclaim : claim a.freeMap 0 length with
  | error e =>
    obtain ⟨p', hrun, hunharmed⟩ := createAt_refused h.lawful h.inside htaken hlt (hmap ▸ hclaim)
    exact ⟨p', hrun, h.unharmed hunharmed (fun _ => .inl fun _ _ => List.not_mem_nil)
      (hunharmed.registry ▸ h.lists)⟩
  | ok new =>
    obtain ⟨p', d, hrun, hmade⟩ := createAt_runs h.lawful h.inside htaken hlt (hmap ▸ hclaim)
    refine ⟨p', hrun, h.made hmade ?_ (hmade.registry ▸ h.lists)⟩
    intro y
    rw [h.sound.holding_of_spare hx, FileRecord.sectors, List.mem_append, List.mem_singleton]
    rfl

theorem Represents.isDenied (h : Represents p a) (handle : Handle) :
    p.registry.isDenied handle = decide (0 < (a.ledger.entry handle).denyCount) := by
  unfold Registry.isDenied
  rw [h.entry]

theorem Represents.write (h : Represents p a) (hopen : a.ledger.HasOpen handle) (offset : Nat)
    (data : Bytes) : Gives true (Inode.write handle offset data) p (a.write handle offset data) := by
  obtain ⟨d, inode, hfile, hrecord, hinode, hidle⟩ := h.open_file hopen
  have hdenied := h.isDenied handle
  unfold Archive.write
  by_cases hskips : a.ledger.Skips handle data
  · rw [if_pos hskips]
    by_cases hdeny : 0 < (a.ledger.entry handle).denyCount
    · exact ⟨p, write_denied (hdenied.trans (decide_eq_true hdeny)), h⟩
    · exact ⟨p, write_empty (hdenied.trans (decide_eq_false hdeny)) (hskips.resolve_left hdeny), h⟩
  rw [if_neg hskips]
  obtain ⟨hallowed, hdata⟩ := not_or.mp hskips
  have hallowed := hdenied.trans (decide_eq_false hallowed)
  have hdata := Nat.pos_of_ne_zero hdata
  cases hclaim : claim a.freeMap (a.record handle).bytes.size (offset + data.size) with
  | error e =>
    obtain ⟨p', registry, hrun, hunharmed, hfile', hlists⟩ :=
      write_refused hfile h.lists hinode hidle hallowed hdata (h.freeMap ▸ hclaim)
    refine ⟨_, hrun, h.unharmed hunharmed ?_ hlists⟩
    intro z g hz
    by_cases he : z = handle.sector
    · subst he
      rw [hrecord] at hz
      exact .inr ⟨d, Option.some.inj hz ▸ hfile'⟩
    · exact .inl fun y hy hy' =>
        he (h.sound.apart hz hrecord hy (List.mem_append_left _ hy'))
  | ok new =>
    obtain ⟨p', registry, d', hrun, hmade, hlists⟩ :=
      write_runs hfile h.lists hinode hidle hallowed hdata (h.freeMap ▸ hclaim)
    refine ⟨_, hrun, h.made hmade ?_ hlists⟩
    intro y
    rw [h.sound.holding_of_record hrecord]
    show y ∈ ((a.record handle).owned ++ new) ++ [handle.sector] ↔
      y ∈ new ∨ y ∈ (a.record handle).owned ++ [handle.sector]
    simp only [List.mem_append, or_assoc, or_left_comm]

/-- A file gives all its sectors back. -/
theorem Represents.released (h : Represents p a) (hx : a.record? x = some f)
    (hlists : registry.Lists (Function.update a.open? x none)) :
    Represents (given { p with registry } (f.sectors x)) (a.released x f) := by
  refine ⟨h.sound.released hx, congrArg (·.giveAll (f.sectors x)) h.freeMap, ?_, hlists,
    fun hz => h.record (Archive.record?_released hz).2⟩
  rw [h.sound.sectors_released hx]
  exact h.fits

/-- The registry at the end of a handle. -/
theorem Represents.registry_close (h : Represents p a) (handle : Handle) :
    Registry.close handle p.registry =
      if 1 < (a.ledger.entry handle).openCount then
        ⟨.ok false, p.registry.change handle fun inode =>
          { inode with openCount := inode.openCount - 1 }, []⟩
      else ⟨.ok (a.ledger.entry handle).removed, p.registry.erase handle.sector, []⟩ := by
  rw [← h.entry]
  rfl

/-- The end of a handle that is not the last one of a removed file. -/
theorem Represents.close_kept (h : Represents p a) (hopen : a.ledger.HasOpen handle)
    (hkept : 1 < (a.ledger.entry handle).openCount ∨ (a.ledger.entry handle).removed = false) :
    Gives true (Inode.close handle) p (.ok (), a.close handle) := by
  obtain ⟨d, inode, hfile, hrecord, hinode, -⟩ := h.open_file hopen
  have hlive : (a.record? handle.sector).isSome = true := hrecord ▸ rfl
  have hclose := h.registry_close handle
  unfold Archive.close
  by_cases hmany : 1 < (a.ledger.entry handle).openCount
  · rw [if_pos hmany] at hclose ⊢
    exact ⟨_, close_runs hclose,
      h.change hlive (Nat.sub_pos_of_lt hmany) (h.sound.idle handle)⟩
  · have hremoved := hkept.resolve_left hmany
    rw [if_neg hmany, hremoved] at hclose ⊢
    exact ⟨_, close_runs hclose, h.sound.shut _, h.freeMap, h.fits, h.lists.erase _, h.record⟩

/-- The end of the last handle of a removed file. -/
theorem Represents.close_gone (h : Represents p a) (hopen : a.ledger.HasOpen handle)
    (hone : ¬ 1 < (a.ledger.entry handle).openCount)
    (hremoved : (a.ledger.entry handle).removed = true) :
    Gives false (Inode.close handle) p (.ok (), a.close handle) := by
  obtain ⟨d, -, hfile, hrecord, -⟩ := h.open_file hopen
  have hclose := h.registry_close handle
  rw [if_neg hone, hremoved] at hclose
  unfold Archive.close
  rw [if_neg hone, hremoved]
  exact ⟨_, hfile.close_last hclose, h.released hrecord (h.lists.erase _)⟩

theorem Represents.close (h : Represents p a) (hopen : a.ledger.HasOpen handle) :
    Gives false (Inode.close handle) p (.ok (), a.close handle) := by
  by_cases hmany : 1 < (a.ledger.entry handle).openCount
  · exact (h.close_kept hopen (.inl hmany)).unguarded
  cases hremoved : (a.ledger.entry handle).removed with
  | true => exact h.close_gone hopen hmany hremoved
  | false => exact (h.close_kept hopen (.inr hremoved)).unguarded

/-! ## Questions -/

theorem Archive.ledger_file (a : Archive) (handle : Handle) :
    a.ledger.file handle = (a.record handle).file := by
  unfold Ledger.file Archive.record
  cases h : a.record? handle.sector with
  | none =>
    rw [show a.ledger.file? handle.sector = none from congrArg (Option.map _) h]
    rfl
  | some f =>
    rw [show a.ledger.file? handle.sector = some f.file from congrArg (Option.map _) h]
    rfl

/-- The bytes that are read are those the file has from the offset on. -/
theorem overlay_extract (f : FileRecord) (offset : Nat) (buffer : Bytes) :
    let part := f.bytes.extract offset (min (offset + buffer.size) f.bytes.size)
    (part.size, overlay buffer part) = f.file.readInto offset buffer := by
  intro part
  have hsize : part.size = min buffer.size (f.bytes.size - offset) := by
    rw [Array.size_extract]
    omega
  have hpart : part = f.bytes.extract offset (offset + min buffer.size (f.bytes.size - offset)) := by
    by_cases hoffset : offset ≤ f.bytes.size
    · have hstop : min (offset + buffer.size) f.bytes.size =
          offset + min buffer.size (f.bytes.size - offset) := by omega
      rw [← hstop]
    · rw [Array.extract_eq_empty_of_le (by omega)]
      exact Array.extract_eq_empty_of_le (by omega)
  unfold overlay File.readInto
  rw [hsize, hpart]
  rfl

theorem Represents.read (h : Represents p a) (hopen : a.ledger.HasOpen handle) (offset : Nat)
    (buffer : Bytes) : Gives true (Operation.readInto handle offset buffer) p
      (.ok ((a.ledger.file handle).readInto offset buffer), a) := by
  obtain ⟨d, -, hfile, -⟩ := h.open_file hopen
  rw [a.ledger_file, ← overlay_extract]
  exact ⟨p, hfile.read_runs.bind (Runs.pure _), h⟩

theorem Represents.length (h : Represents p a) (hopen : a.ledger.HasOpen handle) :
    Gives true (Inode.length handle) p (.ok (a.ledger.file handle).bytes.size, a) := by
  obtain ⟨d, -, hfile, -⟩ := h.open_file hopen
  rw [a.ledger_file]
  exact ⟨p, hfile.length_runs, h⟩

theorem Represents.isDir (h : Represents p a) (hopen : a.ledger.HasOpen handle) :
    Gives true (Inode.isDir handle) p (.ok (a.ledger.file handle).isDir, a) := by
  obtain ⟨d, -, hfile, -⟩ := h.open_file hopen
  rw [a.ledger_file]
  exact ⟨p, hfile.isDir_runs, h⟩

theorem Represents.ownedSectors (h : Represents p a) (hopen : a.ledger.HasOpen handle) :
    Gives true (Inode.ownedSectors handle.sector) p
      (.ok ((a.record handle).sectors handle.sector), a) := by
  obtain ⟨d, -, hfile, -⟩ := h.open_file hopen
  exact ⟨p, hfile.ownedSectors_runs, h⟩

/-- What a file answers to the question where a byte is. -/
def Inode.FileRecord.located (f : FileRecord) (offset : Nat) : Except Error SectorId :=
  match f.sectorAt offset with
  | some s => .ok s
  | none => .error .outOfRange

theorem Inode.FileAt.located_runs (h : FileAt p x d f) (offset : Nat) :
    Runs true (Inode.sectorOfByte ⟨x⟩ offset) p (ending (f.located offset)) p := by
  have hrun : Runs true (Inode.sectorOfByte ⟨x⟩ offset) p _ p := h.sectorOfByte_runs
  unfold FileRecord.located
  cases hsector : f.sectorAt offset with
  | some s =>
    rw [hsector] at hrun
    exact hrun
  | none =>
    rw [hsector] at hrun
    exact hrun

theorem Represents.sectorOfByte (h : Represents p a) (hopen : a.ledger.HasOpen handle) (offset : Nat) :
    Gives true (Inode.sectorOfByte handle offset) p (a.sectorOfByte handle offset, a) := by
  obtain ⟨d, -, hfile, -⟩ := h.open_file hopen
  exact ⟨p, hfile.located_runs offset, h⟩

/-! ## The registry -/

/-- An action of the registry gives an answer, and the store is afterwards that of an archive. -/
def GivesOpen (action : Action Registry α) (p : Plain) (answer : α) (a : Archive) : Prop :=
  ∃ registry log, action p.registry = ⟨.ok answer, registry, log⟩ ∧ Represents { p with registry } a

theorem Represents.openInode (h : Represents p a) (hlive : (a.record? x).isSome = true) :
    GivesOpen (Registry.openInode x) p ⟨x⟩
      (a.change ⟨x⟩ fun inode => { inode with openCount := inode.openCount + 1 }) :=
  ⟨_, [], rfl, h.change hlive (Nat.succ_pos _) (h.sound.idle _)⟩

/-- A handle on an open inode is one of a live file, and there are such handles. -/
theorem Represents.open_live (h : Represents p a) (hopen : a.ledger.HasOpen handle) :
    (a.record? handle.sector).isSome = true ∧ 0 < (a.ledger.entry handle).openCount := by
  obtain ⟨inode, hinode⟩ := Option.isSome_iff_exists.mp hopen
  obtain ⟨hlive, hcount, -⟩ := h.sound.attended hinode
  have hentry : a.ledger.entry handle = inode := congrArg (Option.getD · _) hinode
  exact ⟨hlive, hentry.symm ▸ hcount⟩

/-- A question to the registry. -/
theorem Represents.ask (h : Represents p a) (question : Registry → α) {answer : α}
    (hanswer : question p.registry = answer) : GivesOpen (Action.get question) p answer a := by
  refine ⟨p.registry, [], ?_, h⟩
  rw [← hanswer]
  rfl

theorem Represents.remove (h : Represents p a) (hopen : a.ledger.HasOpen handle) :
    GivesOpen (Registry.remove handle) p () (a.change handle fun inode => { inode with removed := true }) :=
  ⟨_, [], rfl, h.change (h.open_live hopen).1 (h.open_live hopen).2 (h.sound.idle _)⟩

theorem Represents.denyWrite (h : Represents p a) (hopen : a.ledger.HasOpen handle)
    (hroom : (a.ledger.entry handle).denyCount < (a.ledger.entry handle).openCount) :
    GivesOpen (Registry.denyWrite handle) p ()
      (a.change handle fun inode => { inode with denyCount := inode.denyCount + 1 }) := by
  refine ⟨_, [], ?_, h.change (h.open_live hopen).1 (h.open_live hopen).2 (h.sound.idle _)⟩
  have hentry : (p.registry.change handle fun inode =>
      { inode with denyCount := inode.denyCount + 1 }).entry handle =
        { a.ledger.entry handle with denyCount := (a.ledger.entry handle).denyCount + 1 } := by
    unfold Registry.change Registry.entry
    rw [Registry.find?_set, if_pos rfl, ← h.entry]
    rfl
  unfold Registry.denyWrite
  simp only [hentry, if_pos (Nat.succ_le_of_lt hroom)]

theorem Represents.allowWrite (h : Represents p a) (hopen : a.ledger.HasOpen handle)
    (hdenied : 0 < (a.ledger.entry handle).denyCount) :
    GivesOpen (Registry.allowWrite handle) p ()
      (a.change handle fun inode => { inode with denyCount := inode.denyCount - 1 }) := by
  refine ⟨_, [], ?_, h.change (h.open_live hopen).1 (h.open_live hopen).2 (h.sound.idle _)⟩
  unfold Registry.allowWrite
  rw [if_pos ((h.isDenied handle).trans (decide_eq_true hdenied))]

end InodeStore
