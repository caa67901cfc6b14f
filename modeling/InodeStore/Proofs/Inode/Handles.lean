import InodeStore.Proofs.Inode.Making
import InodeStore.Proofs.Inode.Registry

/-!
# `Proofs.Inode.Handles` — writing through a handle, and the end of one

A write is not carried out while it is denied, and has nothing to do without bytes. Any other is carried
out exactly if the sectors that it may need can be claimed: `write_runs` puts the bytes over those of the
file, with zeros after its last byte if it grows, and `write_refused` leaves everything in use as it was.
The registry may have been used on the way and is then the same function of the sector as before.

`close_last` ends the last handle of a removed file, whose sectors are given back, and `close_runs` any
other.
-/

namespace InodeStore.Inode

open Routine

variable {p p' q : Plain} {d : Descriptor} {x : SectorId} {f : FileRecord} {new loose : List SectorId}
  {offset : Nat} {data : Bytes} {opened : SectorId → Option OpenInode} {inode : OpenInode} {e : Error}

/-! ## The registry apart -/

/-- Which registry a store has does not matter to the files in it. -/
theorem FileAt.withRegistry (h : FileAt p x d f) (registry : Registry) :
    FileAt { p with registry } x d f :=
  h.frame h.hung.lawful rfl rfl (fun _ hs => (h.mem hs).2) fun _ _ => rfl

theorem Made.withRegistry {registry : Registry} (h : Made { p with registry } q x d f new) :
    Made p { q with registry := p.registry } x d f new :=
  ⟨⟨h.fresh, h.freeMap, h.took, h.gave, rfl, h.count⟩, h.file.withRegistry _, h.block⟩

theorem Unharmed.withRegistry {registry : Registry} (h : Unharmed { p with registry } q loose) :
    Unharmed p { q with registry := p.registry } loose :=
  ⟨h.freeMap, rfl, h.count, h.block⟩

/-! ## Inside of a file -/

/-- A file after other bytes were put over its own. -/
def FileRecord.patched (f : FileRecord) (offset : Nat) (data : Bytes) : FileRecord :=
  { f with bytes := Inode.patched f.bytes offset data }

/-- **Bytes are put inside of a file** that can be used, and it can be used afterwards. -/
theorem FileAt.writeInside_runs (h : FileAt p x d f) (hlast : offset + data.size ≤ f.bytes.size)
    (hsome : 0 < data.size) :
    ∃ p', Runs true (writeInside d offset data) p (.ok data.size) p' ∧
      FileAt p' x d (f.patched offset data) ∧ (∀ y, y ∉ f.owned → p'.block y = p.block y) ∧
      p' = { p with block := p'.block } := by
  have hrecord := h.record
  have hn := dataBlocks_le hrecord.stored.size
  obtain ⟨p', hrun, hchanged, hholds⟩ :=
    Inode.writeInside_runs hrecord.stored.size h.hung hrecord.holds hlast hsome
  have hframe : ∀ y, y ∉ f.owned → p'.block y = p.block y := fun y hy => by
    refine hchanged.frame y fun place hplace he => hy ?_
    rw [he, ← hrecord.owned]
    exact List.mem_map_of_mem (data_mem_spots hn hplace)
  have hrest := hchanged.rest
  refine ⟨p', hrun, ⟨⟨?_, hrecord.isDir, hholds, ?_⟩, hchanged.hung, ?_, ?_, h.own⟩, hframe, hrest⟩
  · exact ⟨hframe x h.own ▸ hrecord.stored.decode, hrecord.stored.valid, hrecord.stored.size⟩
  · exact (List.map_congr_left hchanged.same).trans hrecord.owned
  · rw [hrest]
    exact h.taken
  · rw [hrest]
    exact h.inside

/-- A file that was made and then written. -/
theorem Made.written (h : Made p q x d f new) (hfile : FileAt p' x d (f.patched offset data))
    (hframe : ∀ y, y ∉ f.owned → p'.block y = q.block y) (hrest : p' = { q with block := p'.block }) :
    Made p p' x d (f.patched offset data) new := by
  refine ⟨⟨h.fresh, ?_, ?_, ?_, ?_, ?_⟩, hfile, ?_⟩
  · rw [hrest]
    exact h.freeMap
  · rw [hrest]
    exact h.took
  · rw [hrest]
    exact h.gave
  · rw [hrest]
    exact h.registry
  · rw [hrest]
    exact h.count
  · intro y hy hy'
    exact (hframe y fun hown => hy' (List.mem_append_left _ hown)).trans (h.block y hy hy')

/-! ## Writing -/

/-- A file after a write that may have lengthened it. -/
def FileRecord.written (f : FileRecord) (offset : Nat) (data : Bytes) (new : List SectorId) : FileRecord :=
  (f.longer (max f.bytes.size (offset + data.size)) new).patched offset data

theorem padded_size (bytes : Bytes) : padded bytes bytes.size = bytes := by
  unfold padded
  rw [Nat.sub_self, Array.replicate_zero, Array.append_empty]

/-- Nothing is written while it is denied. -/
theorem write_denied (h : p.registry.isDenied ⟨x⟩ = true) :
    Runs true (write ⟨x⟩ offset data) p (.ok 0) p := by
  apply (Runs.perform .isDenied).bind
  rw [if_pos h]
  exact (Runs.emit _).bind (Runs.pure 0)

/-- Without bytes there is nothing to write. -/
theorem write_empty (h : p.registry.isDenied ⟨x⟩ = false) (hdata : data.size = 0) :
    Runs true (write ⟨x⟩ offset data) p (.ok 0) p := by
  apply (Runs.perform .isDenied).bind
  rw [h, if_neg Bool.false_ne_true, if_pos (Array.isEmpty_iff_size_eq_zero.mpr hdata)]
  exact Runs.pure 0

/-- The part of a write that is kept from others. -/
def lengthenAndWrite (x : SectorId) (offset : Nat) (data : Bytes) : Routine Nat := do
  let d ← load x
  let d ← if d.size < offset + data.size then extend x d (offset + data.size) else pure d
  writeInside d offset data

theorem FileAt.lengthenAndWrite_runs (h : FileAt p x d f) (hbeyond : d.size < offset + data.size)
    {ending : Except Halt Nat}
    (hrun : Runs true (extend x d (offset + data.size) >>= fun d => writeInside d offset data) p ending
      p') :
    Runs true (lengthenAndWrite x offset data) p ending p' := by
  apply h.load_runs.bind
  rw [if_pos hbeyond]
  exact hrun

/-- A write that is carried out if the file can have so many bytes. -/
theorem write_eq (h : p.registry.isDenied ⟨x⟩ = false) (hdata : 0 < data.size)
    {ending : Except Halt Nat} (hrun : Runs true (
      if maxFileSize < offset + data.size then refuse .fileTooLarge
      else do
        let d ← load x
        if offset + data.size ≤ d.size then writeInside d offset data
        else exclusively ⟨x⟩ (lengthenAndWrite x offset data)) p ending p') :
    Runs true (write ⟨x⟩ offset data) p ending p' := by
  apply (Runs.perform .isDenied).bind
  have hsome : ¬ data.isEmpty = true := fun he =>
    Nat.ne_of_gt hdata (Array.isEmpty_iff_size_eq_zero.mp he)
  rw [h, if_neg Bool.false_ne_true, if_neg hsome]
  exact hrun

/-- A write inside of a file is no more than that. -/
theorem FileAt.write_inside (h : FileAt p x d f) (hallowed : p.registry.isDenied ⟨x⟩ = false)
    (hdata : 0 < data.size) (hlong : ¬ maxFileSize < offset + data.size)
    (hinside : offset + data.size ≤ d.size) {ending : Except Halt Nat}
    (hrun : Runs true (writeInside d offset data) p ending p') :
    Runs true (write ⟨x⟩ offset data) p ending p' := by
  apply write_eq hallowed hdata
  rw [if_neg hlong]
  apply h.load_runs.bind
  rw [if_pos hinside]
  exact hrun

/-- A write beyond the end of a file is kept from others. -/
theorem FileAt.write_beyond (h : FileAt p x d f) (hallowed : p.registry.isDenied ⟨x⟩ = false)
    (hdata : 0 < data.size) (hlong : ¬ maxFileSize < offset + data.size)
    (hbeyond : d.size < offset + data.size) {ending : Except Halt Nat}
    (hrun : Runs true (extend x d (offset + data.size) >>= fun d => writeInside d offset data)
      { p with registry := (Registry.setGrowing ⟨x⟩ true p.registry).state } ending p') :
    Runs true (write ⟨x⟩ offset data) p ending
      { p' with registry := (Registry.setGrowing ⟨x⟩ false p'.registry).state } := by
  apply write_eq hallowed hdata
  rw [if_neg hlong]
  apply h.load_runs.bind
  rw [if_neg (Nat.not_le.mpr hbeyond)]
  exact Runs.exclusively ((h.withRegistry _).lengthenAndWrite_runs hbeyond hrun)

/-- No sector is needed inside of a file. -/
theorem claim_inside (map : FreeMap) {old length : Nat} (h : length ≤ old) (hold : old ≤ maxFileSize) :
    claim map old length = .ok [] := by
  have hblocks : dataBlocks length - dataBlocks old = 0 := by
    unfold dataBlocks
    omega
  unfold claim spotsBetween
  rw [if_neg (Nat.not_lt.mpr (Nat.le_trans h hold)), hblocks]
  rfl

/-- A file that cannot get so long is too long by the claim. -/
theorem claim_long (map : FreeMap) (old : Nat) {length : Nat} (h : maxFileSize < length) :
    claim map old length = .error .fileTooLarge := if_pos h

/-- A file that stays as long as it is. -/
theorem written_inside (f : FileRecord) (h : offset + data.size ≤ f.bytes.size) :
    f.written offset data [] = f.patched offset data := by
  unfold FileRecord.written FileRecord.longer
  rw [Nat.max_eq_left h, padded_size, List.append_nil]

theorem Made.refl (h : FileAt p x d f) : Made p p x d f [] := ⟨Spent.refl p, h, fun _ _ _ => rfl⟩

section Write

variable (h : FileAt p x d f) (hlists : p.registry.Lists opened) (hopen : opened x = some inode)
  (hidle : inode.growing = false) (hallowed : p.registry.isDenied ⟨x⟩ = false) (hdata : 0 < data.size)
include h hlists hopen hidle hallowed hdata

/-- **A write that is carried out.** -/
theorem write_runs (hclaim : claim p.freeMap f.bytes.size (offset + data.size) = .ok new) :
    ∃ p' registry d', Runs true (write ⟨x⟩ offset data) p (.ok data.size) { p' with registry } ∧
      Made p p' x d' (f.written offset data new) new ∧ registry.Lists opened := by
  have hsize := h.record.holds.size
  by_cases hlong : maxFileSize < offset + data.size
  · rw [claim_long _ _ hlong] at hclaim
    cases hclaim
  by_cases hinside : offset + data.size ≤ f.bytes.size
  · -- the bytes go over others, and no sector is taken
    rw [claim_inside _ hinside (hsize ▸ h.record.stored.size)] at hclaim
    cases hclaim
    obtain ⟨p', hrun, hfile, hframe, hrest⟩ := h.writeInside_runs hinside hdata
    have hsame : { p' with registry := p.registry } = p' := by rw [hrest]
    refine ⟨p', p.registry, d, ?_, ?_, hlists⟩
    · rw [hsame]
      exact h.write_inside hallowed hdata hlong (hsize ▸ hinside) hrun
    · rw [written_inside f hinside]
      exact (Made.refl h).written hfile hframe hrest
  · -- the file grows to the end of the bytes, which are then put inside of it
    have hbeyond := Nat.lt_of_not_le hinside
    have hfile := h.withRegistry (Registry.setGrowing ⟨x⟩ true p.registry).state
    rw [← hsize] at hclaim
    obtain ⟨q, grown, hextend, hmade⟩ := extend_runs hfile (hsize ▸ Nat.le_of_lt hbeyond) hclaim
    have hlast : offset + data.size ≤ (f.longer (offset + data.size) new).bytes.size :=
      Nat.le_of_eq (size_padded (Nat.le_of_lt hbeyond)).symm
    obtain ⟨q', hwrite, hfile', hframe, hrest⟩ := hmade.file.writeInside_runs hlast hdata
    have hmade' := hmade.written hfile' hframe hrest
    have hrun := h.write_beyond hallowed hdata hlong (hsize ▸ hbeyond) (hextend.bind hwrite)
    rw [hmade'.registry] at hrun
    refine ⟨{ q' with registry := p.registry }, _, grown, hrun, ?_, hlists.regrown hopen hidle⟩
    unfold FileRecord.written
    rw [Nat.max_eq_right (Nat.le_of_lt hbeyond)]
    exact hmade'.withRegistry

/-- **A write that is refused.** -/
theorem write_refused (hclaim : claim p.freeMap f.bytes.size (offset + data.size) = .error e) :
    ∃ p' registry, Runs true (write ⟨x⟩ offset data) p (.error (.refused e)) { p' with registry } ∧
      Unharmed p p' f.owned ∧ FileAt p' x d f ∧ registry.Lists opened := by
  have hsize := h.record.holds.size
  by_cases hlong : maxFileSize < offset + data.size
  · rw [claim_long _ _ hlong] at hclaim
    cases hclaim
    refine ⟨p, p.registry, write_eq hallowed hdata ?_, ⟨rfl, rfl, rfl, fun _ _ _ => rfl⟩, h, hlists⟩
    rw [if_pos hlong]
    exact .halt
  by_cases hinside : offset + data.size ≤ f.bytes.size
  · -- inside of the file no sector is needed
    rw [claim_inside _ hinside (hsize ▸ h.record.stored.size)] at hclaim
    cases hclaim
  · have hbeyond := Nat.lt_of_not_le hinside
    have hfile := h.withRegistry (Registry.setGrowing ⟨x⟩ true p.registry).state
    rw [← hsize] at hclaim
    obtain ⟨q, hextend, hunharmed, hfile'⟩ :=
      extend_refused hfile (hsize ▸ Nat.le_of_lt hbeyond) hclaim
    have hrun := h.write_beyond hallowed hdata hlong (hsize ▸ hbeyond) hextend.bind_halt
    rw [hunharmed.registry] at hrun
    exact ⟨{ q with registry := p.registry }, _, hrun, hunharmed.withRegistry, hfile'.withRegistry _,
      hlists.regrown hopen hidle⟩

end Write

/-! ## Closing -/

/-- The end of a handle that is not the last one of a removed file. -/
theorem close_runs {registry : Registry} (h : Registry.close ⟨x⟩ p.registry = ⟨.ok false, registry, []⟩) :
    Runs true (close ⟨x⟩) p (.ok ()) { p with registry } := by
  have hanswer : Answers true (.close ⟨x⟩) p _ _ := .close
  rw [h] at hanswer
  exact (Runs.perform hanswer).bind (Runs.pure ())

/-- **The end of the last handle of a removed file.** -/
theorem FileAt.close_last (hf : FileAt p x d f) {registry : Registry}
    (h : Registry.close ⟨x⟩ p.registry = ⟨.ok true, registry, []⟩) :
    Runs false (close ⟨x⟩) p (.ok ()) (given { p with registry } (f.sectors x)) := by
  have hanswer : Answers false (.close ⟨x⟩) p _ _ := .close
  rw [h] at hanswer
  exact (Runs.perform hanswer).bind (hf.withRegistry registry).releaseInode_runs

end InodeStore.Inode
