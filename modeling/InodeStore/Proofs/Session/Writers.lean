import InodeStore.Proofs.Session.Extending

/-!
# `Proofs.Session.Writers` — writing while others write and lengthen files
-/

namespace InodeStore

open Inode

/-- A job's part of block `k` of its file. -/
def Job.partAt (j : Job) (k : Nat) : Bytes := partOf j.write.offset j.write.bytes k

namespace Moment

/-- The file of a job with the job's part of block `k`. -/
def patchedAt (m : Moment) (j : Job) (k : Nat) : FileRecord :=
  (m.record j.sector).patched (max j.write.offset (512 * k)) (j.partAt k)

/-- That block. -/
def blockAt (m : Moment) (j : Job) (k : Nat) : Block :=
  blockOf (patched (m.record j.sector).bytes j.write.offset j.write.bytes) k

/-- The moment at which it is written. -/
def wrote (m : Moment) (j : Job) (k : Nat) (s : SectorId) : Moment :=
  m.file j.sector (m.patchedAt j k) [] (m.loose j.sector) s (m.blockAt j k)

end Moment

namespace Plan

variable {P : Plan} {m m' : Moment} {t k : Nat} {x y s : SectorId} {d : Descriptor} {v : Option SectorId}
  {spot up : Spot} {slot : Fin 128} {place : Position} {j : Job}

/-! ## Finding a block -/

/-- A copy of the descriptor is got, which the party that keeps the others from the file may change. -/
theorem load_secure (hstance : Stance t v m) (hx : (P.archive.record? x).isSome = true) :
    P.conduct.Secure t (fun d m => Stance t v m ∧ m.Leads x d ∧ (v = some x → d = m.descriptor x))
      (load x) m := by
  have hview : P.conduct.Secure t (fun b m => Stance t v m ∧ m.Leads x (.decode b) ∧
      (v = some x → .decode b = m.descriptor x) ∧ (Descriptor.decode b).isValid = true)
      (Routine.view x) m := by
    refine .ask (fun _ => rfl) fun m₁ hw => ?_
    have hm : P.Intact m₁ := hw.2
    have hrecord := hm.record? hx
    have hstance := hstance.later hw
    refine ⟨m₁.plain.block x, .view (hm.permits (Intact.owns_self hrecord)), fun m₂ hw' => ?_⟩
    refine ⟨hstance.later hw', (hw'.1 x).leads (hm.leads hrecord), ?_,
      (hm.fileAt hrecord).record.stored.valid⟩
    intro hv
    obtain ⟨-, -, -, hblock⟩ := (hw'.1 x).held (hstance.holder.mpr hv)
    exact congrArg Descriptor.decode (hblock x (.inl rfl)).symm
  apply hview.bind
  intro b m₁ hm₁ hlast
  obtain ⟨-, hleads, -, hvalid⟩ := hlast.now hm₁
  have hsize := Nat.le_trans hleads.size (Intact.size_le hm₁ (Intact.record? hm₁ hx)).2.2
  simp only [hvalid, Nat.not_lt.mpr hsize]
  refine Conduct.Secure.pure fun m₂ hw => ?_
  obtain ⟨hstance, hleads, hown, -⟩ := hlast m₂ hw
  exact ⟨hstance, hleads, hown⟩

/-- The file has this sector at the spot. -/
def At (x : SectorId) (spot : Spot) (s : SectorId) (m : Moment) : Prop :=
  spot ∈ m.spots x ∧ m.sectorAt x spot = s

theorem At.later (h : At x spot s m) (hw : P.conduct.Later t m m') : At x spot s m' :=
  ⟨(hw.1 x).mem_spots h.1, ((hw.1 x).same spot h.1).trans h.2⟩

/-- A copy of the descriptor leads to the sectors that the file has. -/
theorem At.of_leads (h : m.Leads x d) (hspot : spot ∈ spots (dataBlocks d.size)) :
    At x spot (sectorOf m.plain.block d spot) m :=
  ⟨spots_mono (dataBlocks_mono h.size) hspot, (h.same spot hspot).symm⟩

/-- A number is read in an index block. -/
theorem slot_secure (hstance : Stance t v m) (hx : (P.archive.record? x).isSome = true)
    (hup : At x up y m) (hspot : spot ∈ m.spots x) (hp : spot.parent? = some (up, slot)) :
    P.conduct.Secure t (fun b m => Stance t v m ∧ At x spot (b.pointer slot) m) (Routine.view y) m := by
  refine .ask (fun _ => rfl) fun m₁ hw => ?_
  have hm : P.Intact m₁ := hw.2
  obtain ⟨hmem, rfl⟩ := hup.later hw
  refine ⟨_, .view (hm.permits (hm.owns_spot (hm.record? hx) hmem)), fun m₂ hw' => ?_⟩
  have hat : At x spot ((m₁.plain.block (m₁.sectorAt x up)).pointer slot) m₁ :=
    ⟨(hw.1 x).mem_spots hspot, sectorOf_child hp⟩
  exact ⟨(hstance.later hw).later hw', hat.later hw'⟩

/-- **A block is found** by any copy of the descriptor that is long enough. -/
theorem follow_secure (hstance : Stance t v m) (hx : (P.archive.record? x).isSome = true)
    (hd : m.Leads x d) (hn : d.size ≤ maxFileSize) (hplace : place.number < dataBlocks d.size) :
    P.conduct.Secure t (fun s m => Stance t v m ∧ At x (.data place) s m) (follow d place) m := by
  have hdata := data_mem_spots (dataBlocks_le hn) hplace
  have hparent : ∀ {spot up slot}, spot ∈ spots (dataBlocks d.size) → spot.parent? = some (up, slot) →
      up ∈ spots (dataBlocks d.size) := fun h hp => parent_mem_spots (dataBlocks_le hn) h hp
  have hat := At.of_leads hd hdata
  cases place with
  | direct slot => exact .pure fun m₁ hw => ⟨hstance.later hw, hat.later hw⟩
  | indirect slot =>
    have hindex := At.of_leads hd (hparent hdata rfl)
    exact (slot_secure hstance hx hindex hat.1 rfl).bind fun b m₁ _ hlast => .pure hlast
  | doubly outer inner =>
    have hinner := At.of_leads hd (hparent hdata rfl)
    have houter := At.of_leads hd (hparent (hparent hdata rfl) rfl)
    have hfirst := (slot_secure hstance hx houter hinner.1 rfl).frame (fun hw hat => At.later hat hw) hat
    apply hfirst.bind
    intro b m₁ hm₁ hlast
    obtain ⟨⟨hstance₁, hinner₁⟩, hat₁⟩ := hlast.now hm₁
    exact (slot_secure hstance₁ hx hinner₁ hat₁.1 rfl).bind fun b m₂ _ hlast => .pure hlast

/-! ## Replacing a block -/

/-- A job has its turn with a block of its file. -/
structure Turn (P : Plan) (j : Job) (place : Position) (k : Nat) (s : SectorId) (m : Moment) : Prop where
  mem : j ∈ P.jobs
  number : place.number = k
  here : At j.sector (.data place) s m
  inside : j.last ≤ m.size j.sector
  starts : j.write.offset < 512 * (k + 1)
  ends : 512 * k < j.last

namespace Turn

variable {u : Nat}

theorem record? (h : P.Turn j place k s m) (hm : P.Intact m) :
    m.archive.record? j.sector = some (m.record j.sector) :=
  hm.record? (P.of_job h.mem).1

theorem later (h : P.Turn j place k s m) (hw : P.conduct.Later t m m') : P.Turn j place k s m' :=
  ⟨h.mem, h.number, h.here.later hw, Nat.le_trans h.inside (hw.1 _).develops.size, h.starts, h.ends⟩

theorem size_part (h : P.Turn j place k s m) :
    (j.partAt k).size = min j.last (512 * (k + 1)) - max j.write.offset (512 * k) :=
  size_partOf h.starts h.ends

theorem stop_eq (h : P.Turn j place k s m) :
    max j.write.offset (512 * k) + (j.partAt k).size = min j.last (512 * (k + 1)) := by
  have hsome := P.grants.some j h.mem
  have hstarts := h.starts
  have hends := h.ends
  rw [h.size_part]
  unfold Job.last at hends ⊢
  omega

theorem fits (h : P.Turn j place k s m) :
    max j.write.offset (512 * k) + (j.partAt k).size ≤ (m.record j.sector).bytes.size := by
  rw [h.stop_eq]
  exact Nat.le_trans (Nat.min_le_left _ _) h.inside

/-- A byte of the file afterwards: in the block it is the job's, elsewhere the old one. -/
theorem byte_eq (h : P.Turn j place k s m) (q : Nat) :
    (m.patchedAt j k).byte q =
      if j.Covers j.sector q ∧ 512 * k ≤ q ∧ q < 512 * (k + 1) then j.value q
      else (m.record j.sector).byte q := by
  have hpatched := getElem?_patched h.fits q
  rw [h.stop_eq] at hpatched
  have hin : (max j.write.offset (512 * k) ≤ q ∧ q < min j.last (512 * (k + 1))) ↔
      (j.Covers j.sector q ∧ 512 * k ≤ q ∧ q < 512 * (k + 1)) := by
    rw [Job.covers_self]
    omega
  show (patched (m.record j.sector).bytes _ (j.partAt k))[q]?.getD 0 = _
  rw [hpatched]
  by_cases hq : max j.write.offset (512 * k) ≤ q ∧ q < min j.last (512 * (k + 1))
  · have hindex : max j.write.offset (512 * k) + (q - max j.write.offset (512 * k)) = q := by omega
    rw [if_pos hq, if_pos (hin.mp hq)]
    show (partOf j.write.offset j.write.bytes k)[_]?.getD 0 = _
    have hlast : q < min (j.write.offset + j.write.bytes.size) (512 * (k + 1)) := hq.2
    rw [getElem?_partOf h.ends, hindex, if_pos hlast]
    rfl
  · rw [if_neg hq, if_neg fun hcovers => hq (hin.mpr hcovers)]
    rfl

/-- The blocks of the patched file. -/
theorem blockOf_eq (h : P.Turn j place k s m) (i : Nat) :
    blockOf (m.patchedAt j k).bytes i =
      if i = k then m.blockAt j k else blockOf (m.record j.sector).bytes i := by
  have hstop := h.stop_eq
  by_cases hi : i = k
  · subst hi
    rw [if_pos rfl]
    apply Vector.ext
    intro o ho
    have hbyte := h.byte_eq (512 * i + o)
    have hlast : j.write.offset + j.write.bytes.size ≤ (m.record j.sector).bytes.size := h.inside
    rw [Moment.blockAt, getElem_blockOf_patched hlast ho]
    have hcovers : (j.write.offset ≤ 512 * i + o ∧ 512 * i + o < j.write.offset + j.write.bytes.size) ↔
        (j.Covers j.sector (512 * i + o) ∧ 512 * i ≤ 512 * i + o ∧ 512 * i + o < 512 * (i + 1)) := by
      rw [Job.covers_self, Job.last]
      omega
    simp only [hcovers]
    unfold blockOf
    rw [Vector.getElem_ofFn, Vector.getElem_ofFn]
    exact hbyte
  · rw [if_neg hi]
    apply blockOf_patched_of_beyond h.fits
    rw [hstop]
    show 512 * (i + 1) ≤ max j.write.offset (512 * k) ∨ min j.last (512 * (k + 1)) ≤ 512 * i
    omega

/-- The file has new bytes, and a job offers them. -/
theorem develops (h : P.Turn j place k s m) :
    Develops P.jobs j.sector (m.record j.sector) (m.patchedAt j k) where
  isDir := rfl
  size := Nat.le_of_eq (size_patched h.fits).symm
  byte q := by
    rw [h.byte_eq]
    split
    · next hq => exact .inr ⟨j, h.mem, hq.1, rfl⟩
    · exact .inl rfl

section Wrote

variable (h : P.Turn j place k s m) (hm : P.Intact m)
include h hm

theorem fileAt : FileAt m.plain j.sector (m.descriptor j.sector) (m.record j.sector) :=
  hm.fileAt (h.record? hm)

theorem owns : m.Owns j.sector s := h.here.2 ▸ hm.owns_spot (h.record? hm) h.here.1

theorem ne_self : s ≠ j.sector := h.here.2 ▸ hm.spot_ne (h.record? hm) h.here.1

/-- Numbers of sectors are in index blocks, and this is a data block. -/
theorem ne_index (hspot : spot ∈ m.spots j.sector) (hindex : spot.isIndex = true) :
    m.sectorAt j.sector spot ≠ s := by
  intro he
  rw [← h.here.2] at he
  rw [hm.spot_injective (h.record? hm) hspot h.here.1 he] at hindex
  cases hindex

theorem keepsSlots (b : Block) : KeepsSlots m j.sector (m.plain.put s b).block := by
  intro u hu up slot hp
  have hne := h.ne_index hm (hm.parent_mem (h.record? hm) hu hp) (Spot.isIndex_of_parent? hp)
  exact congrArg (Block.pointer · slot) (m.plain.block_put_of_ne hne b)

/-- What is in the block before. -/
theorem block_eq : m.plain.block s = blockOf (m.record j.sector).bytes k := by
  have hfile := h.fileAt hm
  have hmem := (hm.mem_spots (h.record? hm)).mpr h.here.1
  have hlt := (mem_spots (dataBlocks_le hfile.record.stored.size)).mp hmem
  rw [← h.here.2, ← h.number]
  exact hfile.record.holds.data place (hfile.record.holds.size ▸ hlt)

/-- **The patched file is on record.** -/
theorem onRecord : OnRecord (m.plain.put s (m.blockAt j k)).block j.sector (m.descriptor j.sector)
    (m.patchedAt j k) := by
  have hx := h.record? hm
  have hfile := h.fileAt hm
  have hsize : (m.patchedAt j k).bytes.size = (m.record j.sector).bytes.size := size_patched h.fits
  have hn := dataBlocks_le hfile.record.stored.size
  have hsame := hm.sectorOf_eq hx (hm.leads hx) (h.keepsSlots hm (m.blockAt j k))
  have hself : (m.plain.put s (m.blockAt j k)).block j.sector = m.plain.block j.sector :=
    m.plain.block_put_of_ne (h.ne_self hm).symm _
  refine ⟨⟨hself ▸ hfile.record.stored.decode, hfile.record.stored.valid, hfile.record.stored.size⟩,
    hfile.record.isDir, ⟨hfile.record.holds.size.trans hsize.symm, ?_⟩,
    (List.map_congr_left hsame).trans hfile.record.owned⟩
  intro place' hplace'
  rw [hsize] at hplace'
  have hlt := hfile.record.holds.size.symm ▸ hplace'
  rw [hsame _ (data_mem_spots hn hlt), h.blockOf_eq]
  by_cases he : place'.number = k
  · obtain rfl : place' = place := Position.number_injective (he.trans h.number.symm)
    rw [if_pos he, show sectorOf m.plain.block (m.descriptor j.sector) (.data place') = s from h.here.2,
      m.plain.block_put_self]
  · have hmem := (hm.mem_spots hx).mp (data_mem_spots hn hlt)
    have hne : sectorOf m.plain.block (m.descriptor j.sector) (.data place') ≠ s := by
      intro hs
      have hspot := hm.spot_injective hx hmem h.here.1 (hs.trans h.here.2.symm)
      rw [Spot.data.injEq] at hspot
      exact he (hspot ▸ h.number)
    rw [if_neg he, m.plain.block_put_of_ne hne]
    exact hfile.record.holds.data place' hplace'

theorem wrote : P.Intact (m.wrote j k s) := by
  have hsize : (m.patchedAt j k).bytes.size = (m.record j.sector).bytes.size := size_patched h.fits
  have hloose : m.loose j.sector = [] ++ m.loose j.sector := rfl
  refine hm.file (h.record? hm) (h.owns hm) hloose (h.onRecord hm) (h.fileAt hm).nodup ?_ h.develops
    ?_ ?_
  · intro y
    exact (or_iff_left List.not_mem_nil).symm
  · rw [hsize]
    exact hm.target j.sector
  · rw [hsize]
    rfl

/-- The others can rely on all that they relied on. -/
theorem respects_wrote : ∀ z, Respects P.jobs u m (m.wrote j k s) z := by
  intro z
  by_cases hz : z = j.sector
  · subst hz
    have hx := h.record? hm
    have hrecord : (m.wrote j k s).record j.sector = m.patchedAt j k := (record_file m _ _ _ _ _ _).1
    have hself : (m.wrote j k s).descriptor j.sector = m.descriptor j.sector :=
      congrArg Descriptor.decode (m.plain.block_put_of_ne (h.ne_self hm).symm _)
    refine hm.respects hx (hrecord ▸ h.develops) (h.keepsSlots hm _) ?_ id fun he => ⟨he, ?_, ?_, ?_⟩
    · intro spot _
      rw [Moment.sectorAt, hself]
    · exact Function.update_self _ _ _
    · unfold Moment.size
      rw [hrecord]
      exact size_patched h.fits
    · intro y hy
      apply m.plain.block_put_of_ne
      rintro rfl
      rw [← h.here.2] at hy
      exact hm.data_not_frame hx h.here.1 rfl hy
  · exact hm.respects_file (h.owns hm) hz _ _

end Wrote

end Turn

/-- Bytes of the file are those that jobs have for them. -/
def Done (P : Plan) (j : Job) (first last : Nat) (m : Moment) : Prop :=
  ∀ q, first ≤ q → q < last → j.Covers j.sector q → Offered P.jobs j.sector q ((m.record j.sector).byte q)

/-- They are so for good. -/
theorem Done.later {first last : Nat} (h : P.Done j first last m) (hw : P.conduct.Later t m m') :
    P.Done j first last m' := by
  intro q hfirst hlast hcovers
  rcases (hw.1 j.sector).develops.byte q with hsame | hnew
  · exact hsame.symm ▸ h q hfirst hlast hcovers
  · exact hnew

theorem Turn.done_wrote (h : P.Turn j place k s m) :
    P.Done j (512 * k) (512 * (k + 1)) (m.wrote j k s) := by
  intro q hfirst hlast hcovers
  rw [Moment.wrote, (record_file m _ _ _ _ _ _).1, h.byte_eq, if_pos ⟨hcovers, hfirst, hlast⟩]
  exact ⟨j, h.mem, hcovers, rfl⟩

/-- A block more has a job's bytes. -/
theorem Turn.does {c : Call} {answer : Except Fault c.Answer} (h : P.Turn j place k s m) (hm : P.Intact m)
    (hanswers : Answers true c m.plain answer (m.plain.put s (m.blockAt j k))) :
    P.conduct.Does t m c answer (m.wrote j k s) :=
  ⟨hanswers, h.wrote hm, fun _ _ => h.respects_wrote hm⟩

theorem Stance.wrote (h : Stance t v m) : Stance t v (m.wrote j k s) := by
  constructor
  · exact h.holder
  · intro z hv
    by_cases hz : z = j.sector
    · subst hz
      exact (Function.update_self _ _ _).trans (h.settled hv)
    · exact (Function.update_of_ne hz _ _).trans (h.settled hv)

/-- **A part of a job is written** to its block, whatever the others make of the rest of it. A part that is
    a whole block is stored without a look at what is there. -/
theorem part_secure (hstance : Stance t v m) (h : P.Turn j place k s m) :
    P.conduct.Secure t (fun _ m => Stance t v m ∧ P.Done j (512 * k) (512 * (k + 1)) m)
      (if (j.partAt k).size = sectorSize then Routine.store s (Block.ofBytes (j.partAt k))
      else Routine.update s fun block =>
        block.splice (max j.write.offset (512 * k) % sectorSize) (j.partAt k)) m := by
  have hend : ∀ {m₁}, P.conduct.Later t m m₁ → P.conduct.Lasts t
      (fun m => Stance t v m ∧ P.Done j (512 * k) (512 * (k + 1)) m) (m₁.wrote j k s) := fun hw m₂ hw' =>
    ⟨((hstance.later hw).wrote).later hw', (h.later hw).done_wrote.later hw'⟩
  by_cases hfull : (j.partAt k).size = 512
  · rw [if_pos hfull]
    refine .perform_ready (fun _ => rfl) fun m₁ hw => ?_
    have h := h.later hw
    have hblock : Block.ofBytes (j.partAt k) = m₁.blockAt j k := ofBytes_part h.inside h.starts h.ends hfull
    rw [hblock]
    exact ⟨(), _, h.does hw.2 (.store (Intact.permits hw.2 (h.owns hw.2))), hend hw⟩
  · rw [if_neg hfull]
    refine .perform_ready (fun _ => rfl) fun m₁ hw => ?_
    have h := h.later hw
    have hblock : (m₁.plain.block s).splice (max j.write.offset (512 * k) % 512) (j.partAt k) =
        m₁.blockAt j k := by
      rw [h.block_eq hw.2]
      exact splice_part h.inside h.starts h.ends
    have hanswers : Answers true (.update s fun block =>
        block.splice (max j.write.offset (512 * k) % 512) (j.partAt k)) m₁.plain (.ok ()) _ :=
      .update (Intact.permits hw.2 (h.owns hw.2))
    rw [hblock] at hanswers
    exact ⟨(), _, h.does hw.2 hanswers, hend hw⟩

/-! ## Inside of a file -/

theorem Done.nil {first last : Nat} (h : last ≤ first) : P.Done j first last m := by
  intro q hfirst hlast
  omega

theorem Done.append {first middle last : Nat} (h : P.Done j first middle m) (h' : P.Done j middle last m) :
    P.Done j first last m := by
  intro q hfirst hlast hcovers
  by_cases hq : q < middle
  · exact h q hfirst hq hcovers
  · exact h' q (Nat.le_of_not_lt hq) hlast hcovers

theorem Leads.later (h : m.Leads x d) (hw : P.conduct.Later t m m') : m'.Leads x d := (hw.1 x).leads h

/-- The parts of a job are written one after the other. -/
theorem writeSpans_secure {count : Nat} (hj : j ∈ P.jobs) (written : Nat) (hstance : Stance t v m)
    (hd : m.Leads j.sector d) (hn : d.size ≤ maxFileSize) (hlast : j.last ≤ d.size)
    (hk : j.write.offset / sectorSize ≤ k) (hcount : k + count = dataBlocks j.last) :
    P.conduct.Secure t (fun n m => Stance t v m ∧ P.Done j (512 * k) j.last m ∧
        n = written + (j.last - max j.write.offset (512 * k)))
      (writeSpans d j.write.offset j.write.bytes written
        ((List.range' k count).map (Span.inBlock j.write.offset j.last))) m := by
  change j.write.offset / 512 ≤ k at hk
  have hsome := P.grants.some j hj
  have hstop : j.last = j.write.offset + j.write.bytes.size := rfl
  induction count generalizing k m written with
  | zero =>
    unfold dataBlocks at hcount
    refine Conduct.Secure.pure fun m₁ hw => ⟨hstance.later hw, Done.nil (by omega), ?_⟩
    omega
  | succ count ih =>
    have hends : 512 * k < j.last := by
      unfold dataBlocks at hcount
      omega
    have hstarts : j.write.offset < 512 * (k + 1) := by omega
    have hpart : (j.partAt k).size + (j.last - max j.write.offset (512 * (k + 1))) =
        j.last - max j.write.offset (512 * k) := size_part_add hstarts hends
    obtain ⟨place, hlocate, hnumber, hlt⟩ :=
      locate?_block hn hk (show max j.write.offset (512 * k) < d.size by omega)
    have hspan : Span.inBlock j.write.offset j.last k =
        ⟨max j.write.offset (512 * k), min j.last (512 * (k + 1))⟩ := rfl
    rw [List.range'_succ, List.map_cons, hspan, writeSpans_cons hlocate]
    -- where the block is, the others do not change
    have hfollow := (follow_secure hstance (P.of_job hj).1 hd hn hlt).frame
      (fun hw h => Leads.later h hw) hd
    apply hfollow.bind
    intro s m₁ hm₁ hlast₁
    obtain ⟨⟨hstance₁, hat⟩, hd₁⟩ := hlast₁.now hm₁
    have hturn : P.Turn j place k s m₁ :=
      ⟨hj, hnumber, hat, Nat.le_trans hlast hd₁.size, hstarts, hends⟩
    have hwrite := (part_secure hstance₁ hturn).frame (fun hw h => Leads.later h hw) hd₁
    apply hwrite.bind
    intro _ m₂ hm₂ hlast₂
    obtain ⟨⟨hstance₂, hdone⟩, hd₂⟩ := hlast₂.now hm₂
    have hrest := ih (k := k + 1) (written + (j.partAt k).size) hstance₂ hd₂ (by omega) (by omega)
    refine (hrest.frame (fun hw h => Done.later h hw) hdone).mono ?_
    rintro n m₃ - ⟨⟨hstance₃, hbehind, rfl⟩, hdone₃⟩
    refine ⟨hstance₃, hdone₃.append hbehind, ?_⟩
    rw [Nat.add_assoc, hpart]

/-- A job is done: the file is long enough, and its bytes are those that jobs have for them. -/
structure Written (P : Plan) (j : Job) (m : Moment) : Prop where
  size : j.last ≤ m.size j.sector
  done : P.Done j 0 j.last m

theorem Written.later (h : P.Written j m) (hw : P.conduct.Later t m m') : P.Written j m' :=
  ⟨Nat.le_trans h.size (hw.1 j.sector).develops.size, h.done.later hw⟩

/-- **A job is done inside of a file** that is long enough. -/
theorem writeInside_secure (hj : j ∈ P.jobs) (hstance : Stance t v m) (hd : m.Leads j.sector d)
    (hn : d.size ≤ maxFileSize) (hlast : j.last ≤ d.size) :
    P.conduct.Secure t (fun n m => Stance t v m ∧ n = j.write.bytes.size ∧ P.Written j m)
      (writeInside d j.write.offset j.write.bytes) m := by
  have hsome := P.grants.some j hj
  have hstop : j.last = j.write.offset + j.write.bytes.size := rfl
  have hfirst : j.write.offset < j.last := by omega
  have hblocks : j.write.offset / 512 < dataBlocks j.last := div_lt_dataBlocks hfirst
  have hsecure := (writeSpans_secure hj 0 hstance hd hn hlast (Nat.le_refl _)
    (Nat.add_sub_cancel' (Nat.le_of_lt hblocks))).frame (fun hw h => Leads.later h hw) hd
  unfold writeInside
  rw [← hstop, spans_eq hfirst]
  refine hsecure.mono ?_
  rintro n m₁ - ⟨⟨hstance₁, hdone, rfl⟩, hd₁⟩
  refine ⟨hstance₁, ?_, Nat.le_trans hlast hd₁.size, ?_⟩
  · show 0 + (j.last - max j.write.offset (512 * (j.write.offset / 512))) = _
    omega
  · intro q _ hq hcovers
    have hoffset := (Job.covers_self.mp hcovers).1
    exact hdone q (show 512 * (j.write.offset / 512) ≤ q by omega) hq hcovers

/-! ## The right to lengthen a file -/

/-- Nobody lengthens a file to which nobody has the right. -/
theorem Intact.holder_none (h : P.Intact m) (hx : x ∈ filesOf P.jobs)
    (hready : m.plain.ready (.beginGrowth ⟨x⟩) = true) : m.holder x = none := by
  obtain ⟨j, hj, rfl⟩ := mem_filesOf.mp hx
  obtain ⟨-, inode, hinode, -⟩ := P.of_job hj
  have hgrowing : (m.plain.registry.entry ⟨j.sector⟩).growing = false := by
    simpa [Plain.ready, Registry.isGrowing] using hready
  rw [h.lists.entry, hinode] at hgrowing
  exact Option.isNone_iff_eq_none.mp (Option.not_isSome_iff_eq_none.mp
    (Bool.eq_false_iff.mp hgrowing) ▸ rfl)

theorem Stance.idle (h : Stance t none m) : P.conduct.Idle t m := fun z hz =>
  (Option.some_ne_none z).elim (h.holder.mp hz).symm

/-- The right is taken, when nobody else has it. -/
theorem beginGrowth_secure (ht : t < P.parties) (hstance : Stance t none m) (hx : x ∈ filesOf P.jobs) :
    P.conduct.Secure t (fun _ m => Stance t (some x) m) (Routine.perform (.beginGrowth ⟨x⟩)) m := by
  refine .perform fun m₁ hw => ?_
  have hm : P.Intact m₁ := hw.2
  have hstance₁ := hstance.later hw
  refine ⟨fun _ => hstance₁.idle, fun hready => ?_⟩
  have hnone := hm.holder_none hx hready
  have hpass : P.Intact (m₁.pass x (some t)) :=
    hm.pass hx (hm.unheld hnone) fun u hu => Option.some.inj hu ▸ ht
  have hdoes : P.conduct.Does t m₁ (.beginGrowth ⟨x⟩) (.ok ()) (m₁.pass x (some t)) := by
    refine ⟨.beginGrowth, hpass, fun u hu => ?_⟩
    apply hm.respects_pass (hm.record? (P.live_of_mem hx))
    · rw [hnone]
      exact (Option.some_ne_none u).symm
    · exact fun he => hu (Option.some.inj he).symm
  have hstance₂ : Stance t (some x) (m₁.pass x (some t)) := by
    constructor
    · intro z
      show Function.update m₁.holder x (some t) z = some t ↔ _
      by_cases hz : z = x
      · simp [hz]
      · rw [Function.update_of_ne hz, hstance₁.holder]
        simp [Ne.symm hz]
    · intro z hz
      exact Option.some.inj hz ▸ hm.unheld hnone
  exact ⟨(), _, hdoes, fun _ hw' => hstance₂.later hw'⟩

/-- The right is given up. -/
theorem endGrowth_secure (hstance : Stance t (some x) m) :
    P.conduct.Secure t (fun _ m => Stance t none m) (Routine.perform (.endGrowth ⟨x⟩)) m := by
  refine .perform_ready (fun _ => rfl) fun m₁ hw => ?_
  have hm : P.Intact m₁ := hw.2
  have hstance₁ := hstance.later hw
  have hheld : m₁.holder x = some t := hstance₁.holder.mpr rfl
  have hx := (hm.holder hheld).2
  have hpass : P.Intact (m₁.pass x none) :=
    hm.pass hx (hstance₁.settled rfl) fun u hu => by cases hu
  have hdoes : P.conduct.Does t m₁ (.endGrowth ⟨x⟩) (.ok ()) (m₁.pass x none) := by
    refine ⟨.endGrowth, hpass, fun u hu => ?_⟩
    apply hm.respects_pass (hm.record? (P.live_of_mem hx))
    · rw [hheld]
      exact fun he => hu (Option.some.inj he).symm
    · exact (Option.some_ne_none u).symm
  have hstance₂ : Stance t none (m₁.pass x none) := by
    constructor
    · intro z
      show Function.update m₁.holder x none z = some t ↔ _
      by_cases hz : z = x
      · simp [hz]
      · rw [Function.update_of_ne hz, hstance₁.holder]
        simp [Ne.symm hz]
    · exact fun hz => by cases hz
  exact ⟨(), _, hdoes, fun _ hw' => hstance₂.later hw'⟩

/-! ## A whole write -/

/-- A routine that is done while the others are kept from the file. -/
theorem exclusively_secure {α : Type} {r : Routine α} {post : α → Moment → Prop} (ht : t < P.parties)
    (hstance : Stance t none m) (hx : x ∈ filesOf P.jobs)
    (hr : ∀ m₁, P.Intact m₁ → Stance t (some x) m₁ →
      P.conduct.Secure t (fun a m => Stance t (some x) m ∧ post a m) r m₁)
    (hpost : ∀ {a u m m'}, P.conduct.Later u m m' → post a m → post a m') :
    P.conduct.Secure t (fun a m => Stance t none m ∧ post a m) (Routine.exclusively ⟨x⟩ r) m := by
  apply (beginGrowth_secure ht hstance hx).bind
  intro _ m₁ hm₁ hlast
  refine (hr m₁ hm₁ (hlast.now hm₁)).always ?_
  intro a m₂ hm₂ hlast
  obtain ⟨hstance₂, hpost₂⟩ := hlast.now hm₂
  exact (endGrowth_secure hstance₂).frame hpost hpost₂

/-- Writing to the file of a job is not denied. -/
theorem isDenied_secure (hj : j ∈ P.jobs) (hstance : Stance t v m) :
    P.conduct.Secure t (fun denied m => Stance t v m ∧ denied = false)
      (Routine.isDenied j.handle) m := by
  refine .ask (fun _ => rfl) fun m₁ hw => ?_
  obtain ⟨-, inode, hinode, hallowed⟩ := P.of_job hj
  have hdenied : m₁.plain.registry.isDenied j.handle = false := by
    unfold Registry.isDenied
    rw [show j.handle = ⟨j.sector⟩ from rfl, Intact.lists hw.2 |>.entry, hinode]
    exact decide_eq_false (Nat.not_lt.mpr (Nat.le_of_eq hallowed))
  exact ⟨_, .isDenied, fun m₂ hw' => ⟨(hstance.later hw).later hw', hdenied⟩⟩

/-- A copy of the descriptor is that of a file that is not too long. -/
theorem Leads.size_le (hd : m.Leads x d) (hm : P.Intact m) (hx : (P.archive.record? x).isSome = true) :
    d.size ≤ maxFileSize := Nat.le_trans hd.size (hm.size_le (hm.record? hx)).2.2

/-- The part of a write that is kept from others. Another party may have lengthened the file in the
    meantime, so the length is looked at again. -/
theorem lengthenAndWrite_secure (hj : j ∈ P.jobs) (hstance : Stance t (some j.sector) m) :
    P.conduct.Secure t (fun n m => Stance t (some j.sector) m ∧ n = j.write.bytes.size ∧ P.Written j m)
      (lengthenAndWrite j.sector j.write.offset j.write.bytes) m := by
  have hlive := (P.of_job hj).1
  apply (load_secure hstance hlive).bind
  intro d m₁ hm₁ hlast₁
  obtain ⟨hstance₁, hd, hown⟩ := hlast₁.now hm₁
  rw [show j.write.offset + j.write.bytes.size = j.last from rfl]
  by_cases hbeyond : d.size < j.last
  · rw [if_pos hbeyond]
    obtain rfl : d = m₁.descriptor j.sector := hown rfl
    have hsize := Intact.size_le hm₁ (Intact.record? hm₁ hlive)
    have hlong : m₁.size j.sector ≤ j.last := hsize.2.1 ▸ Nat.le_of_lt hbeyond
    apply (extend_secure hstance₁ hm₁ hlong (last_le_lengthAfter hj rfl)).bind
    intro d₂ m₂ hm₂ hlast₂
    obtain ⟨hstance₂, hd₂, hsize₂⟩ := hlast₂.now hm₂
    exact writeInside_secure hj hstance₂ hd₂ (Leads.size_le hd₂ hm₂ hlive) (Nat.le_of_eq hsize₂.symm)
  · rw [if_neg hbeyond]
    exact writeInside_secure hj hstance₁ hd (Leads.size_le hd hm₁ hlive) (Nat.le_of_not_lt hbeyond)

/-- **A write of one party** is carried out and answered with the number of its bytes, whatever the others
    do in the meantime. The length that it goes by is an old one, so who has to lengthen the file looks
    at it again when it is its turn. -/
theorem write_secure (hj : j ∈ P.jobs) (ht : t < P.parties) (hstance : Stance t none m) :
    P.conduct.Secure t (fun n m => Stance t none m ∧ n = j.write.bytes.size ∧ P.Written j m)
      (write j.handle j.write.offset j.write.bytes) m := by
  have hx : j.sector ∈ filesOf P.jobs := mem_filesOf.mpr ⟨j, hj, rfl⟩
  have hlive := (P.of_job hj).1
  have hfits : ¬ maxFileSize < j.last := Nat.not_lt.mpr (P.grants.fits j hj)
  have hsome : j.write.bytes.isEmpty = false := by
    refine Bool.eq_false_iff.mpr fun he => ?_
    have hzero := Array.isEmpty_iff_size_eq_zero.mp he
    exact Nat.ne_of_gt (P.grants.some j hj) hzero
  unfold write
  apply (isDenied_secure hj hstance).bind
  intro denied m₁ hm₁ hlast₁
  obtain ⟨hstance₁, rfl⟩ := hlast₁.now hm₁
  simp only [hsome, Bool.false_eq_true, if_false]
  rw [show j.write.offset + j.write.bytes.size = j.last from rfl, if_neg hfits]
  apply (load_secure hstance₁ hlive).bind
  intro d m₂ hm₂ hlast₂
  obtain ⟨hstance₂, hd, -⟩ := hlast₂.now hm₂
  by_cases hinside : j.last ≤ d.size
  · rw [if_pos hinside]
    exact writeInside_secure hj hstance₂ hd (Leads.size_le hd hm₂ hlive) hinside
  · rw [if_neg hinside]
    refine exclusively_secure ht hstance₂ hx ?_ fun hw h => ⟨h.1, h.2.later hw⟩
    exact fun m₃ _ hstance₃ => lengthenAndWrite_secure hj hstance₃

/-- **All jobs of one party** are done. -/
theorem writeJobs_secure {jobs : List Job} (hjobs : ∀ j ∈ jobs, j ∈ P.jobs) (ht : t < P.parties)
    (hstance : Stance t none m) :
    P.conduct.Secure t (fun ns m => Stance t none m ∧ ns = jobs.map (·.write.bytes.size) ∧
      ∀ j ∈ jobs, P.Written j m) (writeJobs jobs) m := by
  induction jobs generalizing m with
  | nil => exact .pure fun m₁ hw => ⟨hstance.later hw, rfl, fun _ hj => (List.not_mem_nil hj).elim⟩
  | cons j rest ih =>
    rw [writeJobs]
    apply (write_secure (hjobs j List.mem_cons_self) ht hstance).bind
    intro n m₁ hm₁ hlast
    obtain ⟨hstance₁, rfl, hwritten⟩ := hlast.now hm₁
    have hrest := (ih (fun j hj => hjobs j (List.mem_cons_of_mem _ hj)) hstance₁).frame
      (fun hw h => Written.later h hw) hwritten
    apply hrest.bind
    intro ns m₂ _ hlast
    refine .pure fun m₃ hw => ?_
    obtain ⟨⟨hstance₃, rfl, hall⟩, hfirst⟩ := hlast m₃ hw
    refine ⟨hstance₃, rfl, ?_⟩
    intro j' hj'
    rcases List.mem_cons.mp hj' with rfl | hj'
    · exact hfirst
    · exact hall j' hj'

end Plan

end InodeStore
