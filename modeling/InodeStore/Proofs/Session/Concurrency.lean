import InodeStore.Proofs.Session.Ownership
import InodeStore.Proofs.Session.Writers
import InodeStore.Proofs.Volume.Usage

/-!
# `Proofs.Session.Concurrency` — several writers on one store

`Concluded` is what several writers come to. All of them do, in whatever order they make their calls
(`writers_conclude`); when each of them makes a call in turn, they do if there are enough turns
(`runTogether_concludes`), and whenever all of them have ended (`writeTogether_concludes`).
-/

namespace InodeStore

open Inode

variable {δ : Type} {n : Nat} [BlockDevice δ] {store : Store δ n} {ledger : Ledger}
  {programs : List (List Job)}

/-- Parties that are to do the jobs of a program each, before the first call. -/
def Store.startJobs (store : Store δ n) (programs : List (List Job)) : Store.Parties δ n (List Nat) :=
  ⟨store, (programs.map writeJobs).toArray⟩

/-- What several writers come to, each of which has done the jobs of a program. -/
structure Concluded (store : Store δ n) (ledger : Ledger) (programs : List (List Job))
    (final : Store.Parties δ n (List Nat)) : Prop where
  /-- Each call of each party was answered with the number of its bytes. -/
  answers : ∀ {t : Nat} {program : List Job}, programs[t]? = some program →
    final.routines[t]? = some (Routine.done (program.map (·.write.bytes.size)))
  /-- A file is as long as it was or as the job that reaches farthest. -/
  lengths : ∀ {x}, ledger.Live x → (final.store.run (Inode.length ⟨x⟩)).result =
    .ok (.ok (ledger.finalLength programs.flatten x))
  /-- A byte that one job covers alone is that job's, and one that no job covers is the old one, or zero
      behind the old end. -/
  content : ∀ {x}, ledger.Live x → ∃ bytes,
    (final.store.run (Inode.read ⟨x⟩ 0 (ledger.finalLength programs.flatten x))).result =
        .ok (.ok bytes) ∧
      bytes.size = ledger.finalLength programs.flatten x ∧
      ∀ q < bytes.size,
        (∀ j, programs.flatten.filter (·.Covers x q) = [j] → bytes[q]? = some (j.value q)) ∧
        (programs.flatten.filter (·.Covers x q) = [] →
          bytes[q]? = some ((ledger.file ⟨x⟩).bytes[q]?.getD 0))
  /-- No sector is one of two files or twice one of one file. -/
  owners : ∃ owned, Ownership final.store ledger owned
  /-- So many sectors were taken as the files have more. -/
  taken : final.store.freeMap.freeCount + ledger.growth programs.flatten = store.freeMap.freeCount

/-- Nobody lengthens a file before or after. -/
theorem Archive.Sound.map_idle {a : Archive} (h : a.Sound) :
    (fun x => (a.open? x).map fun inode => { inode with growing := false }) = a.open? := by
  funext x
  cases hopen : a.open? x with
  | none => rfl
  | some inode =>
    have hidle := (h.attended hopen).2.2
    exact congrArg (fun growing => some { inode with growing }) hidle.symm

/-- Who has which sector does not depend on what is in the files. -/
theorem Ownership.of_alike {ledger' : Ledger} {owned : SectorId → List SectorId}
    (h : Ownership store ledger owned) (hlive : ∀ x, ledger.Live x ↔ ledger'.Live x)
    (hopen : ledger.open? = ledger'.open?) (hspare : ledger.spare = ledger'.spare) :
    Ownership store ledger' owned where
  listed hx := h.listed ((hlive _).mpr hx)
  nodup hx := h.nodup ((hlive _).mpr hx)
  disjoint hx hz := h.disjoint ((hlive _).mpr hx) ((hlive _).mpr hz)
  inside hx := h.inside ((hlive _).mpr hx)
  allocated hy := by
    simp only [← hspare, ← hlive]
    exact h.allocated hy
  closing := by
    intro x hlast
    apply h.closing
    unfold Ledger.LastOfRemoved Ledger.HasOpen Ledger.entry at hlast ⊢
    rw [hopen]
    exact hlast

namespace Plan

variable {P : Plan} {m : Moment} {x : SectorId} {j : Job}

/-- The moment before the first call. -/
def start (P : Plan) : Moment := ⟨P.plain, P.archive, fun _ => none, fun _ => []⟩

theorem start_intact (P : Plan) : P.Intact P.start := by
  constructor
  case represents => exact P.represents
  case lists =>
    show P.plain.registry.Lists fun x => (P.archive.open? x).map fun inode => { inode with growing := false }
    rw [P.represents.sound.map_idle]
    exact P.represents.lists
  case isOpen => rfl
  case live => exact fun _ => rfl
  case develops => exact fun x => .refl _ _ _
  case target => exact P.le_target
  case spare =>
    intro y
    exact ⟨.inl, fun h => h.resolve_right fun ⟨_, hy⟩ => List.not_mem_nil hy⟩
  case fresh => exact fun hy => (List.not_mem_nil hy).elim
  case nodup => exact fun _ => List.nodup_nil
  case apart => exact fun hy => (List.not_mem_nil hy).elim
  case unheld => exact fun _ => rfl
  case holder => exact fun hx => (Option.some_ne_none _ hx.symm).elim
  case used => exact fun x => totalBlocks_mono (P.le_target x)
  case count => rfl

/-- The moment after the last call. -/
structure Finished (P : Plan) (m : Moment) : Prop where
  intact : P.Intact m
  idle : ∀ x, m.holder x = none
  written : ∀ j ∈ P.jobs, P.Written j m

namespace Finished

theorem represents (h : P.Finished m) : Represents m.plain m.archive := by
  have hrepresents := h.intact.represents
  refine { hrepresents with lists := ?_ }
  have hlists := h.intact.lists
  have hentries : (fun x => (P.archive.open? x).map fun inode =>
      { inode with growing := (m.holder x).isSome }) = P.archive.open? := by
    simp only [h.idle, Option.isSome_none]
    exact P.represents.sound.map_idle
  rw [hentries] at hlists
  rw [h.intact.isOpen]
  exact hlists

theorem live_iff (h : P.Finished m) (x : SectorId) : m.archive.ledger.Live x ↔ P.archive.ledger.Live x := by
  rw [Archive.live_iff, Archive.live_iff, ← Option.isSome_iff_exists, ← Option.isSome_iff_exists,
    h.intact.live]

theorem spare_eq (h : P.Finished m) : m.archive.spare = P.archive.spare := by
  funext y
  refine Bool.eq_iff_iff.mpr ((h.intact.spare y).trans (or_iff_left ?_))
  rintro ⟨x, hy⟩
  rw [h.intact.unheld (h.idle x)] at hy
  cases hy

/-- **Every file is as long as it has to be**, and no longer. -/
theorem size_eq (h : P.Finished m) (x : SectorId) : m.size x = P.target x := by
  refine Nat.le_antisymm (h.intact.target x) (lengthAfter_le ?_ ?_)
  · rw [P.archive.ledger_file]
    exact (h.intact.develops x).size
  · rintro j hj rfl
    exact (h.written j hj).size

/-- A byte that one job covers alone. -/
theorem byte_covered (h : P.Finished m) {q : Nat} (hone : P.jobs.filter (·.Covers x q) = [j]) :
    (m.record x).byte q = j.value q := by
  have hmem : j ∈ P.jobs.filter (·.Covers x q) := hone ▸ List.mem_singleton_self j
  obtain ⟨hj, hcovers⟩ := List.mem_filter.mp hmem
  have hcovers := of_decide_eq_true hcovers
  obtain ⟨rfl, hoffset, hlast⟩ := hcovers
  have hoffered := (h.written j hj).done q (Nat.zero_le q) hlast ⟨rfl, hoffset, hlast⟩
  exact hoffered.eq_value hone

/-- A byte that no job covers. -/
theorem byte_kept (h : P.Finished m) {q : Nat} (hnone : P.jobs.filter (·.Covers x q) = []) :
    (m.record x).byte q = (P.archive.record ⟨x⟩).byte q :=
  ((h.intact.develops x).byte q).resolve_right (Offered.not_of_nil hnone)

/-- **So many sectors were taken** as the files have more. -/
theorem free_add (h : P.Finished m) :
    m.plain.freeMap.freeCount + P.archive.ledger.growth P.jobs = P.plain.freeMap.freeCount := by
  have hused : ∀ x ∈ filesOf P.jobs, m.used x = totalBlocks (P.target x) := by
    intro x _
    unfold Moment.used
    rw [h.intact.unheld (h.idle x), h.size_eq]
    rfl
  have hcount := h.intact.count
  rw [Finset.sum_congr rfl hused] at hcount
  have hgrowth := P.growth_add
  omega

end Finished

section Store

variable [LawfulDevice δ] (hn : 0 < n) (hstands : Stands store m.plain) (h : P.Finished m)
include hn hstands h

/-- What a question to a file of the finished store is answered with. -/
theorem Finished.run_eq {α : Type} {r : Routine α} {a : α} {f : FileRecord}
    (hx : m.archive.record? x = some f)
    (hr : ∀ {d}, FileAt m.plain x d f → Runs true r m.plain (.ok a) m.plain) :
    (store.run r).result = .ok (.ok a) := by
  obtain ⟨store', log, hrun, -⟩ := (hr (h.intact.fileAt hx)).run_eq hn hstands
  rw [hrun]
  rfl

theorem Finished.length_eq (hlive : P.archive.ledger.Live x) :
    (store.run (Inode.length ⟨x⟩)).result = .ok (.ok (P.target x)) := by
  obtain ⟨f, hf⟩ := (m.archive.live_iff x).mp ((h.live_iff x).mpr hlive)
  rw [← h.size_eq, (h.intact.size_le hf).1]
  exact h.run_eq hn hstands hf fun hfile => hfile.length_runs

/-- All bytes of a file are read. -/
theorem Finished.read_eq (hlive : P.archive.ledger.Live x) :
    (store.run (Inode.read ⟨x⟩ 0 (P.target x))).result = .ok (.ok (m.record x).bytes) := by
  obtain ⟨f, hf⟩ := (m.archive.live_iff x).mp ((h.live_iff x).mpr hlive)
  have hrecord : m.record x = f := congrArg (Option.getD · _) hf
  have hall : f.bytes.extract 0 (min (0 + P.target x) f.bytes.size) = f.bytes := by
    rw [← h.size_eq, (h.intact.size_le hf).1, Nat.zero_add, Nat.min_self, Array.extract_size]
  have hread := h.run_eq (r := Inode.read ⟨x⟩ 0 (P.target x)) hn hstands hf fun hfile => hfile.read_runs
  rw [hall] at hread
  rw [hrecord]
  exact hread

theorem Finished.ownership : ∃ owned, Ownership store P.archive.ledger owned := by
  have howned := h.represents.ownership hn hstands
  exact ⟨_, howned.of_alike h.live_iff h.intact.isOpen h.spare_eq⟩

end Store

/-! ## All parties -/

/-- How the party ends that has this program. -/
def Ends (P : Plan) (programs : List (List Job)) (t : Nat) (ns : List Nat) (m : Moment) : Prop :=
  Stance t none m ∧ ∃ program, programs[t]? = some program ∧ ns = program.map (·.write.bytes.size) ∧
    ∀ j ∈ program, P.Written j m

variable [LawfulDevice δ]

/-- Before the first call every party keeps to what the others rely on. -/
theorem start_kept (hjobs : P.jobs = programs.flatten) (hparties : P.parties = programs.length)
    (hstands : Stands store P.plain) :
    P.conduct.Kept (P.Ends programs) (store.startJobs programs) P.start := by
  refine ⟨hstands, P.start_intact, ?_, ?_⟩
  · show (programs.map writeJobs).toArray.size = P.parties
    simp [hparties]
  · intro t r hr
    change (programs.map writeJobs).toArray[t]? = some r at hr
    simp only [List.getElem?_toArray, List.getElem?_map, Option.map_eq_some_iff] at hr
    obtain ⟨program, hprogram, rfl⟩ := hr
    obtain ⟨hlt, -⟩ := List.getElem?_eq_some_iff.mp hprogram
    have hmine : ∀ j ∈ program, j ∈ P.jobs := fun j hj =>
      hjobs ▸ List.mem_flatten.mpr ⟨program, List.mem_of_getElem? hprogram, hj⟩
    have hstance : Stance t none P.start :=
      ⟨⟨fun hz => (Option.some_ne_none t hz.symm).elim, fun hz => by cases hz⟩, fun _ => rfl⟩
    refine (writeJobs_secure hmine (hparties.symm ▸ hlt) hstance).mono ?_
    rintro ns m₁ - ⟨hstance₁, hns, hwritten⟩
    exact ⟨hstance₁, program, hprogram, hns, hwritten⟩

section Parties

variable {final : Store.Parties δ n (List Nat)} (hparties : P.parties = programs.length)
  (hkept : P.conduct.Kept (P.Ends programs) final m)
  (hended : ∀ {t r}, final.routines[t]? = some r → ∃ ns, r = .done ns ∧ P.Ends programs t ns m)
include hparties hkept hended

/-- How the party with a program has ended. -/
theorem ended {t : Nat} {program : List Job} (hprogram : programs[t]? = some program) :
    final.routines[t]? = some (Routine.done (program.map (·.write.bytes.size))) ∧ Stance t none m ∧
      ∀ j ∈ program, P.Written j m := by
  obtain ⟨hlt, -⟩ := List.getElem?_eq_some_iff.mp hprogram
  have hsize : final.routines.size = programs.length := hkept.size.trans hparties
  have hget := Array.getElem?_eq_getElem (Nat.lt_of_lt_of_eq hlt hsize.symm)
  obtain ⟨ns, hns, hstance, program', hprogram', rfl, hwritten⟩ := hended hget
  obtain rfl : program' = program := Option.some.inj (hprogram'.symm.trans hprogram)
  exact ⟨hns ▸ hget, hstance, hwritten⟩

variable (hjobs : P.jobs = programs.flatten)
include hjobs

theorem finished : P.Finished m := by
  refine ⟨hkept.sound, ?_, ?_⟩
  · intro x
    refine Option.eq_none_iff_forall_ne_some.mpr fun t ht => ?_
    obtain ⟨hlt, -⟩ := Intact.holder hkept.sound ht
    have hprogram := List.getElem?_eq_getElem (hparties ▸ hlt)
    obtain ⟨-, hstance, -⟩ := ended hparties hkept hended hprogram
    exact Stance.idle (P := P) hstance x ht
  · intro j hj
    rw [hjobs] at hj
    obtain ⟨program, hprogram, hmine⟩ := List.mem_flatten.mp hj
    obtain ⟨t, ht⟩ := List.mem_iff_getElem?.mp hprogram
    obtain ⟨-, -, hwritten⟩ := ended hparties hkept hended ht
    exact hwritten j hmine

/-- **What all parties come to**, in whatever order they made their calls. -/
theorem concluded (hn : 0 < n) (hstore : Stands store P.plain) :
    Concluded store P.archive.ledger programs final := by
  have h := finished hparties hkept hended hjobs
  have hstands : Stands final.store m.plain := hkept.stands
  have htarget : ∀ x, P.archive.ledger.finalLength programs.flatten x = P.target x := fun x =>
    congrArg (P.archive.ledger.finalLength · x) hjobs.symm
  constructor
  case answers => exact fun hprogram => (ended hparties hkept hended hprogram).1
  case lengths =>
    intro x hlive
    rw [htarget]
    exact h.length_eq hn hstands hlive
  case content =>
    intro x hlive
    rw [htarget]
    refine ⟨_, h.read_eq hn hstands hlive, h.size_eq x, ?_⟩
    intro q hq
    have hget : (m.record x).bytes[q]? = some ((m.record x).byte q) := by
      unfold FileRecord.byte
      rw [Array.getElem?_eq_getElem hq]
      rfl
    rw [hget, ← hjobs]
    constructor
    · intro j hone
      rw [h.byte_covered hone]
    · intro hnone
      rw [h.byte_kept hnone, P.archive.ledger_file]
      rfl
  case owners => exact h.ownership hn hstands
  case taken =>
    rw [hstands.freeMap, hstore.freeMap, ← hjobs]
    exact h.free_add

end Parties

end Plan

section Together

variable [LawfulDevice δ] {p : Plain} {a : Archive}

/-- **All parties come to an end** that have jobs which an archive grants. -/
theorem Represents.concludes (hrepresents : Represents p a) (hn : 0 < n) (hstands : Stands store p)
    (hgrants : a.ledger.Grants programs.flatten store.freeMap.freeCount) :
    (store.startJobs programs).Inevitably (Concluded store a.ledger programs) := by
  have hgrants : a.ledger.Grants programs.flatten p.freeMap.freeCount := hstands.freeMap ▸ hgrants
  let P : Plan := ⟨programs.length, programs.flatten, p, a, hrepresents, hgrants⟩
  have hkept := P.start_kept rfl rfl hstands
  refine hkept.inevitably hn (fun hends => hends.1.idle) ?_
  intro final m hkept hended
  exact Plan.concluded rfl hkept hended rfl hn hstands

/-- **Writers that work at the same time.** Any number of parties do jobs of their own through open handles,
    and there are sectors for all that has to be lengthened. In whatever order they make their calls, all
    of them come to an end; each write was carried out and answered with the number of its bytes, each
    file is as long as it has to be, its bytes are those that were written to it, no sector has two owners,
    and no sector was taken that no file has. -/
theorem writers_conclude (h : Reached store ledger ∨ InUse store ledger)
    (hgrants : ledger.Grants programs.flatten store.freeMap.freeCount) :
    (store.startJobs programs).Inevitably (Concluded store ledger programs) := by
  obtain ⟨hn, p, a, hstands, hrepresents, rfl⟩ := represented h
  exact hrepresents.concludes hn hstands hgrants

end Together

/-- Two parties that both have to lengthen one file, for which there is one free sector. -/
theorem writers_conclude_opened :
    openedLedger.Grants [⟨⟨0⟩, ⟨3, #[7]⟩⟩, ⟨⟨0⟩, ⟨0, #[8]⟩⟩] openedStore.freeMap.freeCount ∧
      (openedStore.startJobs [[⟨⟨0⟩, ⟨3, #[7]⟩⟩], [⟨⟨0⟩, ⟨0, #[8]⟩⟩]]).Inevitably
        (Concluded openedStore openedLedger [[⟨⟨0⟩, ⟨3, #[7]⟩⟩], [⟨⟨0⟩, ⟨0, #[8]⟩⟩]]) := by
  have hgrants : openedLedger.Grants [⟨⟨0⟩, ⟨3, #[7]⟩⟩, ⟨⟨0⟩, ⟨0, #[8]⟩⟩]
      openedStore.freeMap.freeCount := by decide +kernel
  exact ⟨hgrants, writers_conclude (.inl openedStore_reached) hgrants⟩

/-! ## In turn -/

section Turns

variable [LawfulDevice δ] {writers : List (Handle × List Store.Write)}

/-- The jobs of a party that writes to one file. -/
def jobsThrough (writer : Handle × List Store.Write) : List Job := writer.2.map fun w => ⟨writer.1, w⟩

omit [BlockDevice δ] [LawfulDevice δ] in
/-- Parties that write to one file each are parties with jobs. -/
theorem startJobs_jobsThrough (store : Store δ n) (writers : List (Handle × List Store.Write)) :
    store.startJobs (writers.map jobsThrough) =
      ⟨store, (writers.map fun w => Store.writeAll w.1 w.2).toArray⟩ := by
  have hroutines : (writers.map fun w => Store.writeAll w.1 w.2) =
      writers.map (writeJobs ∘ jobsThrough) :=
    List.map_congr_left fun w _ => writeAll_eq w.1 w.2
  rw [hroutines, ← List.map_map]
  rfl

variable (h : Reached store ledger ∨ InUse store ledger)
  (hgrants : ledger.Grants (writers.map jobsThrough).flatten store.freeMap.freeCount)
include h hgrants

theorem writers_inevitably : Store.Parties.Inevitably (Concluded store ledger (writers.map jobsThrough))
    ⟨store, (writers.map fun w => Store.writeAll w.1 w.2).toArray⟩ := by
  obtain ⟨hn, p, a, hstands, hrepresents, rfl⟩ := represented h
  exact startJobs_jobsThrough store writers ▸ hrepresents.concludes hn hstands hgrants

/-- **Writers that take turns** come to what they would come to in any other order, if there are enough
    turns. -/
theorem runTogether_concludes : ∃ least, ∀ bound, least ≤ bound → ∃ final log,
    Store.runTogether bound (writers.map fun w => Store.writeAll w.1 w.2) store =
        ⟨.ok (final.routines.toList.map Store.ending?), final.store, log⟩ ∧
      Concluded store ledger (writers.map jobsThrough) final := by
  have hends := writers_inevitably h hgrants
  obtain ⟨least, hleast⟩ := hends.runTurns_stuck
  refine ⟨least, fun bound hbound => ⟨_, _, rfl, ?_⟩⟩
  exact (hends.runTurns [] bound).ended (hleast [] bound hbound)

/-- They have come to it whenever each of them has an outcome. -/
theorem writeTogether_concludes {outcomes : List (Option (Except Halt (List Nat)))} {store' : Store δ n}
    {log : List Event} (hrun : Store.writeTogether writers store = ⟨.ok outcomes, store', log⟩)
    (hended : none ∉ outcomes) : ∃ final, outcomes = final.routines.toList.map Store.ending? ∧
      final.store = store' ∧ Concluded store ledger (writers.map jobsThrough) final := by
  cases hrun
  refine ⟨_, rfl, rfl, ?_⟩
  exact ((writers_inevitably h hgrants).runTurns [] _).ended (Store.Parties.step_none_of_ended hended)

end Turns

end InodeStore
