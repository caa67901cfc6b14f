import InodeStore.Proofs.Session.Ownership
import InodeStore.Proofs.Volume.Usage

/-!
# `Proofs.Session.Atomicity` — a refusal leaves no trace

An operation that is refused has written to blocks, index blocks of the file that was to grow among them,
but its archive is the one from before (`Archive.reply_refused`). Two stores of one archive have the same
free map and the same open inodes, and give the same answers now and later (`Represents.unchanged`), so
nobody can tell that the operation was asked for (`refused_unchanged`).
-/

namespace InodeStore

open Inode

section Atomicity

variable {δ : Type} {n : Nat} [BlockDevice δ] [LawfulDevice δ] {store store' : Store δ n}
  {ledger : Ledger} {α : Type}

/-- A routine gives the same answer on both stores. -/
def Alike (store store' : Store δ n) (r : Routine α) : Prop :=
  ∃ answer, (store.run r).result = .ok answer ∧ (store'.run r).result = .ok answer

/-- Operations made one after the other give the same answers on both stores, as long as they may be asked
    for. -/
def Indistinguishable (store store' : Store δ n) (ledger : Ledger) : List Operation → Prop
  | [] => True
  | o :: rest => ledger.Permits o → ∃ answer next next' log log',
      o.run store = ⟨.ok answer, next, log⟩ ∧ o.run store' = ⟨.ok answer, next', log'⟩ ∧
        Indistinguishable next next' (ledger.after o answer) rest

/-- Nobody can tell the second store from the first. -/
structure Unchanged (store store' : Store δ n) (ledger : Ledger) : Prop where
  freeMap : store'.freeMap = store.freeMap
  entries : ∀ x, store'.registry.find? x = store.registry.find? x
  openInodes : store'.registry.size = store.registry.size
  length : ∀ {x}, ledger.Live x → Alike store store' (Inode.length ⟨x⟩)
  isDir : ∀ {x}, ledger.Live x → Alike store store' (Inode.isDir ⟨x⟩)
  ownedSectors : ∀ {x}, ledger.Live x → Alike store store' (Inode.ownedSectors x)
  sectorOfByte : ∀ {x}, ledger.Live x → ∀ offset, Alike store store' (Inode.sectorOfByte ⟨x⟩ offset)
  bytes : ∀ {x}, ledger.Live x → ∀ offset count, Alike store store' (Inode.read ⟨x⟩ offset count)
  later : ∀ operations, Indistinguishable store store' ledger operations

variable {p p' : Plain} {a : Archive}

/-- An operation that is refused leaves its archive as it was. -/
theorem Archive.reply_refused {o : Operation} {e : Error} (h : (a.reply o).1 = .error e) :
    (a.reply o).2 = a := by
  cases o with
  | create length isDir =>
    change (a.create length isDir).1 = .error e at h
    show (a.create length isDir).2 = a
    unfold Archive.create at h ⊢
    split
    · next hclaim =>
      rw [hclaim] at h
      cases h
    · rfl
  | createAt x length isDir =>
    change (a.createAt x length isDir).1 = .error e at h
    show (a.createAt x length isDir).2 = a
    unfold Archive.createAt at h ⊢
    split
    · next hclaim =>
      rw [hclaim] at h
      cases h
    · rfl
  | write handle offset data =>
    change (a.write handle offset data).1 = .error e at h
    show (a.write handle offset data).2 = a
    unfold Archive.write at h ⊢
    by_cases hskips : a.ledger.Skips handle data
    · rw [if_pos hskips]
    · rw [if_neg hskips] at h ⊢
      split
      · next hclaim =>
        rw [hclaim] at h
        cases h
      · rfl
  | sectorOfByte handle offset => rfl
  -- no other operation is refused
  | _ => cases h

/-- Routines that run in the same way on two plain stores do so on those with a cache. -/
theorem alike_of_runs {guarded : Bool} {r : Routine α} {q q' : Plain} (reply : Except Error α)
    (hn : 0 < n) (hs : Stands store p) (hs' : Stands store' p') (h : Runs guarded r p (ending reply) q)
    (h' : Runs guarded r p' (ending reply) q') : Alike store store' r := by
  obtain ⟨_, _, hrun, -⟩ := h.run_eq hn hs
  obtain ⟨_, _, hrun', -⟩ := h'.run_eq hn hs'
  rw [toResult_ending] at hrun hrun'
  exact ⟨reply, congrArg Reply.result hrun, congrArg Reply.result hrun'⟩

/-- A question to a live file is answered alike: one record is behind it on both stores, whatever its
    descriptors and blocks are. -/
theorem Represents.alike {x : SectorId} {r : Routine α} (h : Represents p a) (h' : Represents p' a)
    (hn : 0 < n) (hs : Stands store p) (hs' : Stands store' p') (hlive : a.ledger.Live x)
    (reply : FileRecord → Except Error α)
    (hruns : ∀ {q d f}, FileAt q x d f → Runs true r q (ending (reply f)) q) :
    Alike store store' r := by
  obtain ⟨f, hf⟩ := (a.live_iff x).mp hlive
  obtain ⟨d, hfile⟩ := h.fileAt hf
  obtain ⟨d', hfile'⟩ := h'.fileAt hf
  exact alike_of_runs (reply f) hn hs hs' (hruns hfile) (hruns hfile')

/-- **Stores of one archive** give the same answers to whatever follows. -/
theorem Represents.indistinguishable (h : Represents p a) (h' : Represents p' a) (hn : 0 < n)
    (hs : Stands store p) (hs' : Stands store' p') (operations : List Operation) :
    Indistinguishable store store' a.ledger operations := by
  induction operations generalizing store store' p p' a with
  | nil => trivial
  | cons o rest ih =>
    intro hpermits
    obtain ⟨next, log, q, hrun, hstands, hnext⟩ := h.answered hn hs o hpermits
    obtain ⟨next', log', q', hrun', hstands', hnext'⟩ := h'.answered hn hs' o hpermits
    have hledger := (h.expected o hpermits).2
    exact ⟨_, next, next', log, log', hrun, hrun', hledger ▸ ih hnext hnext' hstands hstands'⟩

/-- Stores of one archive cannot be told apart. -/
theorem Represents.unchanged (h : Represents p a) (h' : Represents p' a) (hn : 0 < n)
    (hs : Stands store p) (hs' : Stands store' p') : Unchanged store store' a.ledger := by
  obtain ⟨hfind, hsize⟩ := h.lists.same h'.lists
  constructor
  case freeMap =>
    rw [hs'.freeMap, h'.freeMap, hs.freeMap, h.freeMap]
  case entries =>
    rw [hs.registry, hs'.registry]
    exact hfind
  case openInodes =>
    rw [hs.registry, hs'.registry]
    exact hsize
  case length =>
    intro x hlive
    exact h.alike h' hn hs hs' hlive (fun f => .ok f.bytes.size) FileAt.length_runs
  case isDir =>
    intro x hlive
    exact h.alike h' hn hs hs' hlive (fun f => .ok f.isDir) FileAt.isDir_runs
  case ownedSectors =>
    intro x hlive
    exact h.alike h' hn hs hs' hlive (fun f => .ok (f.sectors x)) FileAt.ownedSectors_runs
  case sectorOfByte =>
    intro x hlive offset
    exact h.alike h' hn hs hs' hlive (·.located offset) (FileAt.located_runs · offset)
  case bytes =>
    intro x hlive offset count
    exact h.alike h' hn hs hs' hlive
      (fun f => .ok (f.bytes.extract offset (min (offset + count) f.bytes.size))) FileAt.read_runs
  case later => exact h.indistinguishable h' hn hs hs'

/-- **A refusal leaves no trace**, wherever a caller has got to, with a store or a volume. An operation that may
    be asked for and is refused, a file that cannot be made or lengthened, changes neither the free map nor the
    registry nor any live file, the one that was to grow among them, and all later operations are answered as
    if it had not been asked for. -/
theorem refused_unchanged (h : Reached store ledger ∨ InUse store ledger) {o : Operation}
    (hpermits : ledger.Permits o) {e : Error} {log : List Event}
    (hrun : o.run store = ⟨.ok (.error e), store', log⟩) :
    Unchanged store store' ledger := by
  obtain ⟨hn, p, a, hstands, hrepresents, rfl⟩ := represented h
  obtain ⟨store₁, log₁, p', hrun', hstands', hrepresents'⟩ :=
    hrepresents.answered hn hstands o hpermits
  rw [hrun] at hrun'
  obtain ⟨hresult, rfl, -⟩ := Reply.mk.inj hrun'
  rw [Archive.reply_refused (Except.ok.inj hresult).symm] at hrepresents'
  exact hrepresents.unchanged hrepresents' hn hstands hstands'

end Atomicity

/-- A write that takes the last free sector and then finds none for its second block. -/
theorem refused_unchanged_partway :
    let reply := (Operation.write ⟨0⟩ 0 (Array.replicate 1024 7)).run openedStore
    reply.result = .ok (.error .allocationExhausted) ∧
      Unchanged openedStore reply.state openedLedger := by
  intro reply
  have hresult : reply.result = .ok (.error .allocationExhausted) := by decide +kernel
  have hrun : reply = ⟨.ok (.error .allocationExhausted), reply.state, reply.log⟩ := by
    rw [← hresult]
  exact ⟨hresult, refused_unchanged (.inl openedStore_reached) (by decide +kernel) hrun⟩

end InodeStore
