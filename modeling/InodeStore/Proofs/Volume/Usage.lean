import InodeStore.Proofs.Volume.Formatting

/-!
# `Proofs.Volume.Usage` — the volumes that clients can get to

`InUse` are the volumes that clients can get to, by a format, by what they may ask for, by persisting, and
by a mount of a device that was left right after that, with whatever number of frames there was memory for.
All of them are those of an archive (`InUse.serves`), as are the stores that a caller gets to without a
volume. So what follows from the archive holds of both (`represented`).
-/

namespace InodeStore

open Inode Volume

/-- What a caller keeps in mind about a volume that was taken up again. -/
def Ledger.mounted (ledger : Ledger) : Ledger :=
  Ledger.change { ledger with open? := fun _ => none } freeMapFile fun inode =>
    { inode with openCount := inode.openCount + 1 }

section Usage

variable {δ : Type} [BlockDevice δ] [LawfulDevice δ]

/-- The volumes in use, with what a caller keeps in mind about them. -/
inductive InUse : {n : Nat} → Store δ n → Ledger → Prop where
  /-- A device was made a volume. -/
  | formatted {n limit : Nat} {device : δ} {store : Store δ n} (hdevice : LawfulDevice.Sound device)
      (hup : (format n device limit).1 = .up store) : InUse store (.formatted store.freeMap)
  /-- A client has asked for something. -/
  | step {n : Nat} {store store' : Store δ n} {ledger : Ledger} {o : Operation}
      {answer : Except Error o.Answer} {log : List Event} (h : InUse store ledger)
      (hadmits : ledger.Admits o) (hrun : o.run store = ⟨.ok answer, store', log⟩) :
      InUse store' (ledger.after o answer)
  /-- The volume was persisted. -/
  | persisted {n : Nat} {store store' : Store δ n} {ledger : Ledger} {log : List Event}
      (h : InUse store ledger) (hrun : store.run persist = ⟨.ok (.ok ()), store', log⟩) :
      InUse store' (ledger.persisted store.freeMap)
  /-- The volume was persisted, left and taken up again. -/
  | mounted {n m limit : Nat} {store : Store δ n} {store' : Store δ m} {ledger : Ledger} {device : δ}
      (h : InUse store ledger) (hleaves : Leaves store device) (hup : (mount m device limit).1 = .up store') :
      InUse store' (ledger.persisted store.freeMap).mounted

variable {n limit : Nat} {store : Store δ n} {ledger : Ledger} {device : δ} {p : Plain} {a : Archive}

theorem Serves.freeMap_eq (h : Serves store p a) : store.freeMap = a.freeMap := h.hosts.freeMap_eq

omit [LawfulDevice δ] in
/-- A mount that brings the volume up has frames, and memory for them. -/
theorem mount_up (hup : (mount n device limit).1 = .up store) :
    0 < n ∧ Fault.ofDemand? (n * Frame.footprint) limit = none := by
  unfold Volume.mount at hup
  dsimp only at hup
  split at hup
  · cases hup
  next cache hcache =>
    obtain ⟨hn, hroom, -⟩ := create_ok hcache
    exact ⟨hn, hroom⟩

/-- **A volume in use** is that of an archive with the caller's ledger. -/
theorem InUse.serves (h : InUse store ledger) : ∃ p a, Serves store p a ∧ a.ledger = ledger := by
  -- each way to get on is one of the archive, whose ledger the caller keeps
  induction h with
  | formatted hdevice hup =>
    obtain ⟨p, a, hserves, hledger⟩ := format_serves hdevice hup
    exact ⟨p, a, hserves, hserves.freeMap_eq ▸ hledger⟩
  | step _ hadmits hrun ih =>
    obtain ⟨p, a, hserves, rfl⟩ := ih
    obtain ⟨store₁, log₁, p', hrun', hserves'⟩ := hserves.answered hadmits
    rw [hrun] at hrun'
    cases hrun'
    exact ⟨p', _, hserves', (hserves.represents.expected _ hadmits.1).2⟩
  | persisted _ hrun ih =>
    obtain ⟨p, a, hserves, rfl⟩ := ih
    obtain ⟨saved, log₁, p', hrun', hsaved, -⟩ := hserves.persist
    rw [hrun] at hrun'
    cases hrun'
    exact ⟨p', _, hsaved, hserves.freeMap_eq ▸ Archive.ledger_persisted hserves.represents hserves.kept.houses⟩
  | mounted _ hleaves hup ih =>
    obtain ⟨p, a, hserves, rfl⟩ := ih
    obtain ⟨hm, hroom⟩ := mount_up hup
    obtain ⟨store₁, p', hup', hmounted⟩ := (hleaves.onDevice hserves).mounts hm hroom
    rw [hup] at hup'
    cases hup'
    refine ⟨p', _, hmounted, ?_⟩
    rw [hserves.freeMap_eq, ← Archive.ledger_persisted hserves.represents hserves.kept.houses]
    rfl

/-- Wherever a caller has got to, with a store or a volume, there is an archive with the caller's ledger. -/
theorem represented (h : Reached store ledger ∨ InUse store ledger) :
    0 < n ∧ ∃ p a, Stands store p ∧ Represents p a ∧ a.ledger = ledger := by
  rcases h with h | h
  · exact h.represents
  · obtain ⟨p, a, hserves, hledger⟩ := h.serves
    exact ⟨hserves.frames, p, a, hserves.stands, hserves.represents, hledger⟩

omit [LawfulDevice δ] in
/-- Where an operation leads. -/
def Operation.leads (o : Operation) (store : Store δ n) : Store δ n := (o.run store).state

omit [LawfulDevice δ] in
/-- Where operations lead, one after the other. -/
def Operation.leadsAll (os : List Operation) (store : Store δ n) : Store δ n :=
  os.foldl (fun store o => o.leads store) store

/-- A client goes on from the answer. -/
theorem InUse.next (h : InUse store ledger) {o : Operation} {answer : Except Error o.Answer}
    (hadmits : ledger.Admits o) (hanswer : (o.run store).result = .ok answer) :
    InUse (o.leads store) (ledger.after o answer) := by
  have hrun : o.run store = ⟨.ok answer, o.leads store, (o.run store).log⟩ := by
    rw [← hanswer]
    rfl
  exact h.step hadmits hrun

end Usage

end InodeStore
