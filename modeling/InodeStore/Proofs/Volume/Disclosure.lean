import InodeStore.Cache.Request
import InodeStore.Proofs.Volume.Durability
import InodeStore.Proofs.Volume.Twins

/-!
# `Proofs.Volume.Disclosure` — nothing is told of what was on a device before

Two devices with as many sectors, but any contents, are formatted, and the same is asked for of both
volumes. Then both tell the same, answers, reports, free map and counters, as long as clients ask for what
they may ask for (`Undisclosed`, `nothing_disclosed`). Sectors of removed files and of growths that were
refused are no exception: they are free, and a free sector makes no difference (`Paired`).
-/

namespace InodeStore

open Inode Volume

section Disclosure

variable {δ₁ δ₂ : Type} {n : Nat}

/-! ## What is told -/

/-- What is done with a volume. -/
inductive Act where
  /-- A client asks for something. -/
  | ask (o : Operation)
  /-- The volume is persisted. -/
  | persist
  /-- The volume is shut down, and mounted again with so many frames, where `limit` bytes do not fit into
      memory. -/
  | remount (frames limit : Nat)

/-- Two stores tell the same about their sectors and their caches. -/
structure Same (store₁ : Store δ₁ n) (store₂ : Store δ₂ n) : Prop where
  freeMap : store₁.freeMap = store₂.freeMap
  /-- The counters, the cached sectors in the order of their last use, and how many are dirty. -/
  cache : store₁.cache.snapshot = store₂.cache.snapshot

variable [BlockDevice δ₁] [BlockDevice δ₂]

/-- Two volumes tell the same whatever is done with them, as long as clients may ask for it. The ledger is
    what a caller keeps in mind about both. -/
def Undisclosed : List Act → {n : Nat} → Store δ₁ n → Store δ₂ n → Ledger → Prop
  | [], _, _, _, _ => True
  | .ask o :: rest, _, store₁, store₂, ledger =>
    ledger.Admits o → ∃ answer store₁' store₂' log,
      o.run store₁ = ⟨.ok answer, store₁', log⟩ ∧ o.run store₂ = ⟨.ok answer, store₂', log⟩ ∧
        Same store₁' store₂' ∧ Undisclosed rest store₁' store₂' (ledger.after o answer)
  | .persist :: rest, _, store₁, store₂, ledger =>
    ∃ store₁' store₂' log, store₁.run persist = ⟨.ok (.ok ()), store₁', log⟩ ∧
      store₂.run persist = ⟨.ok (.ok ()), store₂', log⟩ ∧
        Same store₁' store₂' ∧ Undisclosed rest store₁' store₂' (ledger.persisted store₁.freeMap)
  | .remount m limit :: rest, _, store₁, store₂, ledger =>
    ∃ device₁ device₂ log, shutdown store₁ = ⟨.ok (.ok ()), device₁, log⟩ ∧
      shutdown store₂ = ⟨.ok (.ok ()), device₂, log⟩ ∧
        OpenedAlike (mount m device₁ limit) (mount m device₂ limit) fun store₁' store₂' =>
          Same store₁' store₂' ∧
            Undisclosed rest store₁' store₂' (ledger.persisted store₁.freeMap).mounted

/-! ## Pairs -/

/-- What a cache tells about itself does not depend on its blocks. -/
theorem Cache.snapshot_outline {δ : Type} (cache : Cache δ n) : cache.outline.snapshot = cache.snapshot := by
  have hframe (i : Fin n) : (cache.outline.frame i).dirty = (cache.frame i).dirty ∧
      (cache.outline.frame i).sector = (cache.frame i).sector := by
    rw [frame_outline]
    exact ⟨rfl, rfl⟩
  have hdirty : cache.outline.dirtyCount = cache.dirtyCount :=
    congrArg cache.recency.countP (funext fun i => (hframe i).1)
  have hsectors : cache.outline.recency.filterMap (fun i => (cache.outline.frame i).sector) =
      cache.recency.filterMap fun i => (cache.frame i).sector :=
    congrArg (cache.recency.filterMap ·) (funext fun i => (hframe i).2)
  unfold Cache.snapshot
  rw [hdirty, hsectors]
  rfl

variable [LawfulDevice δ₁] [LawfulDevice δ₂] {store₁ : Store δ₁ n} {store₂ : Store δ₂ n} {p q : Plain}
  {a : Archive}

theorem Paired.same (h : Paired store₁ store₂ p q a) : Same store₁ store₂ where
  freeMap := congrArg Store.freeMap h.twins.outline
  cache := by
    rw [← Cache.snapshot_outline, ← store₂.cache.snapshot_outline]
    exact congrArg (fun store => Cache.snapshot store.cache) h.twins.outline

/-- **A pair** tells the same, whatever is done. -/
theorem Paired.undisclosed (h : Paired store₁ store₂ p q a) (acts : List Act) :
    Undisclosed acts store₁ store₂ a.ledger := by
  -- each act leads to a pair again, of the archive that the act leads to
  induction acts generalizing n p q a with
  | nil => trivial
  | cons act rest ih =>
    cases act with
    | ask o =>
      intro hadmits
      obtain ⟨store₁', store₂', log, p', q', hrun₁, hrun₂, hpaired⟩ := h.answered hadmits
      have hledger := (h.first.represents.expected o hadmits.1).2
      exact ⟨_, store₁', store₂', log, hrun₁, hrun₂, hpaired.same, hledger ▸ ih hpaired⟩
    | persist =>
      obtain ⟨store₁', store₂', log, p', q', hrun₁, hrun₂, hpaired⟩ := h.persisted
      refine ⟨store₁', store₂', log, hrun₁, hrun₂, hpaired.same, ?_⟩
      rw [h.first.freeMap_eq, ← Archive.ledger_persisted h.first.represents h.first.kept.houses]
      exact ih hpaired
    | remount m limit =>
      obtain ⟨device₁, device₂, log, hdown₁, hdown₂, hleft₁, hleft₂, hblock⟩ := h.shutdown
      refine ⟨device₁, device₂, log, hdown₁, hdown₂, (mounts_paired hleft₁ hleft₂ hblock m limit).mono ?_⟩
      rintro store₁' store₂' ⟨p', q', hpaired⟩
      refine ⟨hpaired.same, ?_⟩
      rw [h.first.freeMap_eq, ← Archive.ledger_persisted h.first.represents h.first.kept.houses]
      exact ih hpaired

/-- **Nothing is told of what was on a device** before it was formatted. On any two devices with as many
    sectors, either both volumes are brought up, or neither is for the same cause. If they are, they tell
    the same whatever is done with them: they answer every operation alike, report the same events, and
    have the same free map and the same counters after it, also after having been shut down and mounted
    again. -/
theorem nothing_disclosed {device₁ : δ₁} {device₂ : δ₂} (h₁ : LawfulDevice.Sound device₁)
    (h₂ : LawfulDevice.Sound device₂)
    (hcount : BlockDevice.sectorCount device₁ = BlockDevice.sectorCount device₂) (n limit : Nat)
    (acts : List Act) :
    OpenedAlike (format n device₁ limit) (format n device₂ limit) fun store₁ store₂ =>
      Same store₁ store₂ ∧ Undisclosed acts store₁ store₂ (.formatted store₁.freeMap) := by
  refine (format_paired h₁ h₂ hcount n limit).mono ?_
  rintro store₁ store₂ ⟨p, q, a, hpaired, hledger⟩
  refine ⟨hpaired.same, ?_⟩
  rw [hpaired.first.freeMap_eq, ← hledger]
  exact hpaired.undisclosed acts

end Disclosure

/-! ## A used disk -/

/-- A disk on which every byte is 7. -/
def usedDisk (count : Nat) : RamDisk := ⟨Array.replicate count (Vector.replicate 512 7), 0, 0⟩

theorem usedVolume_up : (format 1 (usedDisk 6)).1.store?.isSome = true := by decide +kernel

/-- A volume of six used sectors and one frame. -/
def usedVolume : Store RamDisk 1 := (format 1 (usedDisk 6)).1.store?.get usedVolume_up

/-- A file is made over used sectors, removed, and another one is made over the same sectors after a
    mount with two frames. -/
def reuse : List Act :=
  [.ask (.create 1 false), .ask (.openInode 3), .ask (.write ⟨3⟩ 0 #[9]), .ask (.remove ⟨3⟩),
    .ask (.close ⟨3⟩), .remount 2 memoryLimit, .ask (.create 2 false), .ask (.openInode 3),
    .ask (.read ⟨3⟩ 0 #[1, 1])]

/-- The used disk and a blank one. -/
theorem nothing_disclosed_used :
    BlockDevice.sectorCount (usedDisk 6) = BlockDevice.sectorCount (RamDisk.blank 6) ∧
      (format 1 (usedDisk 6)).1 = .up usedVolume ∧
      OpenedAlike (format 1 (usedDisk 6)) (format 1 (RamDisk.blank 6)) fun store₁ store₂ =>
        Same store₁ store₂ ∧ Undisclosed reuse store₁ store₂ (.formatted store₁.freeMap) :=
  ⟨by decide +kernel, Opening.eq_up usedVolume_up,
    nothing_disclosed trivial trivial (by decide +kernel) 1 memoryLimit reuse⟩

/-- A new file there has zeros. -/
example : ((Operation.read ⟨3⟩ 0 #[1, 1]).run
    ((Operation.openInode 3).leads ((Operation.create 2 false).leads usedVolume))).result =
      .ok (.ok (2, #[0, 0])) := by
  decide +kernel

end InodeStore
