import InodeStore.Proofs.Inode.Looking
import InodeStore.Proofs.Volume.Usage

/-!
# `Proofs.Session.Allocated` — blocks are used while they are allocated, with one exception

Wherever a caller has got to, an operation uses a block only while the block's sector is allocated
(`Represents.accesses_allocated`), unless it is the last close of a removed file. That close looks at the
descriptor while it is allocated, and then at each index block just after its sector was given back
(`Represents.accesses_close_gone`), when somebody else may already have taken it and filled it with zeros.
`sectors_used_allocated` puts both together, and `close_reads_released` is a file of thirteen blocks.
-/

namespace InodeStore

open Inode

/-- The blocks that an operation uses, in order. -/
def Operation.accesses {δ : Type} {n : Nat} [BlockDevice δ] (o : Operation) (store : Store δ n) :
    List Access :=
  match o.routine? with
  | some r => store.accesses none r
  | none => []

section Allocated

variable {δ : Type} {n : Nat} [BlockDevice δ] [LawfulDevice δ] {store : Store δ n} {ledger : Ledger}
  {p : Plain} {a : Archive} {handle : Handle}

/-! ## Files that stay -/

/-- Blocks that the free map does not know of are of no use to an archive. -/
theorem Represents.narrow (h : Represents p a) :
    Represents { p with count := p.freeMap.sectors } a :=
  ⟨h.sound, h.freeMap, Nat.le_of_eq (congrArg FreeMap.sectors h.freeMap).symm, h.lists, h.record⟩

/-- **Every block** that an operation uses is allocated, if it is not the last close of a removed file. -/
theorem Represents.accesses_allocated (h : Represents p a) (hn : 0 < n) (hs : Stands store p)
    {o : Operation} (hpermits : a.ledger.Permits o) (hkept : ¬ a.ledger.Closes o) :
    ∀ access ∈ o.accesses store, access.Allocated := by
  unfold Operation.accesses
  cases hr : o.routine? with
  | none => exact nofun
  | some r =>
    -- the run keeps to the sectors of the free map, each of which has a bit
    obtain ⟨p', hrun, -⟩ := h.narrow.gives_guarded hpermits hkept hr
    have hsize := h.lawful.size
    exact hrun.accesses_allocated (m := p.count) hn hs h.inside (by dsimp only; omega) none

/-! ## Files that go -/

omit [LawfulDevice δ] in
/-- What the last close of a removed file does after the end of the handle. -/
theorem accesses_close_eq {registry : Registry} (released : Option SectorId)
    (h : Registry.close handle store.registry = ⟨.ok true, registry, []⟩) :
    store.accesses released (Inode.close handle) =
      Store.accesses { store with registry } none (releaseInode handle.sector) := by
  obtain ⟨cache, freeMap, registry'⟩ := store
  have hclose : Registry.close handle registry' = ⟨.ok true, registry, []⟩ := h
  have hperform : Store.perform (.close handle) (⟨cache, freeMap, registry'⟩ : Store δ n) =
      ⟨.ok true, ⟨cache, freeMap, registry⟩, []⟩ := by
    show (match Registry.close handle registry' with
      | ⟨result, registry, log⟩ => (⟨result, ⟨cache, freeMap, registry⟩, log⟩ : Reply (Store δ n) Bool)) = _
    simp only [hclose]
    rfl
  show [] ++ Store.accesses (Store.perform (.close handle) ⟨cache, freeMap, registry'⟩).state _ _ = _
  rw [hperform]
  rfl

/-- The blocks that the last close of a removed file uses: the descriptor while it is allocated, then those
    whose sectors it has just given back. They are those that a list of the file's sectors is made from. -/
structure ReleasedWhenRead (accesses listed : List Access) (x : SectorId) : Prop where
  sectors : accesses.map Access.sector = listed.map Access.sector
  descriptor : ∃ first rest, accesses = first :: rest ∧ first.sector = x ∧ first.Allocated ∧
    ∀ access ∈ rest, ¬ access.Allocated ∧ access.released = some access.sector

/-- **The last close of a removed file** looks at index blocks that it has given back. -/
theorem Represents.accesses_close_gone (h : Represents p a) (hn : 0 < n) (hs : Stands store p)
    {x : SectorId} (hlast : a.ledger.LastOfRemoved ⟨x⟩) :
    ReleasedWhenRead ((Operation.close ⟨x⟩).accesses store)
      ((Operation.ownedSectors ⟨x⟩).accesses store) x := by
  obtain ⟨hopen, hcount, hremoved⟩ := hlast
  obtain ⟨d, -, hfile, -⟩ := h.open_file hopen
  have hclose := h.registry_close ⟨x⟩
  rw [if_neg (by omega), hremoved] at hclose
  -- the registry apart, the store is the same when the file is given back
  have hclose' : Registry.close ⟨x⟩ store.registry = ⟨.ok true, p.registry.erase x, []⟩ := by
    rw [hs.registry]
    exact hclose
  have haccesses := accesses_close_eq none hclose'
  have hs' : Stands { store with registry := p.registry.erase x }
      { p with registry := p.registry.erase x } :=
    ⟨hs.coherent, hs.unpinned, hs.freeMap, rfl, hs.count⟩
  have hfile' := hfile.withRegistry (p.registry.erase x)
  obtain ⟨store', released', hs'', hsplit⟩ :=
    hfile'.load_runs.accesses_bind (f := giveBack x) hn hs' none
  have hlisted := hfile.ownedSectors_uses (δ := δ) hn store none hs
  have hgiven := hfile'.giveBack_uses (δ := δ) hn store' released' hs''
  have hshape : (Operation.close ⟨x⟩).accesses store =
      ⟨x, store.freeMap, none⟩ :: store'.accesses released' (giveBack x d) := by
    rw [← List.singleton_append, ← load_accesses { store with registry := p.registry.erase x } none x,
      ← hsplit]
    exact haccesses
  constructor
  case sectors =>
    rw [hshape, List.map_cons, hgiven]
    exact hlisted.symm
  case descriptor =>
    refine ⟨_, _, hshape, rfl, ?_, ?_⟩
    · show store.freeMap.isAllocated x = .ok true
      rw [hs.freeMap, hfile.hung.lawful.isAllocated_eq hfile.inside, hfile.taken]
    · rw [(giveBack_viewsReleased none).accesses_eq]
      exact (giveBack_viewsReleased none).not_allocated nofun

/-- **Blocks are used while they are allocated**, and in the last close of a removed file just after that.
    Wherever a caller has got to, with a store or a volume, an operation that may be asked for uses a block only
    while its sector is allocated, unless it is the last close of a removed file. That one looks at the
    descriptor while it is allocated, and at each index block once its sector is not allocated any more: the
    call just before has given it back. -/
theorem sectors_used_allocated (h : Reached store ledger ∨ InUse store ledger) {o : Operation}
    (hpermits : ledger.Permits o) :
    (¬ ledger.Closes o → ∀ access ∈ o.accesses store, access.Allocated) ∧
      ∀ x, o = .close ⟨x⟩ → ledger.LastOfRemoved ⟨x⟩ →
        ReleasedWhenRead (o.accesses store) ((Operation.ownedSectors ⟨x⟩).accesses store) x := by
  obtain ⟨hn, p, a, hstands, hrepresents, rfl⟩ := represented h
  constructor
  · exact hrepresents.accesses_allocated hn hstands hpermits
  · rintro x rfl hlast
    exact hrepresents.accesses_close_gone hn hstands hlast

end Allocated

/-! ## A file of thirteen blocks -/

/-- A store of one frame, with room for a file of thirteen blocks at the reserved sector. -/
def roomyStore : Store RamDisk 1 :=
  ⟨Cache.blank 1 (RamDisk.blank 15), (FreeMap.blank 15).assign 0 true, .empty⟩

/-- The store with such a file, open and removed. -/
def removedStore : Store RamDisk 1 :=
  ((Operation.remove ⟨0⟩).run ((Operation.openInode 0).run
    ((Operation.createAt 0 6145 false).run roomyStore).state).state).state

/-- What a caller keeps in mind about it. -/
def removedLedger : Ledger :=
  (((Ledger.start roomyStore.freeMap).after (.createAt 0 6145 false) (.ok ())).after (.openInode 0)
    (.ok ⟨0⟩)).after (.remove ⟨0⟩) (.ok ())

theorem removedStore_reached : Reached removedStore removedLedger := by
  have hmap : roomyStore.freeMap.Lawful := (FreeMap.blank_lawful (by decide)).assign (by decide) true
  have hstart : Reached roomyStore (.start roomyStore.freeMap) :=
    .start trivial Nat.one_pos hmap (Nat.le_of_eq Array.size_replicate.symm)
  have hmade : Reached _ ((Ledger.start roomyStore.freeMap).after (.createAt 0 6145 false) (.ok ())) :=
    hstart.next (by decide +kernel) (by decide +kernel)
  have hopened : Reached _ (((Ledger.start roomyStore.freeMap).after (.createAt 0 6145 false)
      (.ok ())).after (.openInode 0) (.ok ⟨0⟩)) := hmade.next (by decide +kernel) (by decide +kernel)
  exact hopened.next (by decide +kernel) (by decide +kernel)

/-- Its last close looks at the descriptor and at the index block as `sectors_used_allocated` says. -/
theorem sectors_used_allocated_thirteen :
    removedLedger.Permits (.close ⟨0⟩) ∧ removedLedger.LastOfRemoved ⟨0⟩ ∧
      ReleasedWhenRead ((Operation.close ⟨0⟩).accesses removedStore)
        ((Operation.ownedSectors ⟨0⟩).accesses removedStore) 0 := by
  have hpermits : removedLedger.Permits (.close ⟨0⟩) := by decide +kernel
  have hlast : removedLedger.LastOfRemoved ⟨0⟩ := by decide +kernel
  exact ⟨hpermits, hlast, (sectors_used_allocated (.inl removedStore_reached) hpermits).2 0 rfl hlast⟩

/-- So not every block is allocated when it is used. -/
theorem close_reads_released :
    Reached removedStore removedLedger ∧ removedLedger.Permits (.close ⟨0⟩) ∧
      ∃ access ∈ (Operation.close ⟨0⟩).accesses removedStore, ¬ access.Allocated :=
  ⟨removedStore_reached, by decide +kernel, by decide +kernel⟩

end InodeStore
