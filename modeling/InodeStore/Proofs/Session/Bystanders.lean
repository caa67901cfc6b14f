import InodeStore.Proofs.Inode.Discretion
import InodeStore.Proofs.Session.Routines
import InodeStore.Proofs.Store.Sequences
import InodeStore.Proofs.Volume.Clients

/-!
# `Proofs.Session.Bystanders` — operations that open and close nothing

Seven operations are about who has an inode open (`Operation.turns`). All others leave the registry of open
inodes as it is, whatever the cache and the free map hold and whatever way they end (`Operation.run_lists`):
they make no call of the registry (`Routine.Aloof`), apart from a write, which keeps others from lengthening
the file meanwhile and then lets them again (`write_leaves`).
-/

namespace InodeStore

open Routine

/-! ## Routines without calls of the registry -/

/-- Does a call change what is known of the open inodes? -/
def Call.registers : Call → Bool
  | .openInode _ | .close _ | .remove _ | .beginGrowth _ | .endGrowth _ => true
  | .view _ | .store _ _ | .update _ _ | .flushCache | .resetCache | .cacheStats | .allocate | .release _
  | .mapBytes | .loadMap _ | .drop _ | .isDenied _ | .emit _ => false

namespace Routine

variable {α β : Type} {r : Routine α}

/-- No call of the routine changes what is known of the open inodes. -/
def Aloof (r : Routine α) : Prop := r.Only (Call.registers · = false)

theorem Aloof.bind {f : α → Routine β} (h : r.Aloof) (hnext : ∀ a, (f a).Aloof) : (r >>= f).Aloof :=
  Only.bind h hnext

theorem Aloof.perform {c : Call} (h : c.registers = false) : (Routine.perform c).Aloof := Only.perform h

/-- A routine that only looks. -/
theorem Only.aloof (h : r.Only Call.IsView) : r.Aloof := by
  induction r with
  | done a => trivial
  | halt cause => trivial
  | call c next ih =>
    obtain ⟨s, rfl⟩ := h.1
    exact ⟨rfl, fun answer => ih answer (h.2 answer)⟩

theorem allocate_aloof : Routine.allocate.Aloof :=
  (Aloof.perform rfl).bind fun answer => by cases answer <;> trivial

theorem rollBack_aloof (l : List SectorId) : (rollBack l).Aloof := by
  have hall : ∀ l : List SectorId, (releaseAll l).Aloof := by
    intro l
    induction l with
    | nil => trivial
    | cons s rest ih => exact (Aloof.perform rfl).bind fun _ => ih
  unfold rollBack
  split
  · trivial
  · exact (Aloof.perform rfl).bind fun _ => hall l

theorem Aloof.reservingFrom (h : r.Aloof) (taken : List SectorId) : (reservingFrom taken r).Aloof := by
  induction r generalizing taken with
  | done a => trivial
  | halt cause => exact (rollBack_aloof _).bind fun _ => trivial
  | call c next ih =>
    rw [Runs.reservingFrom_call]
    exact ⟨h.1, fun answer => ih answer (h.2 answer) _⟩

end Routine

/-! ## The routines of a file -/

namespace Inode

variable {d : Descriptor} {handle : Handle} {place : Position}

theorem takeZeroed_aloof : takeZeroed.Aloof :=
  allocate_aloof.bind fun _ => (Aloof.perform rfl).bind fun _ => trivial

theorem attach_aloof : (attach d place).Aloof := by
  cases place with
  | direct slot => exact takeZeroed_aloof.bind fun _ => trivial
  | indirect slot =>
    rw [attach_indirect]
    refine Aloof.bind ?_ fun d => takeZeroed_aloof.bind fun _ => (Aloof.perform rfl).bind fun _ => trivial
    split
    · exact takeZeroed_aloof.bind fun _ => trivial
    · trivial
  | doubly outer inner =>
    rw [attach_doubly]
    refine Aloof.bind ?_ fun d => Aloof.bind ?_ fun _ => takeZeroed_aloof.bind fun _ =>
      (Aloof.perform rfl).bind fun _ => trivial
    · split
      · exact takeZeroed_aloof.bind fun _ => trivial
      · trivial
    · split
      · exact takeZeroed_aloof.bind fun _ => (Aloof.perform rfl).bind fun _ => trivial
      · exact (Only.view _).aloof.bind fun _ => trivial

theorem growFrom_aloof (k count : Nat) : (growFrom k d count).Aloof := by
  induction count generalizing k d with
  | zero => trivial
  | succ count ih =>
    unfold growFrom
    split
    · trivial
    · exact attach_aloof.bind fun _ => ih _

theorem grow_aloof (length : Nat) : (grow d length).Aloof := by
  unfold grow
  split
  · trivial
  · exact (growFrom_aloof _ _).bind fun _ => trivial

theorem build_aloof (x : SectorId) (length : Nat) (isDir : Bool) : (build x length isDir).Aloof :=
  (grow_aloof length).bind fun _ => Aloof.perform rfl

theorem create_aloof (length : Nat) (isDir : Bool) : (create length isDir).Aloof := by
  have hmake : (do
      let sector ← allocate
      build sector length isDir
      return sector : Routine SectorId).Aloof :=
    allocate_aloof.bind fun x => (build_aloof x length isDir).bind fun _ => trivial
  exact (hmake.reservingFrom []).bind fun _ => (Aloof.perform rfl).bind fun _ => trivial

theorem createAt_aloof (x : SectorId) (length : Nat) (isDir : Bool) : (createAt x length isDir).Aloof :=
  ((build_aloof x length isDir).reservingFrom []).bind fun _ => Aloof.perform rfl

theorem extend_aloof (x : SectorId) (length : Nat) : (extend x d length).Aloof := by
  have hgrown : (do
      let grown ← grow d length
      save x grown
      return grown : Routine Descriptor).Aloof :=
    (grow_aloof length).bind fun _ => (Aloof.perform rfl).bind fun _ => trivial
  exact (hgrown.reservingFrom []).bind fun _ => (Aloof.perform rfl).bind fun _ => trivial

theorem writeSpans_aloof (origin : Nat) (bytes : Bytes) (written : Nat) (l : List Span) :
    (writeSpans d origin bytes written l).Aloof := by
  induction l generalizing written with
  | nil => trivial
  | cons span rest ih =>
    unfold writeSpans
    split
    · trivial
    · refine follow_looks.aloof.bind fun s => ?_
      dsimp only
      split <;> exact (Aloof.perform rfl).bind fun _ => ih _

theorem releaseInode_aloof (x : SectorId) : (releaseInode x).Aloof := by
  have hvisit : ∀ (released : Nat) (s : SectorId), (do
      release s
      return released + 1 : Routine Nat).Aloof := fun _ _ => (Aloof.perform rfl).bind fun _ => trivial
  have hwalk : ∀ d : Descriptor, (visitOwned (fun released s => do release s; return released + 1) 0 d).Aloof :=
    fun _ => visitOwned_only (fun _ => rfl) hvisit 0
  exact (load_looks x).aloof.bind fun d => (hwalk d).bind fun _ =>
    (Aloof.perform rfl).bind fun _ => Aloof.perform rfl

end Inode

/-! ## Stores -/

section Stores

variable {δ : Type} {n : Nat} [BlockDevice δ] {α β : Type} {r : Routine α} {store : Store δ n}
  {opened : SectorId → Option OpenInode}

theorem Store.perform_registry {c : Call} (h : c.registers = false) (store : Store δ n) :
    (Store.perform c store).state.registry = store.registry := by
  cases c <;> first | rfl | cases h

theorem Routine.Aloof.registry (h : r.Aloof) (store : Store δ n) :
    (store.run r).state.registry = store.registry := by
  induction r generalizing store with
  | done a => rfl
  | halt cause => cases cause <;> rfl
  | call c next ih =>
    have hrun : store.run (.call c next) = _ :=
      Store.runAfter_eq ((Store.perform c store).log.reverseAux []) (Store.perform c store).state
        (next (Store.perform c store).result)
    rw [hrun]
    exact (ih _ (h.2 _) _).trans (Store.perform_registry h.1 store)

/-- A routine leaves the registry as it is, as a function. -/
def Routine.Leaves (δ : Type) (n : Nat) [BlockDevice δ] (opened : SectorId → Option OpenInode)
    (r : Routine α) : Prop :=
  ∀ store : Store δ n, store.registry.Lists opened → (store.run r).state.registry.Lists opened

theorem Routine.Aloof.leaves (h : r.Aloof) : r.Leaves δ n opened := fun store hstore => by
  rw [h.registry store]
  exact hstore

theorem Routine.Leaves.bind {f : α → Routine β} (h : r.Leaves δ n opened)
    (hnext : ∀ a, (f a).Leaves δ n opened) : (r >>= f).Leaves δ n opened := by
  intro store hstore
  have hfirst := h store hstore
  rw [Store.run_bind]
  generalize store.run r = reply at hfirst
  obtain ⟨_ | _ | a, store', log⟩ := reply
  · exact hfirst
  · exact hfirst
  · exact hnext a store' hfirst

/-- Whoever keeps others from lengthening a file lets them again. -/
theorem Routine.Aloof.exclusively_leaves (h : r.Aloof) {handle : Handle} {inode : OpenInode}
    (hopen : opened handle.sector = some inode) (hidle : inode.growing = false) :
    (exclusively handle r).Leaves δ n opened := by
  intro store hstore
  obtain ⟨cache, freeMap, registry⟩ := store
  let begun : Store δ n := ⟨cache, freeMap, (Registry.setGrowing handle true registry).state⟩
  have hattempt := begun.run_attempt r
  have hregistry : (begun.run r).state.registry = begun.registry := h.registry begun
  have hended : Registry.Lists (Registry.setGrowing handle false (begun.run r).state.registry).state opened := by
    rw [hregistry]
    exact hstore.regrown hopen hidle
  have hbegin : (⟨cache, freeMap, registry⟩ : Store δ n).run (exclusively handle r) = _ :=
    Store.run_bind _ (Routine.perform (.beginGrowth handle)) fun _ =>
      always (Routine.perform (.endGrowth handle)) r
  have hinside : begun.run (always (Routine.perform (.endGrowth handle)) r) = _ :=
    Store.run_bind _ (attempt r) _
  rw [hbegin]
  show (begun.run (always (Routine.perform (.endGrowth handle)) r)).state.registry.Lists opened
  rw [hinside, hattempt]
  -- lengthening is ended before the way the routine ended is told
  generalize begun.run r = reply at hended ⊢
  obtain ⟨_ | _ | _, store', log⟩ := reply <;> exact hended

/-- A write leaves the registry as it is, whatever way it ends. -/
theorem Inode.write_leaves {handle : Handle} {inode : OpenInode} (hopen : opened handle.sector = some inode)
    (hidle : inode.growing = false) (offset : Nat) (bytes : Bytes) :
    (Inode.write handle offset bytes).Leaves δ n opened := by
  have hasked : (isDenied handle).Aloof := Aloof.perform rfl
  have hdenied : (do emit (.writeDenied handle.sector); return 0 : Routine Nat).Aloof :=
    (Aloof.perform rfl).bind fun _ => trivial
  have hgrown : (do
      let d ← load handle.sector
      let d ← if d.size < offset + bytes.size then extend handle.sector d (offset + bytes.size) else pure d
      writeInside d offset bytes : Routine Nat).Aloof := by
    refine (load_looks _).aloof.bind fun d => ?_
    dsimp only
    split
    · exact (extend_aloof _ _).bind fun _ => writeSpans_aloof _ _ _ _
    · exact writeSpans_aloof _ _ _ _
  unfold Inode.write
  refine hasked.leaves.bind fun denied => ?_
  split
  · exact hdenied.leaves
  · split
    · exact fun _ h => h
    · dsimp only
      split
      · exact fun _ h => h
      · refine (load_looks _).aloof.leaves.bind fun d => ?_
        split
        · exact (writeSpans_aloof _ _ _ _).leaves
        · exact hgrown.exclusively_leaves hopen hidle

end Stores

/-! ## Operations -/

/-- Is an operation about who has an inode open, or about what is known of an open inode? -/
def Operation.turns : Operation → Bool
  | .openInode _ | .reopen _ | .close _ | .drop _ | .remove _ | .denyWrite _ | .allowWrite _ => true
  | .create _ _ | .createAt _ _ _ | .read _ _ _ | .write _ _ _ | .length _ | .isDir _ | .sectorOfByte _ _
  | .ownedSectors _ | .openCount _ | .isRemoved _ | .openInodes | .flush | .reset => false

section Operations

variable {δ : Type} {n : Nat} [BlockDevice δ] {store : Store δ n} {opened : SectorId → Option OpenInode}

/-- Every other operation leaves the registry as it is, if it is asked for through a handle on an inode that
    is open and that nobody lengthens. -/
theorem Operation.run_lists {o : Operation} (haside : o.turns = false)
    (hheld : ∀ handle, o.handle? = some handle →
      ∃ inode, opened handle.sector = some inode ∧ inode.growing = false)
    (h : store.registry.Lists opened) : (o.run store).state.registry.Lists opened := by
  have hlooks : ∀ {α : Type} {r : Routine α}, r.Only Call.IsView →
      (store.run r).state.registry.Lists opened := fun hr => hr.aloof.leaves store h
  cases o with
  | create length isDir => exact (Inode.create_aloof length isDir).leaves store h
  | createAt x length isDir => exact (Inode.createAt_aloof x length isDir).leaves store h
  | read handle offset buffer => exact hlooks ((Inode.read_looks _ _).bind fun _ => trivial)
  | write handle offset bytes =>
    obtain ⟨inode, hopen, hidle⟩ := hheld handle rfl
    exact Inode.write_leaves hopen hidle offset bytes store h
  | length handle => exact hlooks Inode.length_looks
  | isDir handle => exact hlooks Inode.isDir_looks
  | sectorOfByte handle offset => exact hlooks (Inode.sectorOfByte_looks offset)
  | ownedSectors handle => exact hlooks (Inode.ownedSectors_looks _)
  | openCount handle => exact h
  | isRemoved handle => exact h
  | openInodes => exact h
  | flush => exact (Aloof.perform rfl : (Routine.flushCache).Aloof).leaves store h
  | reset => exact (Aloof.perform rfl : (Routine.resetCache).Aloof).leaves store h
  | _ => cases haside

end Operations

end InodeStore
