import InodeStore.Proofs.FreeMap.Runs
import InodeStore.Proofs.Inode.Discretion
import InodeStore.Proofs.Inode.Walk
import InodeStore.Proofs.Store.Sequences

/-!
# `Proofs.Inode.Releasing` — what the last close of a removed file gives back

A file gives its sectors back in a walk over its blocks, and the list of its sectors is made by the same walk.
The two go `InStep`: on stores with equal caches they look at the same blocks and visit the same sectors, whatever
these blocks hold. So the sectors that are given back, if that can be done, are those that would have been listed
right before, each once (`releaseInode_gives`).
-/

namespace InodeStore

open Routine

/-! ## Free maps -/

namespace FreeMap

/-- Sectors are given back one after the other, each of which is taken then. -/
inductive GivesBack : List SectorId → FreeMap → FreeMap → Prop where
  | nil {map : FreeMap} : GivesBack [] map map
  | cons {map map' : FreeMap} {s : SectorId} {rest : List SectorId} (hs : map.isAllocated s = .ok true)
      (hrest : GivesBack rest (map.assign s.toNat false) map') : GivesBack (s :: rest) map map'

variable {map map' map'' : FreeMap} {s : SectorId}

theorem GivesBack.append {l l' : List SectorId} (h : GivesBack l map map') (h' : GivesBack l' map' map'') :
    GivesBack (l ++ l') map map'' := by
  induction h with
  | nil => exact h'
  | cons hs _ ih => exact .cons hs (ih h')

/-- A sector that can be given back is taken before, and only its bit is cleared. -/
theorem GivesBack.of_release (h : (release s 1 map).result = .ok ()) :
    GivesBack [s] map (release s 1 map).state := by
  obtain ⟨hbit, hstate⟩ := release_ok h
  rw [hstate]
  exact .cons (isAllocated_iff.mpr hbit) .nil

/-- **What was given back** was taken before, each sector once. It is free afterwards, and nothing else has
    changed. -/
theorem GivesBack.exact {l : List SectorId} (h : GivesBack l map map') :
    l.Nodup ∧ (∀ s ∈ l, map.isAllocated s = .ok true) ∧
      ∀ t, map'.isAllocated t = if t ∈ l then .ok false else map.isAllocated t := by
  induction h with
  | nil => exact ⟨List.nodup_nil, nofun, fun t => (if_neg List.not_mem_nil).symm⟩
  | @cons map map' s rest hs hrest ih =>
    obtain ⟨hnodup, htaken, hafter⟩ := ih
    have hfresh : s ∉ rest := by
      intro hmem
      have := htaken s hmem
      rw [isAllocated_assign hs, if_pos rfl] at this
      cases this
    refine ⟨List.nodup_cons.mpr ⟨hfresh, hnodup⟩, ?_, ?_⟩
    · intro t ht
      rcases List.mem_cons.mp ht with rfl | ht
      · exact hs
      · have hne : t ≠ s := fun he => hfresh (he ▸ ht)
        have := htaken t ht
        rwa [isAllocated_assign hs, if_neg hne] at this
    · intro t
      rw [hafter, isAllocated_assign hs]
      by_cases ht : t = s
      · simp [ht]
      · simp [ht]

end FreeMap

/-! ## Two routines in step -/

section InStep

variable {δ : Type} {n : Nat} [BlockDevice δ] {α β α' β' : Type}

/-- If the second routine does not fault, it gets done, and the first does so too on any store with that cache. Both
    leave the caches equal, the first one changes nothing else, and the second one gives sectors back, with which the
    values agree. -/
def InStep (δ : Type) (n : Nat) [BlockDevice δ] (agree : List SectorId → α → β → Prop) (look : Routine α)
    (give : Routine β) : Prop :=
  ∀ (store giver giver' : Store δ n) (answer : Except Error β) (log : List Event),
    giver.run give = ⟨.ok answer, giver', log⟩ → store.cache = giver.cache →
    ∃ a b l cache' log', answer = .ok b ∧
      store.run look = ⟨.ok (.ok a), { store with cache := cache' }, log'⟩ ∧ giver'.cache = cache' ∧
      FreeMap.GivesBack l giver.freeMap giver'.freeMap ∧ agree l a b

/-- The routine does not end with a refusal. -/
def Routine.Firm : Routine α → Prop
  | .done _ => True
  | .halt (.refused _) => False
  | .halt (.faulted _) => True
  | .call _ next => ∀ answer, (next answer).Firm

namespace InStep

variable {agree agree₁ : List SectorId → α → β → Prop} {look : Routine α} {give : Routine β}

theorem mono (h : InStep δ n agree₁ look give) (hagree : ∀ l a b, agree₁ l a b → agree l a b) :
    InStep δ n agree look give := by
  intro store giver giver' answer log hrun hcache
  obtain ⟨a, b, l, cache', log', hb, hlook, hcache', hgives, hl⟩ := h _ _ _ _ _ hrun hcache
  exact ⟨a, b, l, cache', log', hb, hlook, hcache', hgives, hagree l a b hl⟩

theorem pure {a : α} {b : β} (h : agree [] a b) :
    InStep δ n agree (Pure.pure a : Routine α) (Pure.pure b : Routine β) := by
  intro store giver giver' answer log hrun hcache
  cases hrun
  exact ⟨a, b, [], store.cache, [], rfl, rfl, hcache.symm, .nil, h⟩

theorem bind {f : α → Routine α'} {g : β → Routine β'} {agree' : List SectorId → α' → β' → Prop}
    (h : InStep δ n agree look give)
    (hnext : ∀ l a b, agree l a b → InStep δ n (fun l' => agree' (l ++ l')) (f a) (g b)) :
    InStep δ n agree' (look >>= f) (give >>= g) := by
  intro store giver giver' answer log hrun hcache
  rw [Store.run_bind] at hrun
  rcases hgive : giver.run give with ⟨_ | outcome, giver₁, log₁⟩
  · rw [hgive] at hrun
    cases hrun
  · obtain ⟨a, b, l, cache₁, log₂, rfl, hlook, hcache₁, hgives, hl⟩ := h _ _ _ _ _ hgive hcache
    rw [hgive] at hrun
    obtain ⟨hresult, rfl, -⟩ := Reply.mk.inj hrun
    have hgive' : giver₁.run (g b) = ⟨.ok answer, (giver₁.run (g b)).state, (giver₁.run (g b)).log⟩ := by
      rw [← hresult]
    obtain ⟨a', b', l', cache', log', hb', hlook', hcache', hgives', hl'⟩ :=
      hnext l a b hl { store with cache := cache₁ } _ _ _ _ hgive' hcache₁.symm
    refine ⟨a', b', l ++ l', cache', log₂ ++ log', hb', ?_, hcache', hgives.append hgives', hl'⟩
    rw [Store.run_bind, hlook]
    dsimp only
    rw [hlook']

/-- A look is answered by the cache, whatever the rest of the store is. -/
theorem run_look (s : SectorId) (next : Except Fault (Call.view s).Answer → Routine α) (cache : Cache δ n) :
    ∃ answer cache' log, ∀ map registry, (⟨cache, map, registry⟩ : Store δ n).run (.call (.view s) next) =
      ⟨((⟨cache', map, registry⟩ : Store δ n).run (next answer)).result,
        ((⟨cache', map, registry⟩ : Store δ n).run (next answer)).state,
        log ++ ((⟨cache', map, registry⟩ : Store δ n).run (next answer)).log⟩ :=
  ⟨(Cache.view s cache).result, (Cache.view s cache).state, ((Cache.view s cache).log.reverseAux []).reverse,
    fun _ _ => Store.runAfter_eq _ _ (next (Cache.view s cache).result)⟩

/-- A routine that only looks goes in step with itself. -/
theorem of_looks {r : Routine α} (h : r.Only Call.IsView) (hfirm : r.Firm) :
    InStep δ n (fun l a b => l = [] ∧ a = b) r r := by
  induction r with
  | done a => exact pure ⟨rfl, rfl⟩
  | halt cause =>
    intro store giver giver' answer log hrun hcache
    cases cause with
    | refused e => exact hfirm.elim
    | faulted e => cases hrun
  | call c next ih =>
    obtain ⟨s, rfl⟩ := h.1
    intro store giver giver' answer log hrun hcache
    obtain ⟨cache, map, registry⟩ := giver
    obtain ⟨cache', map', registry'⟩ := store
    obtain rfl : cache' = cache := hcache
    obtain ⟨block, cache₁, log₁, hblock⟩ := run_look s next cache'
    rw [hblock] at hrun ⊢
    obtain ⟨hresult, rfl, -⟩ := Reply.mk.inj hrun
    obtain ⟨a, b, l, cache₂, log₂, hb, hlook, hcache₂, hgives, hl⟩ :=
      ih block (h.2 _) (hfirm _) ⟨cache₁, map', registry'⟩ ⟨cache₁, map, registry⟩ _ answer _ (by rw [← hresult]) rfl
    exact ⟨a, b, l, cache₂, log₁ ++ log₂, hb, by rw [hlook], hcache₂, hgives, hl⟩

theorem of_view (s : SectorId) : InStep δ n (fun l a b => l = [] ∧ a = b) (view s) (view s) :=
  of_looks (Only.view s) fun answer => by cases answer <;> trivial

/-- A sector is given back. -/
theorem release (s : SectorId) :
    InStep δ n (fun l _ _ => l = [s]) (return () : Routine Unit) (Routine.release s) := by
  intro store giver giver' answer log hrun hcache
  obtain ⟨cache, map, registry⟩ := giver
  have hperform : (⟨cache, map, registry⟩ : Store δ n).run (Routine.release s) =
      ⟨(FreeMap.release s 1 map).result.map .ok, ⟨cache, (FreeMap.release s 1 map).state, registry⟩,
        (FreeMap.release s 1 map).log⟩ := Store.run_perform _ (.release s)
  rw [hperform] at hrun
  obtain ⟨hresult, rfl, -⟩ := Reply.mk.inj hrun
  cases hdone : (FreeMap.release s 1 map).result with
  | error e => simp [hdone, Except.map] at hresult
  | ok u =>
    rw [hdone] at hresult
    exact ⟨(), (), [s], store.cache, [], (Except.ok.inj hresult).symm, rfl, hcache.symm,
      FreeMap.GivesBack.of_release hdone, rfl⟩

/-- An event is reported. -/
theorem emit (event : Event) :
    InStep δ n (fun l _ _ => l = []) (return () : Routine Unit) (Routine.emit event) := by
  intro store giver giver' answer log hrun hcache
  cases hrun
  exact ⟨(), (), [], store.cache, [], rfl, rfl, hcache.symm, .nil, rfl⟩

/-- A visit is listed by the one and given back by the other. -/
theorem visit (s : SectorId) (visited : List SectorId) (released : Nat) :
    InStep δ n (fun l a _ => a = l.reverse ++ visited) (return s :: visited : Routine (List SectorId))
      (do Routine.release s; return released + 1 : Routine Nat) := by
  refine InStep.bind (f := fun _ => return s :: visited) (InStep.release s) fun l _ _ hl => InStep.pure ?_
  rw [hl]
  rfl

end InStep

end InStep

/-! ## The walks -/

namespace Inode

section Walks

variable {δ : Type} {n : Nat} [BlockDevice δ] {d : Descriptor}

/-- The walk that lists goes on from `visited` as the one that gives back does. -/
structure Abreast (visited l : List SectorId) (listing : Walk (List SectorId)) (giving : Walk Nat) : Prop where
  index : listing.index = giving.index
  outerIndex : listing.outerIndex = giving.outerIndex
  state : listing.state = l.reverse ++ visited

variable {listing : Walk (List SectorId)} {giving : Walk Nat} {visited l : List SectorId}

/-- The visit of the block at a place. -/
theorem visit_inStep (h : Abreast visited l listing giving) {s s' : SectorId} (hs : s = s') :
    InStep δ n (fun l' => Abreast visited (l ++ l'))
      ((return s :: listing.state : Routine (List SectorId)) >>= fun state =>
        (pure { listing with state } : Routine (Walk (List SectorId))))
      ((do release s'; return giving.state + 1 : Routine Nat) >>= fun state =>
        (pure { giving with state } : Routine (Walk Nat))) := by
  subst hs
  refine (InStep.visit s listing.state giving.state).bind fun l' a b ha => InStep.pure ?_
  refine ⟨h.index, h.outerIndex, ?_⟩
  show a = _
  rw [ha, h.state]
  simp

/-- The visit of an index block, if it is due, and the look at it. -/
theorem index_inStep {c : Prop} [Decidable c] (h : Abreast visited l listing giving) {s s' : SectorId}
    (hs : s = s') {list : List SectorId → Block → Walk (List SectorId)} {give : Nat → Block → Walk Nat}
    (htake : ∀ l' state released block, state = l'.reverse ++ listing.state →
      Abreast visited (l ++ l') (list state block) (give released block)) :
    InStep δ n (fun l' => Abreast visited (l ++ l'))
      (if c then (return s :: listing.state : Routine (List SectorId)) >>= fun state =>
          view s >>= fun block => pure (list state block)
        else pure listing)
      (if c then (do release s'; return giving.state + 1 : Routine Nat) >>= fun released =>
          view s' >>= fun block => pure (give released block)
        else pure giving) := by
  subst hs
  split
  · refine (InStep.visit s listing.state giving.state).bind fun l' a b ha => ?_
    refine (InStep.of_view s).bind fun l'' block block' hblock => InStep.pure ?_
    obtain ⟨rfl, rfl⟩ := hblock
    rw [List.append_nil, List.append_nil]
    exact htake l' a b block ha
  · exact InStep.pure (by rwa [List.append_nil])

/-- The two walks visit a block in step. -/
theorem visitBlock_inStep (h : Abreast visited l listing giving) (place : Position) :
    InStep δ n (fun l' => Abreast visited (l ++ l'))
      (visitBlock (fun visited s => return s :: visited) d listing place)
      (visitBlock (fun released s => do release s; return released + 1) d giving place) := by
  cases place with
  | direct slot => exact visit_inStep h rfl
  | indirect slot =>
    rw [visitBlock_indirect, visitBlock_indirect]
    refine (index_inStep h rfl fun l' state released block hstate => ?_).bind fun l' listing' giving' h' => ?_
    · exact ⟨rfl, h.outerIndex, by rw [hstate, h.state]; simp⟩
    · exact (visit_inStep h' (congrArg (Block.pointer · slot) h'.index)).mono fun _ _ _ hw => by
        rwa [List.append_assoc] at hw
  | doubly outer inner =>
    rw [visitBlock_doubly, visitBlock_doubly]
    refine (index_inStep h rfl fun l' state released block hstate => ?_).bind fun l₁ listing₁ giving₁ h₁ => ?_
    · exact ⟨h.index, rfl, by rw [hstate, h.state]; simp⟩
    · refine (index_inStep h₁ (congrArg (Block.pointer · outer) h₁.outerIndex)
        fun l' state released block hstate => ?_).bind fun l₂ listing₂ giving₂ h₂ => ?_
      · exact ⟨rfl, h₁.outerIndex, by rw [hstate, h₁.state]; simp⟩
      · exact (visit_inStep h₂ (congrArg (Block.pointer · inner) h₂.index)).mono fun _ _ _ hw => by
          simpa only [List.append_assoc] using hw

/-- The two walks go in step. The induction is on the number of blocks that are left. -/
theorem visitFrom_inStep (count : Nat) (k : Nat) (h : Abreast visited l listing giving) :
    InStep δ n (fun l' a _ => a = (l ++ l').reverse ++ visited)
      (visitFrom (fun visited s => return s :: visited) d k listing count)
      (visitFrom (fun released s => do release s; return released + 1) d k giving count) := by
  induction count generalizing k l listing giving with
  | zero => exact InStep.pure (by rw [List.append_nil]; exact h.state)
  | succ count ih =>
    rw [visitFrom, visitFrom]
    split
    · exact InStep.pure (by rw [List.append_nil]; exact h.state)
    · refine (visitBlock_inStep h _).bind fun l' listing' giving' h' => ?_
      exact (ih (k + 1) h').mono fun _ _ _ hw => by rwa [List.append_assoc] at hw

end Walks

/-- **A file gives back** the sectors that would have been listed as its own, each of them once, if it can give
    back its sectors at all. -/
theorem releaseInode_gives {δ : Type} {n : Nat} [BlockDevice δ] (x : SectorId) :
    InStep δ n (fun l a _ => a = l) (ownedSectors x) (releaseInode x) := by
  have hfirm : (load x).Firm := by
    intro answer
    cases answer with
    | error e => trivial
    | ok block =>
      show (if !(Descriptor.decode block).isValid then _ else _ : Routine Descriptor).Firm
      split
      · trivial
      · split <;> trivial
  refine (InStep.of_looks (load_looks x) hfirm).bind fun l d d' hd => ?_
  obtain ⟨rfl, rfl⟩ := hd
  have hstart : Abreast [] [] ⟨Block.zero, Block.zero, []⟩ ⟨Block.zero, Block.zero, 0⟩ := ⟨rfl, rfl, rfl⟩
  refine (visitFrom_inStep _ 0 hstart).bind fun l visited released hvisited => ?_
  -- the descriptor comes last
  refine InStep.bind (f := fun _ => return (x :: visited).reverse) (InStep.release x) fun l' _ _ hl' => ?_
  refine InStep.bind (f := fun _ => return (x :: visited).reverse) (InStep.emit _) fun l'' _ _ hl'' =>
    InStep.pure ?_
  rw [hvisited, hl', hl'']
  simp

end Inode

end InodeStore
