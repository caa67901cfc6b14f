import InodeStore.Proofs.Cache.Operations
import InodeStore.Proofs.Store.Plain

/-!
# `Proofs.Store.Refinement` — a store runs routines as a plain one does

`Stands store p` says that a store between two calls stands for a plain one: the cache for the array of
blocks, with nobody holding a frame, and free map and registry for themselves. Every answer of the plain
store is then that of the store (`Answers.perform_eq`), and every run that of the engine
(`Runs.run_eq`). `Store.gives` are the sectors that a routine gives back on its way.
-/

namespace InodeStore

section Refinement

variable {δ : Type} {n : Nat} [BlockDevice δ] {α : Type}

/-- The sector that a call gives back. -/
def Call.gives : Call → List SectorId
  | .release s => [s]
  | _ => []

/-- The sectors that a routine gives back, in order. -/
def Store.gives (store : Store δ n) : Routine α → List SectorId
  | .done _ => []
  | .halt _ => []
  | .call c next => c.gives ++ gives (perform c store).state (next (perform c store).result)

/-- How a routine's end is told. -/
def Halt.toResult : Except Halt α → Except Fault (Except Error α)
  | .ok a => .ok (.ok a)
  | .error (.refused e) => .ok (.error e)
  | .error (.faulted e) => .error e

variable [LawfulDevice δ]

/-- A store between two calls stands for a plain one. -/
structure Stands (store : Store δ n) (p : Plain) : Prop where
  coherent : store.cache.Coherent p.block
  unpinned : store.cache.Unpinned
  freeMap : store.freeMap = p.freeMap
  registry : store.registry = p.registry
  count : BlockDevice.sectorCount store.cache.device = p.count

variable {store : Store δ n} {p p' : Plain} {guarded : Bool}

/-- Any frame may be used next. -/
theorem Stands.room (h : Stands store p) (hn : 0 < n) : ∃ j, (store.cache.frame j).pins = 0 :=
  ⟨⟨0, hn⟩, h.unpinned _⟩

/-- A sector that may be used is one of the device. -/
theorem Stands.range (h : Stands store p) {s : SectorId} (hs : p.Permits guarded s) :
    s.toNat < BlockDevice.sectorCount store.cache.device := by
  rw [h.count]
  exact hs.1

theorem Stands.free (h : Stands store p) (s : SectorId) :
    ∀ j, 0 < (store.cache.frame j).pins → (store.cache.frame j).sector ≠ some s :=
  fun j hj => absurd (h.unpinned j) (Nat.ne_of_gt hj)

/-- An operation of the cache on a store. -/
theorem Stands.onCache (h : Stands store p) {action : Action (Cache δ n) α} {result : Except Fault α}
    {a : SectorArray}
    (haction : ∃ cache log, action store.cache = ⟨result, cache, log⟩ ∧ cache.Coherent a ∧
      store.cache.Undisturbed cache) :
    ∃ store' log, Store.onCache action store = ⟨result, store', log⟩ ∧
      Stands store' { p with block := a } := by
  obtain ⟨cache, log, hrun, hcoherent, hsame⟩ := haction
  refine ⟨⟨cache, store.freeMap, store.registry⟩, log, ?_, hcoherent, hsame.unpinned h.unpinned,
    h.freeMap, h.registry, hsame.count.trans h.count⟩
  obtain ⟨cache', freeMap, registry⟩ := store
  have hrun : action cache' = ⟨result, cache, log⟩ := hrun
  simp only [Store.onCache, hrun]

/-- An operation of the free map on a store. -/
theorem Stands.onMap (h : Stands store p) (action : Action FreeMap α) :
    ∃ store' log, Store.onMap action store = ⟨(action p.freeMap).result, store', log⟩ ∧
      Stands store' { p with freeMap := (action p.freeMap).state } := by
  obtain ⟨cache, freeMap, registry⟩ := store
  obtain rfl : freeMap = p.freeMap := h.freeMap
  exact ⟨_, _, rfl, h.coherent, h.unpinned, rfl, h.registry, h.count⟩

/-- An operation of the registry on a store. -/
theorem Stands.onRegistry (h : Stands store p) (action : Action Registry α) :
    ∃ store' log, Store.onRegistry action store = ⟨(action p.registry).result, store', log⟩ ∧
      Stands store' { p with registry := (action p.registry).state } := by
  obtain ⟨cache, freeMap, registry⟩ := store
  obtain rfl : registry = p.registry := h.registry
  exact ⟨_, _, rfl, h.coherent, h.unpinned, h.freeMap, rfl, h.count⟩

/-- What the plain store keeps of the sectors taken and given back does not matter to the store. -/
theorem Stands.congr (h : Stands store p) (hblock : p'.block = p.block) (hmap : p'.freeMap = p.freeMap)
    (hregistry : p'.registry = p.registry) (hcount : p'.count = p.count) : Stands store p' where
  coherent := hblock ▸ h.coherent
  unpinned := h.unpinned
  freeMap := hmap ▸ h.freeMap
  registry := hregistry ▸ h.registry
  count := hcount ▸ h.count

/-- A flush disturbs nothing where no frame is pinned. -/
theorem flush_undisturbed {cache : Cache δ n} {a : SectorArray} (hc : cache.Coherent a)
    (hpins : cache.Unpinned) :
    ∃ cache' log, Cache.flush cache = ⟨.ok (), cache', log⟩ ∧ cache'.Coherent a ∧
      cache.Undisturbed cache' := by
  obtain ⟨cache', log, hrun, hcoherent, -, hcount, hall⟩ := Cache.flush_coherent hc
  exact ⟨cache', log, hrun, hcoherent, hpins.undisturbed (fun j => hall j ▸ rfl) hcount⟩

/-- Neither does a reset. -/
theorem reset_undisturbed {cache : Cache δ n} {a : SectorArray} (hc : cache.Coherent a)
    (hpins : cache.Unpinned) :
    ∃ cache' log, Cache.reset cache = ⟨.ok (), cache', log⟩ ∧ cache'.Coherent a ∧
      cache.Undisturbed cache' := by
  obtain ⟨cache', log, hrun, hcoherent, hcount, hsame, -⟩ := Cache.reset_coherent hc
  exact ⟨cache', log, hrun, hcoherent, hpins.undisturbed hsame hcount⟩

/-- **A call** is carried out as on the plain store. -/
theorem Answers.perform_eq {c : Call} {answer : Except Fault c.Answer} (h : Answers guarded c p answer p')
    (hn : 0 < n) (hs : Stands store p) :
    ∃ store' log, Store.perform c store = ⟨answer, store', log⟩ ∧ Stands store' p' ∧
      p'.gave = c.gives ++ p.gave := by
  cases h with
  | @view s _ h =>
    obtain ⟨store', log, hrun, hstands⟩ := hs.onCache (Cache.view_coherent hs.coherent
      (hs.range h) (hs.room hn) (hs.free s))
    exact ⟨store', log, hrun, hstands, rfl⟩
  | @store s b _ h =>
    obtain ⟨store', log, hrun, hstands⟩ := hs.onCache (Cache.store_coherent hs.coherent b
      (hs.range h) (hs.room hn) (hs.free s))
    exact ⟨store', log, hrun, hstands, rfl⟩
  | @update s change _ h =>
    obtain ⟨store', log, hrun, hstands⟩ := hs.onCache (Cache.update_coherent hs.coherent change
      (hs.range h) (hs.room hn) (hs.free s))
    exact ⟨store', log, hrun, hstands, rfl⟩
  | flushCache =>
    obtain ⟨store', log, hrun, hstands⟩ := hs.onCache (flush_undisturbed hs.coherent hs.unpinned)
    exact ⟨store', log, hrun, hstands, rfl⟩
  | resetCache =>
    obtain ⟨store', log, hrun, hstands⟩ := hs.onCache (reset_undisturbed hs.coherent hs.unpinned)
    exact ⟨store', log, hrun, hstands, rfl⟩
  | allocate =>
    obtain ⟨store', log, hrun, hstands⟩ := hs.onMap (FreeMap.allocate 1)
    exact ⟨store', log, hrun, hstands.congr rfl rfl rfl rfl, rfl⟩
  | @release s =>
    obtain ⟨store', log, hrun, hstands⟩ := hs.onMap (FreeMap.release s 1)
    exact ⟨store', log, hrun, hstands.congr rfl rfl rfl rfl, rfl⟩
  | mapBytes =>
    obtain ⟨store', log, hrun, hstands⟩ := hs.onMap (Action.get FreeMap.toBytes)
    exact ⟨store', log, hrun, hstands, rfl⟩
  | @loadMap bytes =>
    obtain ⟨store', log, hrun, hstands⟩ := hs.onMap (FreeMap.load bytes)
    exact ⟨store', log, hrun, hstands.congr rfl rfl rfl rfl, rfl⟩
  | @openInode s =>
    obtain ⟨store', log, hrun, hstands⟩ := hs.onRegistry (Registry.openInode s)
    exact ⟨store', log, hrun, hstands, rfl⟩
  | @close handle =>
    obtain ⟨store', log, hrun, hstands⟩ := hs.onRegistry (Registry.close handle)
    exact ⟨store', log, hrun, hstands, rfl⟩
  | @drop handle =>
    obtain ⟨store', log, hrun, hstands⟩ := hs.onRegistry (Registry.drop handle)
    exact ⟨store', log, hrun, hstands, rfl⟩
  | @remove handle =>
    obtain ⟨store', log, hrun, hstands⟩ := hs.onRegistry (Registry.remove handle)
    exact ⟨store', log, hrun, hstands, rfl⟩
  | @isDenied handle =>
    obtain ⟨store', log, hrun, hstands⟩ :=
      hs.onRegistry (Action.get fun registry => registry.isDenied handle)
    exact ⟨store', log, hrun, hstands, rfl⟩
  | @beginGrowth handle =>
    obtain ⟨store', log, hrun, hstands⟩ := hs.onRegistry (Registry.setGrowing handle true)
    exact ⟨store', log, hrun, hstands, rfl⟩
  | @endGrowth handle =>
    obtain ⟨store', log, hrun, hstands⟩ := hs.onRegistry (Registry.setGrowing handle false)
    exact ⟨store', log, hrun, hstands, rfl⟩
  | emit => exact ⟨store, _, rfl, hs, rfl⟩

/-- A routine goes on as on the plain store. -/
theorem Runs.runAfter_eq {r : Routine α} {ending : Except Halt α} (h : Runs guarded r p ending p')
    (hn : 0 < n) (hs : Stands store p) (earlier : List Event) :
    ∃ store' log, Store.runAfter earlier store r = ⟨Halt.toResult ending, store', log⟩ ∧
      Stands store' p' ∧ p'.gave = (store.gives r).reverse ++ p.gave := by
  -- one call after the other, each of which keeps `Stands`
  induction h generalizing store earlier with
  | done => exact ⟨store, _, rfl, hs, rfl⟩
  | @halt cause p =>
    cases cause with
    | refused e => exact ⟨store, _, rfl, hs, rfl⟩
    | faulted e => exact ⟨store, _, rfl, hs, rfl⟩
  | @call c next p p₁ p₂ answer ending hanswer _ ih =>
    obtain ⟨store₁, log, hperform, hs₁, hgave₁⟩ := hanswer.perform_eq hn hs
    obtain ⟨store₂, log', hrun, hs₂, hgave₂⟩ := ih hs₁ (log.reverseAux earlier)
    refine ⟨store₂, log', ?_, hs₂, ?_⟩
    · rw [Store.runAfter, hperform]
      exact hrun
    · have hone : c.gives.reverse = c.gives := by cases c <;> rfl
      rw [hgave₂, hgave₁, Store.gives, hperform, List.reverse_append, hone, List.append_assoc]

/-- **A routine** runs on a store as on the plain one. -/
theorem Runs.run_eq {r : Routine α} {ending : Except Halt α} (h : Runs guarded r p ending p')
    (hn : 0 < n) (hs : Stands store p) :
    ∃ store' log, store.run r = ⟨Halt.toResult ending, store', log⟩ ∧ Stands store' p' ∧
      p'.gave = (store.gives r).reverse ++ p.gave :=
  h.runAfter_eq hn hs []

end Refinement

end InodeStore
