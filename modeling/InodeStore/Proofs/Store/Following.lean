import InodeStore.Proofs.Cache.Following
import InodeStore.Proofs.Store.Refinement

/-!
# `Proofs.Store.Following` — the same calls in front of another device

What is carried out on a store needs the device only through its cache. So with a device that `Shadows` another
one, a store does what it does with the other one: every call follows itself (`perform_follows`), and so does every
routine (`run_follows`), also one that cleans up after a fault. With a device of the same content it stands for the
same blocks (`Stands.mapDevice`).
-/

namespace InodeStore.Store

variable {δ ε : Type} {n : Nat} {α : Type} {I : δ → Prop} {D : δ → ε → Prop}

/-- The same store in front of another device. -/
def mapDevice (mirror : δ → ε) (store : Store δ n) : Store ε n :=
  ⟨store.cache.mapDevice mirror, store.freeMap, store.registry⟩

/-- One store in front of two related devices. -/
def Beside (D : δ → ε → Prop) (store : Store δ n) (twin : Store ε n) : Prop :=
  ∃ e, D store.cache.device e ∧ twin = store.mapDevice fun _ => e

theorem Beside.freeMap_eq {store : Store δ n} {twin : Store ε n} (h : store.Beside D twin) :
    twin.freeMap = store.freeMap := by
  obtain ⟨e, -, rfl⟩ := h
  rfl

/-- The second action does to the store in front of the other device what the first one does, as long as the first
    device ends up inside. -/
abbrev Follows (I : δ → Prop) (D : δ → ε → Prop) (action : Action (Store δ n) α)
    (action' : Action (Store ε n) α) : Prop :=
  Action.Follows (fun store => I store.cache.device) (Beside D) action action'

theorem onCache_follows {action : Action (Cache δ n) α} {action' : Action (Cache ε n) α}
    (h : Cache.Follows I D action action') : Follows I D (onCache action) (onCache action') where
  before := h.before
  same := by
    rintro ⟨cache, freeMap, registry⟩ _ ⟨e, he, rfl⟩ hin
    obtain ⟨_, hrun, e', he', rfl⟩ := h.same ⟨e, he, rfl⟩ hin
    refine ⟨_, ?_, e', he', rfl⟩
    show (⟨(action' (cache.mapDevice fun _ => e)).result, ⟨(action' (cache.mapDevice fun _ => e)).state, freeMap,
      registry⟩, (action' (cache.mapDevice fun _ => e)).log⟩ : Reply (Store ε n) α) = _
    rw [hrun]
    rfl

theorem onMap_follows (action : Action FreeMap α) : Follows (n := n) I D (onMap action) (onMap action) where
  before := id
  same := by
    rintro store _ ⟨e, he, rfl⟩ -
    exact ⟨_, rfl, e, he, rfl⟩

theorem onRegistry_follows (action : Action Registry α) :
    Follows (n := n) I D (onRegistry action) (onRegistry action) where
  before := id
  same := by
    rintro store _ ⟨e, he, rfl⟩ -
    exact ⟨_, rfl, e, he, rfl⟩

variable [BlockDevice δ] [BlockDevice ε] (h : Shadows I D)
include h

/-- **A call** in front of the other device. -/
theorem perform_follows (c : Call) : Follows (n := n) I D (perform c) (perform c) := by
  cases c with
  | view s => exact onCache_follows (Cache.view_follows h s)
  | store s b => exact onCache_follows (Cache.store_follows h s b)
  | update s change => exact onCache_follows (Cache.update_follows h s change)
  | flushCache => exact onCache_follows (Cache.flush_follows h)
  | resetCache => exact onCache_follows (Cache.reset_follows h)
  | cacheStats => exact onCache_follows (Cache.Follows.look fun _ _ => rfl)
  | allocate => exact onMap_follows (FreeMap.allocate 1)
  | release s => exact onMap_follows (FreeMap.release s 1)
  | mapBytes => exact onMap_follows (Action.get FreeMap.toBytes)
  | loadMap bytes => exact onMap_follows (FreeMap.load bytes)
  | openInode s => exact onRegistry_follows (Registry.openInode s)
  | close handle => exact onRegistry_follows (Registry.close handle)
  | drop handle => exact onRegistry_follows (Registry.drop handle)
  | remove handle => exact onRegistry_follows (Registry.remove handle)
  | isDenied handle => exact onRegistry_follows (Action.get fun registry => registry.isDenied handle)
  | beginGrowth handle => exact onRegistry_follows (Registry.setGrowing handle true)
  | endGrowth handle => exact onRegistry_follows (Registry.setGrowing handle false)
  | emit event => exact .emit event

/-- A routine in front of the other device, after some events. -/
theorem runAfter_follows (r : Routine α) (earlier : List Event) :
    Follows (n := n) I D (runAfter earlier · r) (runAfter earlier · r) := by
  -- a routine goes on from a fault too, so the call and the rest are not joined as actions are
  induction r generalizing earlier with
  | done a => exact ⟨id, fun hbeside _ => ⟨_, rfl, hbeside⟩⟩
  | halt cause => cases cause <;> exact ⟨id, fun hbeside _ => ⟨_, rfl, hbeside⟩⟩
  | call c next ih =>
    have hcall := perform_follows (n := n) h c
    refine ⟨fun hin => hcall.before ((ih _ _).before hin), fun {store twin} hbeside hin => ?_⟩
    obtain ⟨twin₁, hrun, hbeside₁⟩ := hcall.same hbeside ((ih _ _).before hin)
    obtain ⟨twin₂, hrest, hbeside₂⟩ := (ih _ _).same hbeside₁ hin
    refine ⟨twin₂, ?_, hbeside₂⟩
    rw [runAfter, hrun]
    exact hrest

/-- **A routine** does the same in front of both devices. -/
theorem run_follows (r : Routine α) : Follows (n := n) I D (run r) (run r) := runAfter_follows h r []

end InodeStore.Store

namespace InodeStore

section Stands

variable {δ ε : Type} {n : Nat} [BlockDevice δ] [BlockDevice ε] [LawfulDevice δ] [LawfulDevice ε] {mirror : δ → ε}

/-- A device of the same content may take the place of another one. -/
theorem Cache.CoherentOff.mapDevice {cache : Cache δ n} {hole : Option SectorId} {a : SectorArray}
    (h : cache.CoherentOff hole a) (hsound : LawfulDevice.Sound (mirror cache.device))
    (hcount : BlockDevice.sectorCount (mirror cache.device) = BlockDevice.sectorCount cache.device)
    (hblock : LawfulDevice.block (mirror cache.device) = LawfulDevice.block cache.device) :
    (cache.mapDevice mirror).CoherentOff hole a where
  device := hsound
  nodup := h.nodup
  covers := h.covers
  used i hi := by
    obtain ⟨hvalid, s, hs, hrange⟩ := h.used i hi
    exact ⟨hvalid, s, hs, hrange.trans_eq hcount.symm⟩
  unique := h.unique
  unused := h.unused
  evicting := h.evicting
  data := h.data
  clean hs hhole hall := (congrFun hblock _).trans (h.clean (hs.trans_eq hcount) hhole hall)

theorem Stands.mapDevice {store : Store δ n} {p : Plain} (h : Stands store p)
    (hsound : LawfulDevice.Sound (mirror store.cache.device))
    (hcount : BlockDevice.sectorCount (mirror store.cache.device) = BlockDevice.sectorCount store.cache.device)
    (hblock : LawfulDevice.block (mirror store.cache.device) = LawfulDevice.block store.cache.device) :
    Stands (store.mapDevice mirror) p where
  coherent := h.coherent.mapDevice hsound hcount hblock
  unpinned := h.unpinned
  freeMap := h.freeMap
  registry := h.registry
  count := hcount.trans h.count

end Stands

end InodeStore
