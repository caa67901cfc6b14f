import InodeStore.Proofs.Cache.Journal
import InodeStore.Proofs.Store.Following

/-!
# `Proofs.Store.Journaling` — a record of what a store writes to its device

A store in front of another device that answers alike is the same store (`Store.run_mirrored`). So a store does not
notice that its device keeps a journal: whatever is done with it is done with the journaled one (`Store.journaled`),
and what is found in the journal is what the device was told.
-/

namespace InodeStore

variable {δ ε : Type} {n : Nat} {α : Type} {mirror : δ → ε}

namespace Store

/-! ## Stores in front of devices that answer alike -/

/-- The second action is the first one in front of the other device. -/
def Mirrored (mirror : δ → ε) (action : Action (Store δ n) α) (action' : Action (Store ε n) α) : Prop :=
  ∀ store, action' (store.mapDevice mirror) =
    ⟨(action store).result, (action store).state.mapDevice mirror, (action store).log⟩

theorem Mirrored.of_follows {action : Action (Store δ n) α} {action' : Action (Store ε n) α}
    (h : Follows (fun _ => True) (fun d e => e = mirror d) action action') : Mirrored mirror action action' := by
  intro store
  obtain ⟨_, hrun, _, rfl, rfl⟩ := h.same (s := store) ⟨_, rfl, rfl⟩ trivial
  exact hrun

/-- **A routine** does the same in front of both devices. -/
theorem run_mirrored [BlockDevice δ] [BlockDevice ε] (h : Mirrors mirror) (r : Routine α) :
    Mirrored (n := n) mirror (run r) (run r) := .of_follows (run_follows h.shadows r)

/-! ## The journal -/

/-- A store whose device keeps a journal from now on, in which some writes are already. -/
def journaled (store : Store δ n) (written : List (SectorId × Block)) : Store (Journaled δ) n :=
  ⟨{ store.cache with device := ⟨store.cache.device, written⟩ }, store.freeMap, store.registry⟩

/-- A store with a journal is the one without it and what is in the journal. -/
theorem eq_journaled {twin : Store (Journaled δ) n} {store : Store δ n}
    (h : twin.mapDevice Journaled.device = store) : twin = store.journaled twin.cache.device.written := by
  subst h
  rfl

end Store

end InodeStore
