import InodeStore.Proofs.Store.Refinement

/-!
# `Proofs.Store.Sequences` — routines one after the other on a store

What a store does for a sequence of routines is what it does for the first and then, if that one gets
done, for the second (`Store.run_bind`); the log is the one after the other. `Runs.run_bind` is the same
where the first one is known from a plain store.
-/

namespace InodeStore

section Sequences

variable {δ : Type} {n : Nat} [BlockDevice δ] {α β : Type}

/-- What was reported earlier is in front of what a routine reports. -/
theorem Store.runAfter_eq (earlier : List Event) (store : Store δ n) (r : Routine α) :
    store.runAfter earlier r =
      ⟨(store.run r).result, (store.run r).state, earlier.reverse ++ (store.run r).log⟩ := by
  induction r generalizing earlier store with
  | done a => simp [run, runAfter]
  | halt cause => cases cause <;> simp [run, runAfter]
  | call c next ih =>
    have hnow := ih (perform c store).result ((perform c store).log.reverseAux earlier)
      (perform c store).state
    have hstart := ih (perform c store).result ((perform c store).log.reverseAux [])
      (perform c store).state
    rw [show store.run (.call c next) = _ from hstart]
    refine hnow.trans ?_
    simp [List.reverseAux_eq]

/-- **A sequence**, by how its first part ends. -/
theorem Store.run_bind (store : Store δ n) (r : Routine α) (f : α → Routine β) :
    store.run (r >>= f) =
      match store.run r with
      | ⟨.ok (.ok a), store', log⟩ =>
        ⟨(store'.run (f a)).result, (store'.run (f a)).state, log ++ (store'.run (f a)).log⟩
      | ⟨.ok (.error e), store', log⟩ => ⟨.ok (.error e), store', log⟩
      | ⟨.error e, store', log⟩ => ⟨.error e, store', log⟩ := by
  induction r generalizing store with
  | done a => rfl
  | halt cause => cases cause <;> rfl
  | call c next ih =>
    have hnext := ih (perform c store).result (perform c store).state
    have hall : store.run (.call c next >>= f) = _ :=
      runAfter_eq ((perform c store).log.reverseAux []) (perform c store).state
        (next (perform c store).result >>= f)
    have hfirst : store.run (.call c next) = _ :=
      runAfter_eq ((perform c store).log.reverseAux []) (perform c store).state
        (next (perform c store).result)
    rw [hall, hfirst, hnext]
    rcases (perform c store).state.run (next (perform c store).result) with ⟨_ | _ | _, store', log⟩ <;>
      simp

/-- One call. -/
theorem Store.run_perform (store : Store δ n) (c : Call) :
    store.run (Routine.perform c) =
      ⟨(perform c store).result.map .ok, (perform c store).state, (perform c store).log⟩ := by
  cases hanswer : (perform c store).result <;>
    simp [run, Routine.perform, runAfter, hanswer, Except.map]

variable [LawfulDevice δ] {guarded : Bool} {p p' : Plain} {store : Store δ n}

/-- A sequence whose first part gets done. -/
theorem Runs.run_bind {r : Routine α} {a : α} (h : Runs guarded r p (.ok a) p') (hn : 0 < n)
    (hs : Stands store p) (f : α → Routine β) :
    ∃ store' log, Stands store' p' ∧ store.run r = ⟨.ok (.ok a), store', log⟩ ∧
      store.run (r >>= f) =
        ⟨(store'.run (f a)).result, (store'.run (f a)).state, log ++ (store'.run (f a)).log⟩ := by
  obtain ⟨store', log, hrun, hs', -⟩ := h.run_eq hn hs
  refine ⟨store', log, hs', hrun, ?_⟩
  rw [Store.run_bind, hrun]
  rfl

end Sequences

end InodeStore
