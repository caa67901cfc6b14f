import InodeStore.Proofs.Store.Touches

/-!
# `Proofs.Store.Treading` — the uses of the cache, routine by routine

`Treads r p a p' l` is a run that ends with an answer, together with the uses it makes of the cache. Its rules
follow how routines are put together: one after the other, kept from others while a file grows
(`Treads.exclusively`), or with the sectors noted that it takes (`Treads.reserving`); neither of the last two
uses the cache itself.
-/

namespace InodeStore

open Plain

variable {δ : Type} {n : Nat} [BlockDevice δ] [LawfulDevice δ] {α β : Type} {p p' p₁ : Plain} {r : Routine α}
  {a : α} {b : β} {l l' : List Touch} {s : SectorId}

/-- A routine ends with an answer, and makes these uses of the cache. -/
structure Treads (δ : Type) (n : Nat) [BlockDevice δ] [LawfulDevice δ] {α : Type} (r : Routine α) (p : Plain)
    (a : α) (p' : Plain) (l : List Touch) : Prop where
  runs : Runs true r p (.ok a) p'
  touches : Touches δ n r p l

namespace Treads

theorem pure (a : α) : Treads δ n (Pure.pure a) p a p [] := ⟨Runs.pure a, Touches.pure a⟩

/-- A call. -/
theorem perform {c : Call} {a : c.Answer} (h : Answers true c p (.ok a) p') :
    Treads δ n (Routine.perform c) p a p' c.touch?.toList := ⟨Runs.perform h, Touches.perform c⟩

theorem view (hs : p.Permits true s) : Treads δ n (Routine.view s) p (p.block s) p [.look s] :=
  ⟨Runs.view hs, Touches.view s⟩

theorem store {block : Block} (hs : p.Permits true s) :
    Treads δ n (Routine.store s block) p () (p.put s block) [.soil s] := ⟨Runs.store block hs, Touches.store s block⟩

theorem emit (event : Event) : Treads δ n (Routine.emit event) p () p [] := perform .emit

/-- Nothing but looks. -/
theorem of_uses {looked : List SectorId} (h : Runs true r p (.ok a) p') (huses : Uses δ n r p looked)
    (hr : r.Only Call.IsView) : Treads δ n r p a p' (looked.map .look) := ⟨h, huses.touches hr⟩

/-- One routine after the other. -/
theorem bind {f : α → Routine β} (h : Treads δ n r p a p₁ l) (hn : 0 < n) (hnext : Treads δ n (f a) p₁ b p' l') :
    Treads δ n (r >>= f) p b p' (l ++ l') :=
  ⟨h.runs.bind hnext.runs, h.touches.bind h.runs hn hnext.touches⟩

/-- A free sector is taken. -/
theorem allocate (hn : 0 < n) (hmap : p.freeMap.Lawful) (hs : p.freeMap.nextFree? = some s) :
    Treads δ n Routine.allocate p s { p with freeMap := p.freeMap.assign s.toNat true, took := s :: p.took } [] := by
  have hanswer : Answers true .allocate p _ _ := .allocate
  rw [hmap.allocate_of_nextFree? hs] at hanswer
  exact (perform hanswer).bind hn (pure s)

/-! ## While the file is kept from others -/

omit [BlockDevice δ] [LawfulDevice δ] in
/-- To note how a routine ends uses nothing. -/
theorem touches_attempt [BlockDevice δ] (store : Store δ n) (r : Routine α) :
    store.touches (Routine.attempt r) = store.touches r := by
  induction r generalizing store with
  | done a => rfl
  | halt cause => rfl
  | call c next ih =>
    rw [Routine.attempt, Store.touches, Store.touches, ih]

theorem attempt (h : Treads δ n r p a p' l) : Treads δ n (Routine.attempt r) p (.ok a) p' l :=
  ⟨h.runs.attempt, fun store hs => (touches_attempt store r).trans (h.touches store hs)⟩

theorem exclusively (handle : Handle) (hn : 0 < n)
    (h : Treads δ n r { p with registry := (Registry.setGrowing handle true p.registry).state } a p' l) :
    Treads δ n (Routine.exclusively handle r) p a
      { p' with registry := (Registry.setGrowing handle false p'.registry).state } l := by
  have hend : Treads δ n (Routine.perform (.endGrowth handle)) p' () _ [] := perform .endGrowth
  have hbody : Treads δ n (Routine.always (Routine.perform (.endGrowth handle)) r) _ a _ (l ++ ([] ++ [])) :=
    h.attempt.bind hn (hend.bind hn (pure a))
  rw [List.append_nil, List.append_nil] at hbody
  have hbegin : Treads δ n (Routine.perform (.beginGrowth handle)) p () _ [] := perform .beginGrowth
  exact hbegin.bind (f := fun _ => _) hn hbody

/-! ## Sectors that are taken -/

/-- To note which sectors are taken uses nothing, if the routine gets done. -/
theorem touches_reservingFrom (h : Runs true r p (.ok a) p') (hn : 0 < n) (store : Store δ n) (hs : Stands store p)
    (taken : List SectorId) : store.touches (Routine.reservingFrom taken r) = store.touches r := by
  generalize ho : Except.ok a = o at h
  induction h generalizing store taken with
  | done => rfl
  | halt => cases ho
  | @call c next p p₁ p₂ answer ending hanswer _ ih =>
    obtain ⟨store₁, log, hperform, hs₁, -⟩ := hanswer.perform_eq hn hs
    rw [Runs.reservingFrom_call, Store.touches, Store.touches, hperform, ih store₁ hs₁ _ ho]

theorem reserving (h : Treads δ n r p a p' l) (hn : 0 < n) :
    ∃ count, Treads δ n (Routine.reserving r) p (a, count) p' l := by
  obtain ⟨count, hrun⟩ := h.runs.reserving
  exact ⟨count, hrun, fun store hs => (touches_reservingFrom h.runs hn store hs []).trans (h.touches store hs)⟩

end Treads

end InodeStore
