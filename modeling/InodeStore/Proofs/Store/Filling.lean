import InodeStore.Proofs.Store.Informed

/-!
# `Proofs.Store.Filling` — routines that fill what they take

`Routine.Fills` can be seen from the calls of a routine, and routines that fill what they take are put
together of such (`Routine.Fills.bind`, `Routine.Fills.reservingFrom`, …), or make no call that takes a
sector (`Routine.Only.fills`). A routine that does nothing but view blocks does not depend on the free map
(`Informed.remap`). What a reservation looks at is looked at by the routine in it
(`Informed.reservingFrom`).
-/

namespace InodeStore

open Plain Routine

section Filling

variable {α β : Type} {r : Routine α} {due : Option SectorId}

/-! ## Calls of one kind -/

/-- A call that takes no sector, nor replaces the free map, nor starts the counters anew. -/
def Call.isQuiet : Call → Bool
  | .allocate | .loadMap _ | .resetCache => false
  | _ => true

/-- The call views a block. -/
def Call.IsView (c : Call) : Prop := ∃ s, c = .view s

/-- The call does not depend on a block. -/
def Call.Blind (c : Call) : Prop := c.looks? = none

namespace Routine

variable {P : Call → Prop}

/-- Every call that the routine makes is of a kind. -/
def Only (P : Call → Prop) : Routine α → Prop
  | .done _ => True
  | .halt _ => True
  | .call c next => P c ∧ ∀ answer, Only P (next answer)

theorem Only.bind {f : α → Routine β} (h : r.Only P) (hnext : ∀ a, (f a).Only P) :
    (r >>= f).Only P := by
  induction r with
  | done a => exact hnext a
  | halt cause => trivial
  | call c next ih => exact ⟨h.1, fun answer => ih answer (h.2 answer)⟩

theorem Only.perform {c : Call} (h : P c) : (Routine.perform c).Only P := by
  refine ⟨h, ?_⟩
  intro answer
  cases answer <;> trivial

theorem Only.view (s : SectorId) : (Routine.view s).Only Call.IsView := Only.perform ⟨s, rfl⟩

theorem Only.blind {c : Call} (h : c.looks? = none) : (Routine.perform c).Only Call.Blind := Only.perform h

theorem allocate_blind : Routine.allocate.Only Call.Blind :=
  (Only.blind rfl).bind fun answer => by cases answer <;> trivial

theorem rollBack_blind (l : List SectorId) : (Routine.rollBack l).Only Call.Blind := by
  have hall : ∀ l : List SectorId, (Routine.releaseAll l).Only Call.Blind := by
    intro l
    induction l with
    | nil => trivial
    | cons s rest ih => exact (Only.blind rfl).bind fun _ => ih
  unfold Routine.rollBack
  split
  · trivial
  · exact (Only.blind rfl).bind fun _ => hall l

/-! ## Filling -/

/-- A routine that takes nothing has nothing to fill. -/
theorem Only.fills (h : r.Only P) (hquiet : ∀ c, P c → c.isQuiet = true) : r.Fills none := by
  induction r with
  | done a => rfl
  | halt cause => rfl
  | call c next ih =>
    have hc := hquiet c h.1
    refine ⟨nofun, ?_, ?_⟩
    · cases c <;> first | rfl | cases hc
    · intro answer
      have hnone : c.taken? answer = none := by
        cases c <;> first | rfl | cases hc
      rw [hnone]
      exact ih answer (h.2 answer)

theorem Fills.perform {c : Call} (h : c.isQuiet = true) : (Routine.perform c).Fills none :=
  (Only.perform h).fills (P := (·.isQuiet = true)) fun _ hc => hc

theorem Only.fills_of_view (h : r.Only Call.IsView) : r.Fills none :=
  h.fills fun _ ⟨_, hc⟩ => hc ▸ rfl

theorem Fills.pure (a : α) : (Pure.pure a : Routine α).Fills none := rfl

theorem Fills.bind {f : α → Routine β} (h : r.Fills due) (hnext : ∀ a, (f a).Fills none) :
    (r >>= f).Fills due := by
  induction r generalizing due with
  | done a =>
    obtain rfl : due = none := h
    exact hnext a
  | halt cause => exact h
  | call c next ih => exact ⟨h.1, h.2.1, fun answer => ih answer (h.2.2 answer)⟩

theorem Fills.attempt (h : r.Fills due) : (Routine.attempt r).Fills due := by
  induction r generalizing due with
  | done a => exact h
  | halt cause => exact h
  | call c next ih => exact ⟨h.1, h.2.1, fun answer => ih answer (h.2.2 answer)⟩

theorem Fills.always {after : Routine Unit} (h : r.Fills due) (hafter : after.Fills none) :
    (Routine.always after r).Fills due := by
  refine h.attempt.bind fun outcome => hafter.bind fun _ => ?_
  cases outcome <;> rfl

theorem Fills.exclusively {handle : Handle} (h : r.Fills none) :
    (Routine.exclusively handle r).Fills none :=
  (Fills.perform rfl).bind fun _ => h.always (Fills.perform rfl)

/-- The counters go on. -/
theorem Fills.keeps (h : r.Fills due) : r.Only (Call.renews · = false) := by
  induction r generalizing due with
  | done a => trivial
  | halt cause => trivial
  | call c next ih => exact ⟨h.2.1, fun answer => ih answer (h.2.2 answer)⟩

theorem Fills.releaseAll (l : List SectorId) : (Routine.releaseAll l).Fills none := by
  induction l with
  | nil => rfl
  | cons s rest ih => exact (Fills.perform (c := .release s) rfl).bind fun _ => ih

theorem Fills.rollBack (l : List SectorId) : (Routine.rollBack l).Fills none := by
  unfold Routine.rollBack
  split
  · rfl
  · exact (Fills.perform (c := .emit _) rfl).bind fun _ => Fills.releaseAll l

theorem Fills.reservingFrom (h : r.Fills due) (taken : List SectorId) :
    (Routine.reservingFrom taken r).Fills due := by
  induction r generalizing due taken with
  | done a => exact h
  | halt cause =>
    obtain rfl : due = none := h
    exact (Fills.rollBack _).bind fun _ => rfl
  | call c next ih =>
    rw [Runs.reservingFrom_call]
    exact ⟨h.1, h.2.1, fun answer => ih answer (h.2.2 answer) _⟩

end Routine

/-! ## Informed runs -/

variable {guarded : Bool} {p p' p₁ : Plain} {ending ending₁ : Except Halt α}
  {known known' : SectorId → Prop}

/-- Who looks at nothing need not know anything. -/
theorem Runs.informed_of_blind (h : Runs guarded r p ending p') (hr : r.Only Call.Blind) :
    Informed guarded known r p ending p' known := by
  induction h generalizing known with
  | done => exact .done fun _ ht => ht
  | halt => exact .halt fun _ ht => ht
  | call hanswer _ ih =>
    exact .call (fun s hs => (Option.some_ne_none s (hs.symm.trans hr.1)).elim) hanswer
      ((ih (hr.2 _)).narrow fun _ => Call.informs_of_known)

/-- A routine that only views blocks does so whatever the free map is. -/
theorem Informed.remap (h : Informed guarded known r p ending p' known') (hr : r.Only Call.IsView)
    (map : FreeMap) :
    Informed false known r { p with freeMap := map } ending { p' with freeMap := map } known' := by
  induction h with
  | done h => exact .done h
  | halt h => exact .halt h
  | call hlooks hanswer _ ih =>
    obtain ⟨⟨s, rfl⟩, hnext⟩ := hr
    cases hanswer with
    | view hpermits => exact .call hlooks (.view ⟨hpermits.1, nofun⟩) (ih (hnext _))

/-- A reservation is carried out with the routine in it, and gets done only if that does. -/
theorem Runs.of_reservingFrom {taken : List SectorId} {ending' : Except Halt (α × Nat)}
    (h : Runs guarded (Routine.reservingFrom taken r) p ending' p') :
    ∃ ending p₁, Runs guarded r p ending p₁ ∧
      ∀ a count, ending' = .ok (a, count) → ending = .ok a ∧ p₁ = p' := by
  induction r generalizing p taken with
  | done a =>
    cases h
    refine ⟨.ok a, _, .done, ?_⟩
    rintro _ _ hcount
    cases hcount
    exact ⟨rfl, rfl⟩
  | halt cause =>
    refine ⟨.error cause, p, .halt, ?_⟩
    rintro a count rfl
    rcases h.of_bind with ⟨cause, hcause, -⟩ | ⟨_, _, -, hhalt⟩
    · cases hcause
    · cases hhalt
  | call c next ih =>
    rw [Runs.reservingFrom_call] at h
    cases h with
    | call hanswer hnext =>
      obtain ⟨ending, p₁, hrun, hdone⟩ := ih _ hnext
      exact ⟨ending, p₁, .call hanswer hrun, hdone⟩

/-- A reservation looks at what the routine in it looks at. -/
theorem Informed.reservingFrom {taken : List SectorId} {ending' : Except Halt (α × Nat)}
    (h : Informed guarded known r p ending p' known')
    (hrun : Runs guarded (Routine.reservingFrom taken r) p ending' p₁) :
    Informed guarded known (Routine.reservingFrom taken r) p ending' p₁ known' := by
  induction h generalizing taken with
  | done h =>
    cases hrun
    exact .done h
  | @halt cause _ _ _ h =>
    have hblind : (Routine.reservingFrom taken (.halt cause : Routine α)).Only Call.Blind :=
      (rollBack_blind taken.reverse).bind fun _ => (trivial : (Routine.halt cause).Only Call.Blind)
    exact (hrun.informed_of_blind hblind).narrow h
  | call hlooks hanswer _ ih =>
    rw [Runs.reservingFrom_call] at hrun ⊢
    cases hrun with
    | call hanswer' hnext =>
      obtain ⟨rfl, rfl⟩ := hanswer.unique hanswer'
      exact .call hlooks hanswer (ih hnext)

end Filling

end InodeStore
