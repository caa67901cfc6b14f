import InodeStore.Proofs.Store.Accesses

/-!
# `Proofs.Store.Informed` — runs that look at known blocks only

A free sector holds whatever was in it last. `Informed` is a run that looks at blocks only of sectors that
are known, where a sector becomes known when its whole block is stored. Blocks that are not known make no
difference to it. Most routines are informed where every taken sector is known (`Runs.learns`), since they
fill a sector as soon as they have taken it (`Routine.Fills`); they then know what they have taken
(`Learns`).
-/

namespace InodeStore

open Plain

/-! ## Calls -/

/-- The sector whose block a call depends on. -/
def Call.looks? : Call → Option SectorId
  | .view s | .update s _ => some s
  | _ => none

/-- The sectors that are known after a call. -/
def Call.informs (known : SectorId → Prop) : Call → SectorId → Prop
  | .store s _, t => t = s ∨ known t
  | _, t => known t

/-- Does a call replace the free map, or start the counters anew? -/
def Call.renews : Call → Bool
  | .loadMap _ | .resetCache => true
  | _ => false

/-- The sector that a call has taken, if it did. -/
def Call.taken? : (c : Call) → Except Fault c.Answer → Option SectorId
  | .allocate, .ok (.ok s) => some s
  | _, _ => none

/-- To look at a block is to use it. -/
theorem Call.sector?_of_looks? {c : Call} {s : SectorId} (h : c.looks? = some s) : c.sector? = some s := by
  cases c <;> first | exact h | cases h

theorem Call.informs_of_known {c : Call} {known : SectorId → Prop} {t : SectorId} (h : known t) :
    c.informs known t := by
  cases c with
  | store s b => exact .inr h
  | _ => exact h

theorem Call.informs_mono {c : Call} {known known' : SectorId → Prop} (h : ∀ t, known t → known' t) :
    ∀ t, c.informs known t → c.informs known' t := by
  cases c with
  | store s b => exact fun t => Or.imp_right (h t)
  | _ => exact h

section Unique

variable {α β : Type} {guarded guarded' : Bool} {c : Call} {p p' p₁ : Plain} {r : Routine α}

/-- A call has one answer. -/
theorem Answers.unique {answer answer' : Except Fault c.Answer} (h : Answers guarded c p answer p')
    (h' : Answers guarded' c p answer' p₁) : answer' = answer ∧ p₁ = p' := by
  cases h <;> cases h' <;> exact ⟨rfl, rfl⟩

/-- A routine runs in one way. -/
theorem Runs.unique {ending ending' : Except Halt α} (h : Runs guarded r p ending p')
    (h' : Runs guarded' r p ending' p₁) : ending' = ending ∧ p₁ = p' := by
  induction h with
  | done =>
    cases h'
    exact ⟨rfl, rfl⟩
  | halt =>
    cases h'
    exact ⟨rfl, rfl⟩
  | call hanswer _ ih =>
    cases h' with
    | call hanswer' hnext' =>
      obtain ⟨rfl, rfl⟩ := hanswer.unique hanswer'
      exact ih hnext'

/-- A sequence, by how its first part ends. -/
theorem Runs.of_bind {f : α → Routine β} {ending : Except Halt β} (h : Runs guarded (r >>= f) p ending p') :
    (∃ cause, ending = .error cause ∧ Runs guarded r p (.error cause) p') ∨
      ∃ a p₁, Runs guarded r p (.ok a) p₁ ∧ Runs guarded (f a) p₁ ending p' := by
  induction r generalizing p with
  | done a => exact .inr ⟨a, p, .done, h⟩
  | halt cause =>
    cases h
    exact .inl ⟨cause, rfl, .halt⟩
  | call c next ih =>
    cases h with
    | call hanswer hnext =>
      rcases ih _ hnext with ⟨cause, hcause, hhalt⟩ | ⟨a, p₁, hfirst, hsecond⟩
      · exact .inl ⟨cause, hcause, .call hanswer hhalt⟩
      · exact .inr ⟨a, p₁, .call hanswer hfirst, hsecond⟩

end Unique

/-! ## Informed runs -/

/-- A routine runs so and looks at the blocks of known sectors only. At the end at least the last ones are
    known. -/
inductive Informed {α : Type} (guarded : Bool) : (SectorId → Prop) → Routine α → Plain →
    Except Halt α → Plain → (SectorId → Prop) → Prop
  | done {a : α} {p : Plain} {known known' : SectorId → Prop} (h : ∀ t, known' t → known t) :
      Informed guarded known (.done a) p (.ok a) p known'
  | halt {cause : Halt} {p : Plain} {known known' : SectorId → Prop} (h : ∀ t, known' t → known t) :
      Informed guarded known (.halt cause) p (.error cause) p known'
  | call {c : Call} {next : Except Fault c.Answer → Routine α} {p p₁ p₂ : Plain}
      {answer : Except Fault c.Answer} {ending : Except Halt α} {known known' : SectorId → Prop}
      (hlooks : ∀ s, c.looks? = some s → known s) (hanswer : Answers guarded c p answer p₁)
      (hnext : Informed guarded (c.informs known) (next answer) p₁ ending p₂ known') :
      Informed guarded known (.call c next) p ending p₂ known'

namespace Informed

open Routine

variable {α β : Type} {guarded : Bool} {p p₁ p₂ : Plain} {r : Routine α} {ending : Except Halt α}
  {known known' known₁ known₂ : SectorId → Prop}

theorem runs (h : Informed guarded known r p ending p₁ known') : Runs guarded r p ending p₁ := by
  induction h with
  | done => exact .done
  | halt => exact .halt
  | call _ hanswer _ ih => exact .call hanswer ih

theorem unguarded (h : Informed guarded known r p ending p₁ known') :
    Informed false known r p ending p₁ known' := by
  induction h with
  | done h => exact .done h
  | halt h => exact .halt h
  | call hlooks hanswer _ ih => exact .call hlooks hanswer.unguarded ih

/-- Who knows more may look at more. -/
theorem widen (h : Informed guarded known r p ending p₁ known') (hknown : ∀ t, known t → known₁ t) :
    Informed guarded known₁ r p ending p₁ known' := by
  induction h generalizing known₁ with
  | done h => exact .done fun t ht => hknown t (h t ht)
  | halt h => exact .halt fun t ht => hknown t (h t ht)
  | call hlooks hanswer _ ih =>
    exact .call (fun s hs => hknown s (hlooks s hs)) hanswer (ih (Call.informs_mono hknown))

theorem narrow (h : Informed guarded known r p ending p₁ known') (hknown : ∀ t, known₁ t → known' t) :
    Informed guarded known r p ending p₁ known₁ := by
  induction h with
  | done h => exact .done fun t ht => h t (hknown t ht)
  | halt h => exact .halt fun t ht => h t (hknown t ht)
  | call hlooks hanswer _ ih => exact .call hlooks hanswer (ih hknown)

/-- One routine after the other. -/
theorem bind {f : α → Routine β} {a : α} {ending : Except Halt β}
    (h : Informed guarded known r p (.ok a) p₁ known₁)
    (hnext : Informed guarded known₁ (f a) p₁ ending p₂ known₂) :
    Informed guarded known (r >>= f) p ending p₂ known₂ := by
  generalize ho : Except.ok a = o at h
  induction h with
  | done h =>
    cases ho
    exact hnext.widen h
  | halt => cases ho
  | call hlooks hanswer _ ih => exact call hlooks hanswer (ih hnext ho)

/-- What follows a halt is not done. -/
theorem bind_halt {f : α → Routine β} {cause : Halt}
    (h : Informed guarded known r p (.error cause) p₁ known₁) :
    Informed guarded known (r >>= f) p (.error cause) p₁ known₁ := by
  generalize ho : Except.error cause = o at h
  induction h with
  | done => cases ho
  | halt h =>
    cases ho
    exact halt h
  | call hlooks hanswer _ ih => exact call hlooks hanswer (ih ho)

theorem attempt (h : Informed guarded known r p ending p₁ known') :
    Informed guarded known (Routine.attempt r) p (.ok ending) p₁ known' := by
  induction h with
  | done h => exact done h
  | halt h => exact done h
  | call hlooks hanswer _ ih => exact call hlooks hanswer ih

theorem pure (a : α) : Informed guarded known (Pure.pure a) p (.ok a) p known := done fun _ ht => ht

theorem perform {c : Call} {a : c.Answer} (hlooks : ∀ s, c.looks? = some s → known s)
    (h : Answers guarded c p (.ok a) p₁) :
    Informed guarded known (Routine.perform c) p (.ok a) p₁ (c.informs known) :=
  call hlooks h (done fun _ ht => ht)

end Informed

/-! ## What a run learns -/

section Learns

open Routine

variable {α β : Type} {guarded : Bool} {c : Call} {p p' p₁ p₂ : Plain} {r : Routine α}
  {ending : Except Halt α} {known known' : SectorId → Prop} {t : SectorId}

/-- What is known, and what was taken meanwhile. -/
def learned (known : SectorId → Prop) (p p' : Plain) (t : SectorId) : Prop :=
  known t ∨ p.freeMap.taken t.toNat = false ∧ p'.Permits true t

theorem learned_of_same (h : p'.freeMap = p.freeMap) (ht : learned known p p' t) : known t := by
  rcases ht with ht | ⟨hfree, -, htaken⟩
  · exact ht
  · rw [← h, htaken rfl] at hfree
    cases hfree

/-- What was taken in two parts. -/
theorem learned_trans (hcount : p₂.count = p₁.count) (h : learned known p p₂ t) :
    learned (learned known p p₁) p₁ p₂ t := by
  rcases h with h | ⟨hfree, hpermits⟩
  · exact .inl (.inl h)
  · cases hmid : p₁.freeMap.taken t.toNat with
    | false => exact .inr ⟨hmid, hpermits⟩
    | true => exact .inl (.inr ⟨hfree, hcount ▸ hpermits.1, fun _ => hmid⟩)

/-- Who knows the taken sectors knows them afterwards. -/
theorem learned_taken (hcount : p'.count = p.count) (h : ∀ t, p.Permits true t → known t) (t : SectorId)
    (ht : p'.Permits true t) : learned known p p' t := by
  cases hbefore : p.freeMap.taken t.toNat with
  | true => exact .inl (h t ⟨hcount ▸ ht.1, fun _ => hbefore⟩)
  | false => exact .inr ⟨hbefore, ht⟩

/-- A routine runs so, looks at known blocks only, and knows afterwards what it has taken. -/
def Learns (guarded : Bool) (known : SectorId → Prop) (r : Routine α) (p : Plain) (ending : Except Halt α)
    (p' : Plain) : Prop :=
  Informed guarded known r p ending p' (learned known p p')

theorem Learns.bind {f : α → Routine β} {a : α} {ending : Except Halt β}
    (h : Learns guarded known r p (.ok a) p₁)
    (hnext : Learns guarded (learned known p p₁) (f a) p₁ ending p₂) :
    Learns guarded known (r >>= f) p ending p₂ :=
  Informed.bind h (Informed.narrow hnext fun _ => learned_trans hnext.runs.count_eq)

theorem Learns.bind_halt {f : α → Routine β} {cause : Halt}
    (h : Learns guarded known r p (.error cause) p₁) :
    Learns guarded known (r >>= f) p (.error cause) p₁ := Informed.bind_halt h

theorem Learns.pure (a : α) : Learns guarded known (Pure.pure a) p (.ok a) p :=
  .done fun _ => learned_of_same rfl

/-- A call that takes no sector. -/
theorem Learns.perform {c : Call} {a : c.Answer} (hlooks : ∀ s, c.looks? = some s → known s)
    (h : Answers guarded c p (.ok a) p₁) (hmap : p₁.freeMap = p.freeMap) :
    Learns guarded known (Routine.perform c) p (.ok a) p₁ :=
  (Informed.perform hlooks h).narrow fun _ ht => Call.informs_of_known (learned_of_same hmap ht)

/-! ## Filling what is taken -/

/-- A sector that is taken after a call was taken before, or by the call. -/
theorem Answers.taken {answer : Except Fault c.Answer} (h : Answers guarded c p answer p')
    (hkeeps : c.renews = false) (ht : p'.freeMap.taken t.toNat = true) :
    p.freeMap.taken t.toNat = true ∨ c.taken? answer = some t := by
  cases h with
  | allocate =>
    rcases FreeMap.taken_of_allocate ht with htaken | hresult
    · exact .inl htaken
    · exact .inr (by rw [hresult]; rfl)
  | release => exact .inl (FreeMap.taken_of_release ht)
  | loadMap => cases hkeeps
  | _ => exact .inl ht

/-- Every sector that the routine takes is filled by its next call, and so is one that is due. Neither is
    the free map replaced, nor do the counters start anew. -/
def Routine.Fills : Option SectorId → Routine α → Prop
  | due, .done _ => due = none
  | due, .halt _ => due = none
  | due, .call c next => (∀ s, due = some s → ∃ b, c = .store s b) ∧ c.renews = false ∧
      ∀ answer, Fills (c.taken? answer) (next answer)

/-- What a call has given back was taken. -/
theorem Answers.taken_of_released {answer : Except Fault c.Answer} {s : SectorId}
    (h : Answers guarded c p answer p') (hs : c.released? answer = some s) :
    p.freeMap.taken s.toNat = true := by
  cases h with
  | @release t =>
    obtain ⟨rfl, hresult⟩ := Call.released?_release hs
    exact FreeMap.taken_of_release_ok hresult
  | _ => cases hs

/-- A run is informed if every taken sector is known, all but one that is due, and if it looks at blocks of
    taken sectors or at those just given back. -/
theorem Runs.informed {due released : Option SectorId} (h : Runs guarded r p ending p') (hr : r.Fills due)
    (hlooks : guarded = true ∨ r.ViewsReleased released)
    (hreleased : ∀ s, released = some s → s.toNat < p.count → known s)
    (hknown : ∀ t, p.Permits true t → known t ∨ due = some t) :
    Informed guarded known r p ending p' fun t => known t ∨ p'.Permits true t := by
  induction h generalizing known due released with
  | done =>
    obtain rfl : due = none := hr
    exact .done fun t ht => ht.elim id fun ht => (hknown t ht).resolve_right (Option.some_ne_none t).symm
  | halt =>
    obtain rfl : due = none := hr
    exact .halt fun t ht => ht.elim id fun ht => (hknown t ht).resolve_right (Option.some_ne_none t).symm
  | @call c next p p₁ p₂ answer ending hanswer _ ih =>
    obtain ⟨hdue, hkeeps, hnext⟩ := hr
    have hcount := hanswer.count_eq
    -- what is due is stored, so it is neither looked at nor given back
    have hstored : ∀ s, due = some s → c.looks? = none ∧ c.released? answer = none := by
      intro s hs
      obtain ⟨b, rfl⟩ := hdue s hs
      exact ⟨rfl, rfl⟩
    have hviews := hlooks.imp_right fun hviews => hviews.2 answer
    refine .call ?_ hanswer ((ih (hnext answer) hviews ?_ ?_).narrow fun t =>
      Or.imp_left Call.informs_of_known)
    · intro s hs
      have hs' := Call.sector?_of_looks? hs
      have hpermits := hanswer.permits hs'
      rcases hlooks with rfl | hviews
      · exact (hknown s hpermits).resolve_right fun hd =>
          Option.some_ne_none s (hs.symm.trans (hstored s hd).1)
      · exact hreleased s (hviews.1 s hs') hpermits.1
    · intro s hs hlt
      have hpermits : p.Permits true s := ⟨hcount ▸ hlt, fun _ => hanswer.taken_of_released hs⟩
      exact Call.informs_of_known ((hknown s hpermits).resolve_right fun hd =>
        (Option.some_ne_none s (hs.symm.trans (hstored s hd).2)).elim)
    · intro t ht
      rcases hanswer.taken hkeeps (ht.2 rfl) with htaken | htaken
      · rcases hknown t ⟨hcount ▸ ht.1, fun _ => htaken⟩ with ht | ht
        · exact .inl (Call.informs_of_known ht)
        · obtain ⟨b, rfl⟩ := hdue t ht
          exact .inl (.inl rfl)
      · exact .inr htaken

/-- **A run on taken sectors** is informed where all of them are known. -/
theorem Runs.learns (h : Runs true r p ending p') (hr : r.Fills none)
    (hknown : ∀ t, p.Permits true t → known t) : Learns true known r p ending p' := by
  have hnone : ∀ s, none = some s → s.toNat < p.count → known s :=
    fun s hs => (Option.some_ne_none s hs.symm).elim
  exact (h.informed hr (.inl rfl) hnone fun t ht => .inl (hknown t ht)).narrow
    fun _ ht => ht.imp_right And.right

/-- So is one that looks at what it gives back. -/
theorem Runs.learns_viewsReleased {released : Option SectorId} (h : Runs guarded r p ending p')
    (hr : r.Fills none) (hviews : r.ViewsReleased released) (hreleased : ∀ s, released = some s → known s)
    (hknown : ∀ t, p.Permits true t → known t) : Learns guarded known r p ending p' :=
  (h.informed hr (.inr hviews) (fun s hs _ => hreleased s hs) fun t ht => .inl (hknown t ht)).narrow
    fun _ ht => ht.imp_right And.right

end Learns

end InodeStore
