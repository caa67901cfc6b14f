import InodeStore.Proofs.Store.Refinement
import InodeStore.Store.Writers
import Mathlib.Logic.Hydra

/-!
# `Proofs.Store.Interleaving` — parties that rely on each other

Parties on one store make their calls in any order. `Parties.Inevitably P` says that they come to an end in
every order, and that `P` holds there; so they do when each makes a call in turn, if there are enough turns
(`Inevitably.runTurns_stuck`).

To prove it, each party is looked at alone. A `Conduct` says what holds of the store between two calls, and
what a party may rely on while the others make theirs. A routine is `Secure` if none of its calls faults or
breaks the conduct towards another party, whatever the others did in the meantime within theirs; it never
halts and what it leaves behind stays so. Such routines are put together as they are run
(`Secure.bind`, `Secure.exclusively`, `Secure.reserving`), and together they inevitably end as each of them
does (`Conduct.inevitably`): a party that waits has nothing that another one waits for.
-/

namespace InodeStore

variable {α β : Type}

/-! ## What is left of routines -/

/-- A routine after its first call. -/
inductive Routine.Rest : Routine α → Routine α → Prop where
  | next (c : Call) (next : Except Fault c.Answer → Routine α) (answer : Except Fault c.Answer) :
      Rest (next answer) (.call c next)

/-- No routine goes on for ever. -/
theorem Routine.rest_wellFounded : WellFounded (Rest (α := α)) := by
  constructor
  intro r
  induction r with
  | done a => exact ⟨_, fun _ h => by cases h⟩
  | halt cause => exact ⟨_, fun _ h => by cases h⟩
  | call c next ih =>
    constructor
    intro r h
    cases h with
    | next c next answer => exact ih answer

namespace Store.Parties

variable {δ : Type} {n : Nat} [BlockDevice δ] {parties next : Parties δ n α} {t : Nat} {log : List Event}

/-- A step is a call of one party, which can be made now. -/
theorem step_cases (h : parties.step t = some (next, log)) :
    ∃ c rest answer store, parties.routines[t]? = some (.call c rest) ∧
      parties.store.ready c = true ∧ perform c parties.store = ⟨answer, store, log⟩ ∧
      next = ⟨store, parties.routines.setIfInBounds t (rest answer)⟩ := by
  unfold step at h
  split at h
  · next c rest hroutine =>
    split at h
    · next hready =>
      cases h
      exact ⟨c, rest, _, _, hroutine, hready, rfl, rfl⟩
    · cases h
  · cases h

/-- A party that takes no step has ended or waits. -/
theorem ready_of_step {c : Call} {rest : Except Fault c.Answer → Routine α} (h : parties.step t = none)
    (hroutine : parties.routines[t]? = some (.call c rest)) : parties.store.ready c = false := by
  unfold step at h
  rw [hroutine] at h
  dsimp only at h
  split at h
  · cases h
  · next hready => exact Bool.eq_false_iff.mpr hready

/-- One routine in place of another. -/
theorem coe_set_add {l : List α} {t : Nat} {a b : α} (h : l[t]? = some a) :
    (l.set t b : Multiset α) + {a} = (l : Multiset α) + {b} := by
  induction l generalizing t with
  | nil => cases h
  | cons x rest ih =>
    cases t with
    | zero =>
      obtain rfl : x = a := Option.some.inj h
      simp only [List.set_cons_zero, ← Multiset.cons_coe, Multiset.cons_add]
      rw [add_comm, Multiset.singleton_add, add_comm, Multiset.singleton_add, Multiset.cons_swap]
    | succ t =>
      simp only [List.set_cons_succ, ← Multiset.cons_coe, Multiset.cons_add]
      rw [ih h]

/-- A step leaves less to be done. -/
theorem step_rest (h : parties.step t = some (next, log)) :
    Relation.CutExpand Routine.Rest (next.routines.toList : Multiset (Routine α))
      (parties.routines.toList : Multiset (Routine α)) := by
  obtain ⟨c, rest, answer, store, hroutine, -, -, rfl⟩ := step_cases h
  refine ⟨{rest answer}, .call c rest, ?_, ?_⟩
  · intro r hr
    rw [Multiset.mem_singleton.mp hr]
    exact .next c rest answer
  · rw [← Array.getElem?_toList] at hroutine
    simp only [Array.toList_setIfInBounds]
    exact coe_set_add hroutine

/-- In whatever order the parties make their calls, they come to an end, and there `P` holds. -/
inductive Inevitably (P : Parties δ n α → Prop) : Parties δ n α → Prop where
  | intro {parties : Parties δ n α} (hend : (∀ t, parties.step t = none) → P parties)
      (hnext : ∀ {t next log}, parties.step t = some (next, log) → Inevitably P next) :
      Inevitably P parties

/-- What every step keeps holds at the end of every order. -/
theorem inevitably_of_step {P I : Parties δ n α → Prop}
    (hstep : ∀ {parties t next log}, I parties → parties.step t = some (next, log) → I next)
    (hend : ∀ {parties}, I parties → (∀ t, parties.step t = none) → P parties) (h : I parties) :
    Inevitably P parties := by
  -- the routines that are left become fewer and shorter
  have hwf := (Routine.rest_wellFounded (α := α)).cutExpand
  generalize hrest : (parties.routines.toList : Multiset (Routine α)) = left
  induction left using hwf.induction generalizing parties with
  | _ left ih =>
    subst hrest
    exact .intro (hend h) fun hnext => ih _ (step_rest hnext) (hstep h hnext) rfl

/-! ### In turn -/

/-- In a turn nobody can make a call, or the first who can makes it and the turn goes on from there. -/
theorem turn_cases (parties : Parties δ n α) (ts : List Nat) :
    ((∀ t ∈ ts, parties.step t = none) ∧ parties.turn ts = (false, parties, [])) ∨
      ∃ t next log rest, parties.step t = some (next, log) ∧
        parties.turn ts = (true, (turn next rest).2.1, log ++ (turn next rest).2.2) := by
  induction ts with
  | nil => exact .inl ⟨nofun, rfl⟩
  | cons t rest ih =>
    cases hstep : parties.step t with
    | some made =>
      refine .inr ⟨t, made.1, made.2, rest, hstep, ?_⟩
      rw [turn, hstep]
    | none =>
      have hpass : parties.turn (t :: rest) = parties.turn rest := by rw [turn, hstep]
      rw [hpass, List.forall_mem_cons]
      exact ih.imp_left fun ⟨hstuck, hturn⟩ => ⟨⟨hstep, hstuck⟩, hturn⟩

/-- Nobody can make a call whom a whole turn passes over. -/
theorem step_none_of_all (h : ∀ t ∈ List.range parties.routines.size, parties.step t = none) (t : Nat) :
    parties.step t = none := by
  by_cases ht : t < parties.routines.size
  · exact h t (List.mem_range.mpr ht)
  · unfold step
    rw [Array.getElem?_eq_none (Nat.le_of_not_lt ht)]

/-- Parties that have ended make no call. -/
theorem step_none_of_ended (h : none ∉ parties.routines.toList.map ending?) (t : Nat) :
    parties.step t = none := by
  unfold step
  split
  · next c rest hroutine =>
    have hmem := List.mem_of_getElem? (Array.getElem?_toList.trans hroutine)
    exact absurd (List.mem_map_of_mem (f := ending?) hmem) h
  · rfl

namespace Inevitably

variable {P : Parties δ n α → Prop}

/-- Where no party can make a call, they have come to an end. -/
theorem ended (h : Inevitably P parties) (hstuck : ∀ t, parties.step t = none) : P parties := by
  cases h with
  | intro hend _ => exact hend hstuck

/-- A turn is some calls in an order. -/
theorem turn (h : Inevitably P parties) (ts : List Nat) : Inevitably P (parties.turn ts).2.1 := by
  induction h generalizing ts with
  | @intro parties hend hnext ih =>
    rcases turn_cases parties ts with ⟨-, hturn⟩ | ⟨t, next, log, rest, hstep, hturn⟩ <;> rw [hturn]
    · exact .intro hend hnext
    · exact ih hstep rest

/-- However many turns there are, the end is yet to come or has come. -/
theorem runTurns (h : Inevitably P parties) (earlier : List Event) (fuel : Nat) :
    Inevitably P (parties.runTurns earlier fuel).1 := by
  induction fuel generalizing parties earlier with
  | zero => exact h
  | succ fuel ih =>
    have hturn := h.turn (List.range parties.routines.size)
    unfold Parties.runTurns
    split
    · next parties' log heq =>
      rw [heq] at hturn
      exact hturn
    · next parties' log heq =>
      rw [heq] at hturn
      exact ih hturn _

/-- **With enough turns** the parties come to an end, wherever in a turn they are. -/
theorem turn_runTurns_stuck (h : Inevitably P parties) (ts : List Nat) :
    ∃ least, ∀ earlier fuel, least ≤ fuel →
      ∀ t, ((parties.turn ts).2.1.runTurns earlier fuel).1.step t = none := by
  -- the calls of what is left of the turn, then those of whole turns
  induction h generalizing ts with
  | @intro parties hend hnext ih =>
    rcases turn_cases parties ts with ⟨-, hturn⟩ | ⟨t, next, log, rest, hstep, hturn⟩ <;> rw [hturn]
    · rcases turn_cases parties (List.range parties.routines.size) with
        ⟨hstuck, hrange⟩ | ⟨t, next, log, rest, hstep, hrange⟩
      · refine ⟨1, fun earlier fuel hfuel => ?_⟩
        obtain ⟨fuel, rfl⟩ := Nat.exists_eq_add_of_le' hfuel
        unfold Parties.runTurns
        rw [hrange]
        exact step_none_of_all hstuck
      · obtain ⟨least, hleast⟩ := ih hstep rest
        refine ⟨least + 1, fun earlier fuel hfuel => ?_⟩
        obtain ⟨fuel, rfl⟩ := Nat.exists_eq_add_of_le' (Nat.le_trans (Nat.le_add_left 1 least) hfuel)
        unfold Parties.runTurns
        rw [hrange]
        exact hleast _ _ (Nat.le_of_add_le_add_right hfuel)
    · exact ih hstep rest

theorem runTurns_stuck (h : Inevitably P parties) :
    ∃ least, ∀ earlier fuel, least ≤ fuel → ∀ t, (parties.runTurns earlier fuel).1.step t = none :=
  h.turn_runTurns_stuck []

end Inevitably

end Store.Parties

/-! ## Conduct -/

/-- Can a call be carried out now? -/
def Plain.ready (p : Plain) : Call → Bool
  | .beginGrowth handle => !p.registry.isGrowing handle
  | _ => true

/-- What a number of parties keep to on one store. `W` is the store with all that is kept in mind about
    it. -/
structure Conduct (W : Type) where
  parties : Nat
  plain : W → Plain
  /-- What holds between two calls. -/
  Sound : W → Prop
  /-- What a party may rely on while the others make calls. -/
  Rely : Nat → W → W → Prop
  /-- The party keeps nobody waiting. -/
  Idle : Nat → W → Prop
  refl : ∀ t w, Rely t w w
  trans : ∀ {t w w' w''}, Rely t w w' → Rely t w' w'' → Rely t w w''
  /-- Whoever waits does so for one of the parties. -/
  waiting : ∀ {w c}, Sound w → (plain w).ready c = false → ∃ t < parties, ¬ Idle t w

namespace Conduct

variable {W : Type} {C : Conduct W} {t : Nat} {w w' w'' : W}

/-- What a party may find after others have made calls. -/
def Later (C : Conduct W) (t : Nat) (w w' : W) : Prop := C.Rely t w w' ∧ C.Sound w'

theorem Later.trans (h : C.Later t w w') (h' : C.Later t w' w'') : C.Later t w w'' :=
  ⟨C.trans h.1 h'.1, h'.2⟩

theorem later_refl (h : C.Sound w) : C.Later t w w := ⟨C.refl t w, h⟩

/-- Something holds now and as long as the party itself makes no call. -/
def Lasts (C : Conduct W) (t : Nat) (φ : W → Prop) (w : W) : Prop := ∀ w', C.Later t w w' → φ w'

theorem Lasts.now {φ : W → Prop} (h : C.Lasts t φ w) (hw : C.Sound w) : φ w := h w (later_refl hw)

theorem Lasts.later {φ : W → Prop} (h : C.Lasts t φ w) (hw : C.Later t w w') : C.Lasts t φ w' :=
  fun _ hw' => h _ (hw.trans hw')

/-- A call of a party that keeps to the conduct. -/
structure Does (C : Conduct W) (t : Nat) (w : W) (c : Call) (answer : Except Fault c.Answer) (w' : W) :
    Prop where
  answers : Answers true c (C.plain w) answer (C.plain w')
  sound : C.Sound w'
  others : ∀ s, s ≠ t → C.Rely s w w'

/-- The party keeps to the conduct in whatever it does, and ends so that `post` holds and lasts. -/
def Secure (C : Conduct W) (t : Nat) (post : α → W → Prop) : Routine α → W → Prop
  | .done a, w => C.Lasts t (post a) w
  | .halt _, w => C.Lasts t (fun _ => False) w
  | .call c next, w => C.Lasts t (fun w' =>
      ((C.plain w').ready c = false → C.Idle t w') ∧
      ((C.plain w').ready c = true →
        ∃ answer w'', C.Does t w' c answer w'' ∧ Secure C t post (next answer) w'')) w

namespace Secure

variable {r : Routine α} {post : α → W → Prop}

/-- What the others do in the meantime does not matter. -/
theorem later (h : C.Secure t post r w) (hw : C.Later t w w') : C.Secure t post r w' := by
  cases r with
  | done a => exact Lasts.later h hw
  | halt cause => exact Lasts.later h hw
  | call c next => exact Lasts.later h hw

theorem of_later (h : ∀ w', C.Later t w w' → C.Secure t post r w') : C.Secure t post r w := by
  cases r with
  | done a => exact fun w' hw => h w' hw w' (later_refl hw.2)
  | halt cause => exact fun w' hw => h w' hw w' (later_refl hw.2)
  | call c next => exact fun w' hw => h w' hw w' (later_refl hw.2)

theorem pure {a : α} (h : C.Lasts t (post a) w) : C.Secure t post (Pure.pure a) w := h

/-- A call goes on to something else that is secure where what it went on to was. -/
theorem call {c : Call} {next : Except Fault c.Answer → Routine α} {next' : Except Fault c.Answer → Routine β}
    {post' : β → W → Prop} (h : C.Secure t post (.call c next) w)
    (hnext : ∀ answer {w' w''}, C.Later t w w' → C.Does t w' c answer w'' →
      C.Secure t post (next answer) w'' → C.Secure t post' (next' answer) w'') :
    C.Secure t post' (.call c next') w := by
  intro w' hw
  obtain ⟨hwait, hmake⟩ := h w' hw
  refine ⟨hwait, ?_⟩
  intro hready
  obtain ⟨answer, w'', hdoes, hrest⟩ := hmake hready
  exact ⟨answer, w'', hdoes, hnext answer hw hdoes hrest⟩

/-- One routine after the other. -/
theorem bind {post' : β → W → Prop} {f : α → Routine β} (h : C.Secure t post r w)
    (hnext : ∀ a w', C.Sound w' → C.Lasts t (post a) w' → C.Secure t post' (f a) w') :
    C.Secure t post' (r >>= f) w := by
  induction r generalizing w with
  | done a => exact of_later fun w' hw => hnext a w' hw.2 (Lasts.later h hw)
  | halt cause => exact h
  | call c next ih => exact h.call fun answer _ _ _ _ hrest => ih answer hrest

theorem mono {post' : α → W → Prop} (h : C.Secure t post r w)
    (hpost : ∀ a w', C.Sound w' → post a w' → post' a w') : C.Secure t post' r w := by
  rw [← Routine.bind_done r]
  exact h.bind fun a _ _ hlast w' hw => hpost a w' hw.2 (hlast w' hw)

/-- What every party may rely on is kept. -/
theorem frame {φ : W → Prop} (h : C.Secure t post r w) (hφ : ∀ {s w w'}, C.Later s w w' → φ w → φ w')
    (hw : φ w) : C.Secure t (fun a w => post a w ∧ φ w) r w := by
  induction r generalizing w with
  | done a => exact fun w' hlater => ⟨h w' hlater, hφ hlater hw⟩
  | halt cause => exact fun w' hlater => h w' hlater
  | call c next ih =>
    refine h.call fun answer w' w'' hlater hdoes hrest => ?_
    -- to any other party the call is one that it may rely on
    have hstep : C.Later (t + 1) w' w'' := ⟨hdoes.others _ (Nat.succ_ne_self t), hdoes.sound⟩
    exact ih answer hrest (hφ hstep (hφ hlater hw))

/-! ## Calls -/

/-- A call that may have to wait. -/
theorem perform {c : Call} {post : c.Answer → W → Prop}
    (h : ∀ w', C.Later t w w' → ((C.plain w').ready c = false → C.Idle t w') ∧
      ((C.plain w').ready c = true →
        ∃ answer w'', C.Does t w' c (.ok answer) w'' ∧ C.Lasts t (post answer) w'')) :
    C.Secure t post (Routine.perform c) w := by
  intro w' hw
  obtain ⟨hwait, hmake⟩ := h w' hw
  refine ⟨hwait, ?_⟩
  intro hready
  obtain ⟨answer, w'', hdoes, hpost⟩ := hmake hready
  exact ⟨.ok answer, w'', hdoes, hpost⟩

/-- A call that need not wait. -/
theorem perform_ready {c : Call} {post : c.Answer → W → Prop} (hready : ∀ p : Plain, p.ready c = true)
    (h : ∀ w', C.Later t w w' →
      ∃ answer w'', C.Does t w' c (.ok answer) w'' ∧ C.Lasts t (post answer) w'') :
    C.Secure t post (Routine.perform c) w := by
  refine perform fun w' hw => ⟨?_, fun _ => h w' hw⟩
  intro hwait
  rw [hready] at hwait
  cases hwait

/-- A call that is a question: the store is afterwards as before. -/
theorem ask {c : Call} {post : c.Answer → W → Prop} (hready : ∀ p : Plain, p.ready c = true)
    (h : ∀ w', C.Later t w w' →
      ∃ answer, Answers true c (C.plain w') (.ok answer) (C.plain w') ∧ C.Lasts t (post answer) w') :
    C.Secure t post (Routine.perform c) w := by
  refine perform_ready hready fun w' hw => ?_
  obtain ⟨answer, hanswers, hpost⟩ := h w' hw
  exact ⟨answer, w', ⟨hanswers, hw.2, fun s _ => C.refl s w'⟩, hpost⟩

/-- A report changes nothing. -/
theorem emit {post : Unit → W → Prop} (event : Event) (h : C.Lasts t (post ()) w) :
    C.Secure t post (Routine.emit event) w :=
  ask (fun _ => rfl) fun _ hw => ⟨(), .emit, h.later hw⟩

/-! ## Endings -/

/-- A secure routine does not halt. -/
theorem attempt (h : C.Secure t post r w) :
    C.Secure t (fun outcome w => ∃ a, outcome = .ok a ∧ post a w) (Routine.attempt r) w := by
  induction r generalizing w with
  | done a => exact fun w' hw => ⟨a, rfl, h w' hw⟩
  | halt cause => exact fun w' hw => (h w' hw).elim
  | call c next ih => exact h.call fun answer _ _ _ _ hrest => ih answer hrest

/-- What is always done is done at the end. -/
theorem always {after : Routine Unit} {post' : α → W → Prop} (h : C.Secure t post r w)
    (hafter : ∀ a w', C.Sound w' → C.Lasts t (post a) w' →
      C.Secure t (fun _ => post' a) after w') :
    C.Secure t post' (Routine.always after r) w := by
  apply h.attempt.bind
  intro outcome w' hw hpost
  obtain ⟨a, rfl, -⟩ := hpost.now hw
  refine (hafter a w' hw fun w'' hw'' => ?_).bind fun _ _ _ hlast => hlast
  obtain ⟨a', he, hpost'⟩ := hpost w'' hw''
  exact Except.ok.inj he ▸ hpost'

/-- A secure routine keeps what it takes. -/
theorem reservingFrom (h : C.Secure t post r w) (taken : List SectorId) :
    C.Secure t (fun outcome => post outcome.1) (Routine.reservingFrom taken r) w := by
  induction r generalizing w taken with
  | done a => exact h
  | halt cause => exact of_later fun w' hw => (h w' hw).elim
  | call c next ih =>
    rw [Runs.reservingFrom_call]
    exact h.call fun answer _ _ _ _ hrest => ih answer hrest _

end Secure

/-! ## All parties together -/

section Together

variable {δ : Type} {n : Nat} [BlockDevice δ] [LawfulDevice δ] {post : Nat → α → W → Prop}
  {parties : Store.Parties δ n α}

/-- Every party is secure from here on. -/
structure Kept (C : Conduct W) (post : Nat → α → W → Prop) (parties : Store.Parties δ n α) (w : W) :
    Prop where
  stands : Stands parties.store (C.plain w)
  sound : C.Sound w
  size : parties.routines.size = C.parties
  secure : ∀ {t r}, parties.routines[t]? = some r → C.Secure t (post t) r w

/-- Who may make a call is known from the plain store. -/
theorem Kept.ready_eq (h : C.Kept post parties w) (c : Call) :
    parties.store.ready c = (C.plain w).ready c := by
  cases c with
  | beginGrowth handle => exact congrArg (fun registry => !registry.isGrowing handle) h.stands.registry
  | _ => rfl

/-- A call of one party leaves every party secure. -/
theorem Kept.step {next : Store.Parties δ n α} {log : List Event} (hn : 0 < n)
    (h : C.Kept post parties w) (hstep : parties.step t = some (next, log)) :
    ∃ w', C.Kept post next w' := by
  obtain ⟨c, rest, answer, store, hroutine, hready, hperform, rfl⟩ := Store.Parties.step_cases hstep
  obtain ⟨-, hmake⟩ := h.secure hroutine w (later_refl h.sound)
  obtain ⟨answer', w', hdoes, hrest⟩ := hmake ((h.ready_eq c).symm.trans hready)
  obtain ⟨store', log', hperform', hstands, -⟩ := hdoes.answers.perform_eq hn h.stands
  rw [hperform] at hperform'
  obtain ⟨rfl, rfl, -⟩ := Reply.mk.inj hperform'
  refine ⟨w', hstands, hdoes.sound, ?_, ?_⟩
  · rw [Array.size_setIfInBounds]
    exact h.size
  · intro s r hr
    rw [Array.getElem?_setIfInBounds] at hr
    by_cases hs : t = s
    · -- the party that made the call goes on from the answer
      subst hs
      rw [if_pos rfl] at hr
      split at hr
      · exact Option.some.inj hr ▸ hrest
      · cases hr
    · rw [if_neg hs] at hr
      exact (h.secure hr).later ⟨hdoes.others s fun he => hs he.symm, hdoes.sound⟩

/-- Where no party can make a call, all have ended. -/
theorem Kept.ended (h : C.Kept post parties w) (hidle : ∀ {t a}, post t a w → C.Idle t w)
    (hstuck : ∀ t, parties.step t = none) {r : Routine α} (hr : parties.routines[t]? = some r) :
    ∃ a, r = .done a ∧ post t a w := by
  have hcase : ∀ {t r}, parties.routines[t]? = some r → C.Idle t w ∧
      ((∃ a, r = .done a ∧ post t a w) ∨ ∃ c, (C.plain w).ready c = false) := by
    intro t r hr
    have hsecure := h.secure hr
    cases r with
    | done a => exact ⟨hidle (hsecure.now h.sound), .inl ⟨a, rfl, hsecure.now h.sound⟩⟩
    | halt cause => exact (hsecure.now h.sound).elim
    | call c next =>
      have hready := (h.ready_eq c).symm.trans (Store.Parties.ready_of_step (hstuck t) hr)
      exact ⟨(hsecure.now h.sound).1 hready, .inr ⟨c, hready⟩⟩
  obtain ⟨-, hend | ⟨c, hready⟩⟩ := hcase hr
  · exact hend
  · -- whom this party waits for keeps nobody waiting
    obtain ⟨s, hs, hbusy⟩ := C.waiting h.sound hready
    have hget := Array.getElem?_eq_getElem (Nat.lt_of_lt_of_eq hs h.size.symm)
    exact absurd (hcase hget).1 hbusy

/-- **Secure parties** come to an end in whatever order they make their calls, each with what it ends
    with. -/
theorem Kept.inevitably {P : Store.Parties δ n α → Prop} (hn : 0 < n) (h : C.Kept post parties w)
    (hidle : ∀ {t a w}, post t a w → C.Idle t w)
    (hend : ∀ {parties w}, C.Kept post parties w →
      (∀ {t r}, parties.routines[t]? = some r → ∃ a, r = .done a ∧ post t a w) → P parties) :
    parties.Inevitably P := by
  refine Store.Parties.inevitably_of_step (I := fun parties => ∃ w, C.Kept post parties w) ?_ ?_ ⟨w, h⟩
  · rintro parties t next log ⟨w, h⟩ hstep
    exact h.step hn hstep
  · rintro parties ⟨w, h⟩ hstuck
    exact hend h fun hr => h.ended hidle hstuck hr

end Together

end Conduct

end InodeStore
