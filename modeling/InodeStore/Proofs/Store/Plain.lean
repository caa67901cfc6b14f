import InodeStore.Proofs.Device.Lawful
import InodeStore.Proofs.FreeMap.FirstFit
import InodeStore.Store.Basic

/-!
# `Proofs.Store.Plain` — routines on a store without a cache

`Plain` is a store whose blocks are an array, and `Runs` says how a routine runs on it. A run exists
only if every block that is viewed, stored or updated is one of the device's and, where that is asked
for (`guarded`), a taken one at that moment. What a routine has taken and given back is kept in the
state, the last sector first.

Runs are put together as routines are: one rule a combinator (`Runs.bind`, `Runs.always`,
`Runs.reserving`) and one a call (`Runs.view`, `Runs.store`, …).
-/

namespace InodeStore

/-- A store whose blocks are an array. -/
structure Plain where
  block : SectorArray
  /-- The number of blocks. -/
  count : Nat
  freeMap : FreeMap
  registry : Registry
  /-- Sectors taken so far, the last one first. -/
  took : List SectorId
  /-- Sectors given back so far, the last one first. -/
  gave : List SectorId

namespace Plain

/-- The blocks with another one in a sector. -/
def put (p : Plain) (s : SectorId) (b : Block) : Plain := { p with block := Function.update p.block s b }

theorem block_put_self (p : Plain) (s : SectorId) (b : Block) : (p.put s b).block s = b :=
  Function.update_self _ _ _

theorem block_put_of_ne (p : Plain) {s t : SectorId} (h : t ≠ s) (b : Block) :
    (p.put s b).block t = p.block t := Function.update_of_ne h _ _

/-- The block of the sector may be used. -/
def Permits (guarded : Bool) (p : Plain) (s : SectorId) : Prop :=
  s.toNat < p.count ∧ (guarded = true → p.freeMap.taken s.toNat = true)

/-- The sectors taken after a call, of which only a search for one takes any. -/
def tookAfter : (c : Call) → Except Fault c.Answer → List SectorId → List SectorId
  | .allocate, .ok (.ok s), took => s :: took
  | _, _, took => took

theorem tookAfter_eq (c : Call) (answer : Except Fault c.Answer) :
    ∃ first, ∀ took, tookAfter c answer took = first ++ took := by
  cases c with
  | allocate =>
    match answer with
    | .ok (.ok s) => exact ⟨[s], fun _ => rfl⟩
    | .ok (.error e) => exact ⟨[], fun _ => rfl⟩
    | .error e => exact ⟨[], fun _ => rfl⟩
  | _ => exact ⟨[], fun _ => rfl⟩

end Plain

open Plain

/-- A call is answered so, and the store is then so. -/
inductive Answers (guarded : Bool) : (c : Call) → Plain → Except Fault c.Answer → Plain → Prop
  | view {s : SectorId} {p : Plain} (h : p.Permits guarded s) :
      Answers guarded (.view s) p (.ok (p.block s)) p
  | store {s : SectorId} {b : Block} {p : Plain} (h : p.Permits guarded s) :
      Answers guarded (.store s b) p (.ok ()) (p.put s b)
  | update {s : SectorId} {change : Block → Block} {p : Plain} (h : p.Permits guarded s) :
      Answers guarded (.update s change) p (.ok ()) (p.put s (change (p.block s)))
  | flushCache {p : Plain} : Answers guarded .flushCache p (.ok ()) p
  | resetCache {p : Plain} : Answers guarded .resetCache p (.ok ()) p
  | allocate {p : Plain} :
      Answers guarded .allocate p (FreeMap.allocate 1 p.freeMap).result
        { p with
          freeMap := (FreeMap.allocate 1 p.freeMap).state
          took := tookAfter .allocate (FreeMap.allocate 1 p.freeMap).result p.took }
  | release {s : SectorId} {p : Plain} :
      Answers guarded (.release s) p (FreeMap.release s 1 p.freeMap).result
        { p with freeMap := (FreeMap.release s 1 p.freeMap).state, gave := s :: p.gave }
  | mapBytes {p : Plain} : Answers guarded .mapBytes p (.ok p.freeMap.toBytes) p
  | loadMap {bytes : Bytes} {p : Plain} :
      Answers guarded (.loadMap bytes) p (FreeMap.load bytes p.freeMap).result
        { p with freeMap := (FreeMap.load bytes p.freeMap).state }
  | openInode {s : SectorId} {p : Plain} :
      Answers guarded (.openInode s) p (Registry.openInode s p.registry).result
        { p with registry := (Registry.openInode s p.registry).state }
  | close {handle : Handle} {p : Plain} :
      Answers guarded (.close handle) p (Registry.close handle p.registry).result
        { p with registry := (Registry.close handle p.registry).state }
  | drop {handle : Handle} {p : Plain} : Answers guarded (.drop handle) p (.ok ()) p
  | remove {handle : Handle} {p : Plain} :
      Answers guarded (.remove handle) p (.ok ())
        { p with registry := (Registry.remove handle p.registry).state }
  | isDenied {handle : Handle} {p : Plain} :
      Answers guarded (.isDenied handle) p (.ok (p.registry.isDenied handle)) p
  | beginGrowth {handle : Handle} {p : Plain} :
      Answers guarded (.beginGrowth handle) p (.ok ())
        { p with registry := (Registry.setGrowing handle true p.registry).state }
  | endGrowth {handle : Handle} {p : Plain} :
      Answers guarded (.endGrowth handle) p (.ok ())
        { p with registry := (Registry.setGrowing handle false p.registry).state }
  | emit {event : Event} {p : Plain} : Answers guarded (.emit event) p (.ok ()) p

/-- What is permitted where taken sectors are asked for is permitted where they are not. -/
theorem Plain.Permits.unguarded {guarded : Bool} {p : Plain} {s : SectorId}
    (h : p.Permits guarded s) : p.Permits false s := ⟨h.1, nofun⟩

theorem Answers.unguarded {guarded : Bool} {c : Call} {p p₁ : Plain} {answer : Except Fault c.Answer}
    (h : Answers guarded c p answer p₁) : Answers false c p answer p₁ := by
  cases h with
  | view h => exact .view h.unguarded
  | store h => exact .store h.unguarded
  | update h => exact .update h.unguarded
  | flushCache => exact .flushCache
  | resetCache => exact .resetCache
  | allocate => exact .allocate
  | release => exact .release
  | mapBytes => exact .mapBytes
  | loadMap => exact .loadMap
  | openInode => exact .openInode
  | close => exact .close
  | drop => exact .drop
  | remove => exact .remove
  | isDenied => exact .isDenied
  | beginGrowth => exact .beginGrowth
  | endGrowth => exact .endGrowth
  | emit => exact .emit

theorem Answers.took {guarded : Bool} {c : Call} {p p₁ : Plain} {answer : Except Fault c.Answer}
    (h : Answers guarded c p answer p₁) : p₁.took = tookAfter c answer p.took := by
  cases h <;> rfl

/-- No call changes how many blocks there are. -/
theorem Answers.count_eq {guarded : Bool} {c : Call} {p p₁ : Plain} {answer : Except Fault c.Answer}
    (h : Answers guarded c p answer p₁) : p₁.count = p.count := by
  cases h <;> rfl

/-- A routine runs so: how it ends, and the store at the end. -/
inductive Runs {α : Type} (guarded : Bool) : Routine α → Plain → Except Halt α → Plain → Prop
  | done {a : α} {p : Plain} : Runs guarded (.done a) p (.ok a) p
  | halt {cause : Halt} {p : Plain} : Runs guarded (.halt cause) p (.error cause) p
  | call {c : Call} {next : Except Fault c.Answer → Routine α} {p p₁ p₂ : Plain}
      {answer : Except Fault c.Answer} {ending : Except Halt α} (hanswer : Answers guarded c p answer p₁)
      (hnext : Runs guarded (next answer) p₁ ending p₂) : Runs guarded (.call c next) p ending p₂

namespace Runs

open Routine

variable {α β : Type} {guarded : Bool} {p p₁ p₂ : Plain} {r : Routine α} {ending : Except Halt α}

theorem unguarded (h : Runs guarded r p ending p₁) : Runs false r p ending p₁ := by
  induction h with
  | done => exact done
  | halt => exact halt
  | call hanswer _ ih => exact call hanswer.unguarded ih

theorem count_eq (h : Runs guarded r p ending p₁) : p₁.count = p.count := by
  induction h with
  | done => rfl
  | halt => rfl
  | call hanswer _ ih => exact ih.trans hanswer.count_eq

/-! ## Sequences -/

theorem pure (a : α) : Runs guarded (Pure.pure a) p (.ok a) p := done

/-- One routine after the other. -/
theorem bind {f : α → Routine β} {a : α} {ending : Except Halt β} (h : Runs guarded r p (.ok a) p₁)
    (hnext : Runs guarded (f a) p₁ ending p₂) : Runs guarded (r >>= f) p ending p₂ := by
  generalize ho : Except.ok a = o at h
  induction h with
  | done =>
    cases ho
    exact hnext
  | halt => cases ho
  | call hanswer _ ih => exact call hanswer (ih hnext ho)

/-- What follows a halt is not done. -/
theorem bind_halt {f : α → Routine β} {cause : Halt} (h : Runs guarded r p (.error cause) p₁) :
    Runs guarded (r >>= f) p (.error cause) p₁ := by
  generalize ho : Except.error cause = o at h
  induction h with
  | done => cases ho
  | halt =>
    cases ho
    exact halt
  | call hanswer _ ih => exact call hanswer (ih ho)

/-! ## Calls -/

theorem perform {c : Call} {a : c.Answer} (h : Answers guarded c p (.ok a) p₁) :
    Runs guarded (Routine.perform c) p (.ok a) p₁ := call h done

theorem view {s : SectorId} (h : p.Permits guarded s) :
    Runs guarded (Routine.view s) p (.ok (p.block s)) p := perform (.view h)

theorem store {s : SectorId} (b : Block) (h : p.Permits guarded s) :
    Runs guarded (Routine.store s b) p (.ok ()) (p.put s b) := perform (.store h)

theorem update {s : SectorId} (change : Block → Block) (h : p.Permits guarded s) :
    Runs guarded (Routine.update s change) p (.ok ()) (p.put s (change (p.block s))) :=
  perform (.update h)

theorem emit (event : Event) : Runs guarded (Routine.emit event) p (.ok ()) p := perform .emit

/-- A free sector is taken. -/
theorem allocate {s : SectorId} (hmap : p.freeMap.Lawful) (hs : p.freeMap.nextFree? = some s) :
    Runs guarded Routine.allocate p (.ok s)
      { p with freeMap := p.freeMap.assign s.toNat true, took := s :: p.took } := by
  have hrun := hmap.allocate_of_nextFree? hs
  have hanswer : Answers guarded .allocate p _ _ := .allocate
  rw [hrun] at hanswer
  exact (perform hanswer).bind done

/-- There is none to take. -/
theorem allocate_exhausted (hs : p.freeMap.nextFree? = none) :
    Runs guarded Routine.allocate p (.error (.refused .allocationExhausted)) p := by
  have hrun := FreeMap.allocate_of_exhausted hs
  have hanswer : Answers guarded .allocate p _ _ := .allocate
  rw [hrun] at hanswer
  exact (perform hanswer).bind halt

/-- A taken sector is given back. -/
theorem release {s : SectorId} (hmap : p.freeMap.Lawful) (hs : s.toNat < p.freeMap.sectors)
    (htaken : p.freeMap.taken s.toNat = true) :
    Runs guarded (Routine.release s) p (.ok ())
      { p with freeMap := p.freeMap.assign s.toNat false, gave := s :: p.gave } := by
  have hrun := hmap.release_eq hs htaken
  have hanswer : Answers guarded (.release s) p _ _ := .release
  rw [hrun] at hanswer
  exact perform hanswer

/-! ## Endings -/

/-- The way a routine ends, as a value. -/
theorem attempt (h : Runs guarded r p ending p₁) : Runs guarded (Routine.attempt r) p (.ok ending) p₁ := by
  induction h with
  | done => exact done
  | halt => exact done
  | call hanswer _ ih => exact call hanswer ih

/-- What is always done does not change how a routine ends. -/
theorem always {after : Routine Unit} (h : Runs guarded r p ending p₁)
    (hafter : Runs guarded after p₁ (.ok ()) p₂) :
    Runs guarded (Routine.always after r) p ending p₂ := by
  refine h.attempt.bind (hafter.bind ?_)
  cases ending with
  | ok a => exact done
  | error cause => exact halt

/-- While the file is kept from others. -/
theorem exclusively {handle : Handle}
    (h : Runs guarded r { p with registry := (Registry.setGrowing handle true p.registry).state }
      ending p₁) :
    Runs guarded (Routine.exclusively handle r) p ending
      { p₁ with registry := (Registry.setGrowing handle false p₁.registry).state } :=
  (perform .beginGrowth).bind (h.always (perform .endGrowth))

/-! ## Reservations -/

/-- Sectors taken are given back in order. -/
theorem releaseAll {l : List SectorId} (hmap : p.freeMap.Lawful) (hl : l.Nodup)
    (hs : ∀ s ∈ l, s.toNat < p.freeMap.sectors ∧ p.freeMap.taken s.toNat = true) :
    Runs guarded (Routine.releaseAll l) p (.ok ())
      { p with freeMap := p.freeMap.giveAll l, gave := l.reverse ++ p.gave } := by
  induction l generalizing p with
  | nil => exact done
  | cons s rest ih =>
    obtain ⟨hlt, htaken⟩ := hs s List.mem_cons_self
    have hrest := ih (p := { p with freeMap := p.freeMap.assign s.toNat false, gave := s :: p.gave })
      (hmap.assign hlt false) (List.nodup_cons.mp hl).2 fun t ht => ?_
    · apply (release hmap hlt htaken).bind
      rw [List.reverse_cons, List.append_assoc]
      exact hrest
    · obtain ⟨hlt', htaken'⟩ := hs t (List.mem_cons_of_mem _ ht)
      have hne : t.toNat ≠ s.toNat := fun he =>
        (List.nodup_cons.mp hl).1 (UInt32.toNat_inj.mp he ▸ ht)
      refine ⟨hlt', ?_⟩
      rw [FreeMap.taken_assign (hmap.group_lt hlt), if_neg hne]
      exact htaken'

theorem rollBack {l : List SectorId} (h : Runs guarded (Routine.releaseAll l) p (.ok ()) p₁) :
    Runs guarded (Routine.rollBack l) p (.ok ()) p₁ := by
  unfold Routine.rollBack
  cases l with
  | nil => exact h
  | cons s rest => exact (emit _).bind h

theorem reservingFrom_call {c : Call} (next : Except Fault c.Answer → Routine α)
    (taken : List SectorId) :
    Routine.reservingFrom taken (.call c next) =
      .call c fun answer => Routine.reservingFrom (tookAfter c answer taken) (next answer) := by
  -- only an allocation that got a sector is noted
  cases c with
  | allocate =>
    rw [Routine.reservingFrom]
    congr 1
    funext answer
    match answer with
    | .ok (.ok s) => rfl
    | .ok (.error e) => rfl
    | .error e => rfl
  | _ => rfl

/-- What a reservation comes to, by how the routine in it ends: the sectors taken are counted, or given
    back. -/
def Reserved (guarded : Bool) (r : Routine α) (p : Plain) (ending : Except Halt α) (p₁ : Plain)
    (new taken : List SectorId) : Prop :=
  match ending with
  | .ok a => Runs guarded (Routine.reservingFrom taken r) p (.ok (a, (new ++ taken).length)) p₁
  | .error cause => ∀ p₂, Runs guarded (Routine.rollBack (new ++ taken).reverse) p₁ (.ok ()) p₂ →
      Runs guarded (Routine.reservingFrom taken r) p (.error cause) p₂

/-- A run of a routine that reserves. -/
theorem reserved (h : Runs guarded r p ending p₁) :
    ∃ new, p₁.took = new ++ p.took ∧ ∀ taken, Reserved guarded r p ending p₁ new taken := by
  -- what is taken before the routine starts is arbitrary, since the induction adds to it
  induction h with
  | done => exact ⟨[], rfl, fun taken => done⟩
  | halt => exact ⟨[], rfl, fun taken p₂ hback => hback.bind halt⟩
  | @call c next p p' p'' answer ending hanswer hnext ih =>
    obtain ⟨new, htook, hall⟩ := ih
    obtain ⟨first, hfirst⟩ := tookAfter_eq c answer
    refine ⟨new ++ first, ?_, ?_⟩
    · rw [htook, hanswer.took, hfirst, List.append_assoc]
    · intro taken
      have h := hall (tookAfter c answer taken)
      unfold Reserved at h ⊢
      rw [reservingFrom_call, List.append_assoc, ← hfirst]
      cases ending with
      | ok a => exact call hanswer h
      | error cause => exact fun p₂ hback => call hanswer (h p₂ hback)

/-- A reservation that gets done. -/
theorem reserving {a : α} (h : Runs guarded r p (.ok a) p₁) :
    ∃ count, Runs guarded (Routine.reserving r) p (.ok (a, count)) p₁ := by
  obtain ⟨new, -, hall⟩ := h.reserved
  exact ⟨_, hall []⟩

/-- A reservation that halts gives back what was taken in it. -/
theorem reserving_halt {cause : Halt} {new : List SectorId} (h : Runs guarded r p (.error cause) p₁)
    (hnew : p₁.took = new ++ p.took)
    (hback : Runs guarded (Routine.releaseAll new.reverse) p₁ (.ok ()) p₂) :
    Runs guarded (Routine.reserving r) p (.error cause) p₂ := by
  obtain ⟨new', hnew', hall⟩ := h.reserved
  obtain rfl : new = new' := List.append_cancel_right (hnew.symm.trans hnew')
  refine hall [] p₂ (rollBack ?_)
  rwa [List.append_nil]

end Runs

end InodeStore
