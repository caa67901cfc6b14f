import InodeStore.Proofs.Store.Refinement

/-!
# `Proofs.Store.Accesses` — which blocks a routine uses, and when

`Store.accesses` are the blocks that a routine views, stores or updates on its way, each with the free map
at that moment and the sector that the call just before has given back. Where a run exists that uses taken
sectors only, each of them is allocated at its moment (`Runs.accesses_allocated`). `Uses` tells which
sectors they are.

A routine may also look at a block just after it has given the block's sector back. That can be seen from
its calls (`ViewsReleased`), and none of the blocks it uses is then allocated
(`ViewsReleased.not_allocated`).
-/

namespace InodeStore

/-! ## Accesses -/

/-- The sector whose block a call uses. -/
def Call.sector? : Call → Option SectorId
  | .view s | .store s _ | .update s _ => some s
  | _ => none

/-- The sector that a call has given back, if it did. -/
def Call.released? : (c : Call) → Except Fault c.Answer → Option SectorId
  | .release s, .ok () => some s
  | _, _ => none

theorem Call.released?_release {s t : SectorId} {answer : Except Fault Unit}
    (h : Call.released? (.release t) answer = some s) : t = s ∧ answer = .ok () := by
  cases answer with
  | error e => cases h
  | ok done => exact ⟨Option.some.inj h, rfl⟩

/-- A use of a block. -/
structure Access where
  sector : SectorId
  /-- The free map at that moment. -/
  freeMap : FreeMap
  /-- What the call just before has given back. -/
  released : Option SectorId

/-- The block's sector is allocated at the moment of its use. -/
def Access.Allocated (access : Access) : Prop := access.freeMap.isAllocated access.sector = .ok true

instance (access : Access) : Decidable access.Allocated := inferInstanceAs (Decidable (_ = _))

section Accesses

variable {δ : Type} {n : Nat} [BlockDevice δ] {α β : Type}

/-- The blocks that a routine uses, in order, where `released` was given back just before. -/
def Store.accesses (store : Store δ n) (released : Option SectorId) : Routine α → List Access
  | .done _ => []
  | .halt _ => []
  | .call c next =>
    (c.sector?.map fun s => ⟨s, store.freeMap, released⟩).toList ++
      accesses (perform c store).state (c.released? (perform c store).result)
        (next (perform c store).result)

/-- One call uses one block at most. -/
theorem Store.accesses_perform (store : Store δ n) (released : Option SectorId) (c : Call) :
    store.accesses released (Routine.perform c) =
      (c.sector?.map fun s => ⟨s, store.freeMap, released⟩).toList := by
  rw [Routine.perform, Store.accesses]
  cases (Store.perform c store).result with
  | ok a => exact List.append_nil _
  | error e => exact List.append_nil _

/-- What follows a call and uses no block. -/
theorem Store.accesses_perform_bind (store : Store δ n) (released : Option SectorId) {c : Call}
    {f : c.Answer → Routine α} (hf : ∀ (store : Store δ n) released a,
      store.accesses released (f a) = []) :
    store.accesses released (Routine.perform c >>= f) =
      (c.sector?.map fun s => ⟨s, store.freeMap, released⟩).toList := by
  rw [Routine.perform, Routine.call_bind, Store.accesses]
  cases (Store.perform c store).result with
  | ok a =>
    rw [Routine.done_bind, hf]
    exact List.append_nil _
  | error e => exact List.append_nil _

/-! ## Taken sectors -/

variable {guarded : Bool} {c : Call} {p p' q q' : Plain} {answer : Except Fault c.Answer}

/-- No call changes how many sectors the free map has bits for. -/
theorem Answers.groups_size (h : Answers guarded c p answer p') :
    p'.freeMap.groups.size = p.freeMap.groups.size := by
  cases h with
  | allocate =>
    show (FreeMap.allocate 1 p.freeMap).state.groups.size = _
    unfold FreeMap.allocate
    rw [if_neg Nat.one_ne_zero]
    cases p.freeMap.firstFit? 1 with
    | none => rfl
    | some first => exact p.freeMap.assignRun_size first true 1
  | @release s =>
    show (FreeMap.release s 1 p.freeMap).state.groups.size = _
    unfold FreeMap.release
    split
    · exact p.freeMap.releaseRun_size s.toNat 1
    · rfl
  | @loadMap bytes => exact p.freeMap.load_size bytes
  | _ => rfl

/-- What is answered on a part of the blocks is answered on all of them. -/
theorem Answers.widen (h : Answers guarded c q answer q') {m : Nat} (hm : q.count ≤ m) :
    Answers guarded c { q with count := m } answer { q' with count := m } ∧ q'.count = q.count := by
  have hpermits : ∀ {s}, q.Permits guarded s → { q with count := m }.Permits guarded s :=
    fun hs => ⟨Nat.lt_of_lt_of_le hs.1 hm, hs.2⟩
  cases h with
  | view h => exact ⟨.view (hpermits h), rfl⟩
  | @store s b _ h => exact ⟨.store (p := { q with count := m }) (hpermits h), rfl⟩
  | @update s change _ h => exact ⟨.update (p := { q with count := m }) (hpermits h), rfl⟩
  | flushCache => exact ⟨.flushCache, rfl⟩
  | resetCache => exact ⟨.resetCache, rfl⟩
  | allocate => exact ⟨.allocate (p := { q with count := m }), rfl⟩
  | release => exact ⟨.release (p := { q with count := m }), rfl⟩
  | mapBytes => exact ⟨.mapBytes (p := { q with count := m }), rfl⟩
  | loadMap => exact ⟨.loadMap (p := { q with count := m }), rfl⟩
  | openInode => exact ⟨.openInode (p := { q with count := m }), rfl⟩
  | close => exact ⟨.close (p := { q with count := m }), rfl⟩
  | drop => exact ⟨.drop, rfl⟩
  | remove => exact ⟨.remove (p := { q with count := m }), rfl⟩
  | isDenied => exact ⟨.isDenied (p := { q with count := m }), rfl⟩
  | beginGrowth => exact ⟨.beginGrowth (p := { q with count := m }), rfl⟩
  | endGrowth => exact ⟨.endGrowth (p := { q with count := m }), rfl⟩
  | emit => exact ⟨.emit, rfl⟩

/-- The block of a call that is answered may be used. -/
theorem Answers.permits (h : Answers guarded c p answer p') {s : SectorId} (hs : c.sector? = some s) :
    p.Permits guarded s := by
  cases h with
  | view h => exact Option.some.inj hs ▸ h
  | store h => exact Option.some.inj hs ▸ h
  | update h => exact Option.some.inj hs ▸ h
  | _ => cases hs

variable [LawfulDevice δ] {store : Store δ n} {r : Routine α} {ending : Except Halt α}

/-- **Blocks of taken sectors** are allocated when they are used. The run is on the blocks that the free
    map has a bit for; the store may have more. -/
theorem Runs.accesses_allocated (h : Runs true r q ending q') (hn : 0 < n) {m : Nat}
    (hs : Stands store { q with count := m }) (hm : q.count ≤ m)
    (hbits : q.count ≤ 64 * q.freeMap.groups.size) (released : Option SectorId) :
    ∀ access ∈ store.accesses released r, access.Allocated := by
  induction h generalizing store released with
  | done => exact nofun
  | halt => exact nofun
  | @call c next q q₁ q₂ answer ending hanswer _ ih =>
    obtain ⟨hwide, hcount⟩ := hanswer.widen hm
    obtain ⟨store₁, log, hperform, hs₁, -⟩ := hwide.perform_eq hn hs
    intro access haccess
    rw [Store.accesses, hperform] at haccess
    rcases List.mem_append.mp haccess with hnow | hlater
    · obtain ⟨s, hsector, rfl⟩ := Option.map_eq_some_iff.mp (Option.mem_toList.mp hnow)
      have hpermits := hanswer.permits hsector
      have hmap : store.freeMap = q.freeMap := hs.freeMap
      show store.freeMap.isAllocated s = .ok true
      rw [hmap]
      exact FreeMap.isAllocated_of_taken (Nat.lt_of_lt_of_le hpermits.1 hbits) (hpermits.2 rfl)
    · refine ih hs₁ (hcount ▸ hm) ?_ _ access hlater
      rw [hcount, hanswer.groups_size]
      exact hbits

/-! ## Which sectors -/

/-- Wherever a routine is started in a store that stands for `p`, the blocks it uses are those of the
    sectors in a list, in that order. -/
def Uses (δ : Type) (n : Nat) [BlockDevice δ] [LawfulDevice δ] (r : Routine α) (p : Plain)
    (l : List SectorId) : Prop :=
  ∀ (store : Store δ n) (released : Option SectorId), Stands store p →
    (store.accesses released r).map Access.sector = l

theorem Uses.pure (a : α) : Uses δ n (Pure.pure a) p [] := fun _ _ _ => rfl

theorem Uses.perform (c : Call) : Uses δ n (Routine.perform c) p c.sector?.toList := by
  intro store released _
  rw [store.accesses_perform]
  cases c.sector? <;> rfl

theorem Uses.view (s : SectorId) : Uses δ n (Routine.view s) p [s] := Uses.perform (.view s)

/-- The second of two routines starts where the first one ends. -/
theorem Runs.accesses_bind {f : α → Routine β} {a : α} (h : Runs guarded r p (.ok a) p') (hn : 0 < n)
    (hs : Stands store p) (released : Option SectorId) :
    ∃ (store' : Store δ n) (released' : Option SectorId), Stands store' p' ∧
      store.accesses released (r >>= f) =
        store.accesses released r ++ store'.accesses released' (f a) := by
  generalize ho : Except.ok a = o at h
  induction h generalizing store released with
  | done =>
    cases ho
    exact ⟨store, released, hs, rfl⟩
  | halt => cases ho
  | @call c next p p₁ p₂ answer ending hanswer _ ih =>
    obtain ⟨store₁, log, hperform, hs₁, -⟩ := hanswer.perform_eq hn hs
    obtain ⟨store', released', hs', hrest⟩ := ih hs₁ (c.released? answer) ho
    refine ⟨store', released', hs', ?_⟩
    rw [Routine.call_bind, Store.accesses, Store.accesses, hperform, hrest, List.append_assoc]

theorem Uses.bind {f : α → Routine β} {a : α} {l l' : List SectorId} (h : Uses δ n r p l)
    (hrun : Runs guarded r p (.ok a) p') (hn : 0 < n) (hnext : Uses δ n (f a) p' l') :
    Uses δ n (r >>= f) p (l ++ l') := by
  intro store released hs
  obtain ⟨store', released', hs', haccesses⟩ := hrun.accesses_bind (f := f) hn hs released
  rw [haccesses, List.map_append, h store released hs, hnext store' released' hs']

/-! ## Sectors given back -/

/-- Every block that the routine uses is that of the sector which the call just before has given back. -/
def Routine.ViewsReleased (released : Option SectorId) : Routine α → Prop
  | .done _ => True
  | .halt _ => True
  | .call c next => (∀ s, c.sector? = some s → released = some s) ∧
      ∀ answer, ViewsReleased (c.released? answer) (next answer)

theorem Routine.ViewsReleased.bind {r : Routine α} {f : α → Routine β} {released : Option SectorId}
    (h : r.ViewsReleased released) (hnext : ∀ a released, (f a).ViewsReleased released) :
    (r >>= f).ViewsReleased released := by
  induction r generalizing released with
  | done a => exact hnext a released
  | halt cause => trivial
  | call c next ih => exact ⟨h.1, fun answer => ih answer (h.2 answer)⟩

omit [LawfulDevice δ] in
/-- What was given back before such a routine does not matter to it. -/
theorem Routine.ViewsReleased.accesses_eq {r : Routine α} (h : r.ViewsReleased none)
    (store : Store δ n) (released : Option SectorId) :
    store.accesses released r = store.accesses none r := by
  cases r with
  | done a => rfl
  | halt cause => rfl
  | call c next =>
    have hsector : c.sector? = none :=
      Option.eq_none_iff_forall_ne_some.mpr fun s hs => (Option.some_ne_none s (h.1 s hs).symm).elim
    rw [Store.accesses, Store.accesses, hsector]
    rfl

omit [LawfulDevice δ] in
/-- **Blocks of sectors just given back** are not allocated when they are used. -/
theorem Routine.ViewsReleased.not_allocated {r : Routine α} {released : Option SectorId}
    (h : r.ViewsReleased released) {store : Store δ n}
    (hfree : ∀ s, released = some s → store.freeMap.isAllocated s = .ok false) :
    ∀ access ∈ store.accesses released r,
      ¬ access.Allocated ∧ access.released = some access.sector := by
  induction r generalizing released store with
  | done a => exact nofun
  | halt cause => exact nofun
  | call c next ih =>
    intro access haccess
    rcases List.mem_append.mp haccess with hnow | hlater
    · obtain ⟨s, hsector, rfl⟩ := Option.map_eq_some_iff.mp (Option.mem_toList.mp hnow)
      have hreleased := h.1 s hsector
      refine ⟨fun hallocated => ?_, hreleased⟩
      have hallocated : store.freeMap.isAllocated s = .ok true := hallocated
      rw [hfree s hreleased] at hallocated
      cases hallocated
    · refine ih _ (h.2 _) ?_ access hlater
      intro s hs
      cases c with
      | release t =>
        obtain ⟨cache, freeMap, registry⟩ := store
        show (FreeMap.release t 1 freeMap).state.isAllocated s = .ok false
        obtain ⟨rfl, hresult⟩ := Call.released?_release hs
        exact FreeMap.not_allocated_of_release hresult
      | _ => cases hs

end Accesses

end InodeStore
