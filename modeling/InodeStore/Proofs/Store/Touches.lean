import InodeStore.Proofs.Cache.Handling
import InodeStore.Proofs.Store.Accesses
import InodeStore.Proofs.Store.Filling
import InodeStore.Proofs.Store.Sequences

/-!
# `Proofs.Store.Touches` — what a routine does with the cache

`Store.touches` are the uses that a routine makes of the cache, in order: sectors that it looks at and sectors
that it soils, flushes and resets. Where a run exists the cache passes through these, one after the other
(`Runs.passes`), so that what becomes of it can be told from the list alone. `Touches` tells the list from the
plain store; its rules are those of `Uses`, and where nothing but sectors are looked at the list is that of the
accesses (`Uses.touches`).
-/

namespace InodeStore

/-- A use of the cache. -/
inductive Touch where
  /-- The content of a sector is looked at. -/
  | look (sector : SectorId)
  /-- The content of a sector is changed. -/
  | soil (sector : SectorId)
  | flush
  | reset
  deriving DecidableEq

/-- The use that a call makes of the cache. -/
def Call.touch? : Call → Option Touch
  | .view s => some (.look s)
  | .store s _ | .update s _ => some (.soil s)
  | .flushCache => some .flush
  | .resetCache => some .reset
  | _ => none

/-! ## Caches -/

section Passes

variable {δ : Type} {n : Nat} [BlockDevice δ]

/-- A cache passes through uses, one after the other, each of which ends well. -/
inductive Cache.Passes : List Touch → Cache δ n → Cache δ n → Prop where
  | nil {cache : Cache δ n} : Passes [] cache cache
  | look {s : SectorId} {rest : List Touch} {cache mid cache' : Cache δ n} (h : Handled s false cache mid)
      (hrest : Passes rest mid cache') : Passes (.look s :: rest) cache cache'
  | soil {s : SectorId} {rest : List Touch} {cache mid cache' : Cache δ n} (h : Handled s true cache mid)
      (hrest : Passes rest mid cache') : Passes (.soil s :: rest) cache cache'
  | flush {rest : List Touch} {cache mid cache' : Cache δ n} {log : List Event}
      (h : Cache.flush cache = ⟨.ok (), mid, log⟩) (hrest : Passes rest mid cache') :
      Passes (.flush :: rest) cache cache'
  | reset {rest : List Touch} {cache mid cache' : Cache δ n} {log : List Event}
      (h : Cache.reset cache = ⟨.ok (), mid, log⟩) (hrest : Passes rest mid cache') :
      Passes (.reset :: rest) cache cache'

theorem Cache.Passes.append {first second : List Touch} {cache mid cache' : Cache δ n}
    (h : Passes first cache mid) (h' : Passes second mid cache') : Passes (first ++ second) cache cache' := by
  induction h with
  | nil => exact h'
  | look h _ ih => exact .look h (ih h')
  | soil h _ ih => exact .soil h (ih h')
  | flush h _ ih => exact .flush h (ih h')
  | reset h _ ih => exact .reset h (ih h')

end Passes

/-! ## Routines -/

section Routines

variable {δ : Type} {n : Nat} [BlockDevice δ] {α β : Type}

/-- The uses that a routine makes of the cache, in order. -/
def Store.touches (store : Store δ n) : Routine α → List Touch
  | .done _ => []
  | .halt _ => []
  | .call c next =>
    c.touch?.toList ++ touches (perform c store).state (next (perform c store).result)

theorem Store.touches_perform (store : Store δ n) (c : Call) :
    store.touches (Routine.perform c) = c.touch?.toList := by
  rw [Routine.perform, Store.touches]
  cases (Store.perform c store).result with
  | ok a => exact List.append_nil _
  | error e => exact List.append_nil _

/-- Where sectors are looked at and no more, the uses are the accesses. -/
theorem Store.touches_of_looks {r : Routine α} (h : r.Only Call.IsView) (store : Store δ n)
    (released : Option SectorId) :
    store.touches r = (store.accesses released r).map fun access => .look access.sector := by
  induction r generalizing store released with
  | done a => rfl
  | halt cause => rfl
  | call c next ih =>
    obtain ⟨s, rfl⟩ := h.1
    rw [Store.touches, Store.accesses, List.map_append, ih _ (h.2 _) _ _]
    rfl

variable [LawfulDevice δ] {guarded : Bool} {c : Call} {p p' : Plain} {store store' : Store δ n}
  {r : Routine α} {ending : Except Halt α}

omit [BlockDevice δ] [LawfulDevice δ] in
theorem Store.onCache_eq {action : Action (Cache δ n) α} {result : Except Fault α} {log : List Event}
    (h : Store.onCache action store = ⟨result, store', log⟩) :
    action store.cache = ⟨result, store'.cache, log⟩ := by
  obtain ⟨cache, freeMap, registry⟩ := store
  have hresult : (action cache).result = result := congrArg Reply.result h
  have hstate : (action cache).state = store'.cache := congrArg (·.state.cache) h
  have hlog : (action cache).log = log := congrArg Reply.log h
  rw [← hresult, ← hstate, ← hlog]

omit [LawfulDevice δ] in
theorem Answers.passes {answer : Except Fault c.Answer} {log : List Event} (h : Answers guarded c p answer p')
    (hperform : Store.perform c store = ⟨answer, store', log⟩) :
    Cache.Passes c.touch?.toList store.cache store'.cache := by
  cases h with
  | view => exact .look (Cache.view_handled (Store.onCache_eq hperform)) .nil
  | store => exact .soil (Cache.store_handled (Store.onCache_eq hperform)) .nil
  | update => exact .soil (Cache.update_handled (Store.onCache_eq hperform)) .nil
  | flushCache => exact .flush (Store.onCache_eq hperform) .nil
  | resetCache => exact .reset (Store.onCache_eq hperform) .nil
  | _ =>
    obtain rfl : (Store.perform _ store).state = store' := congrArg Reply.state hperform
    exact .nil

/-- **A routine takes the cache** through the uses it makes of it. -/
theorem Runs.passes (h : Runs guarded r p ending p') (hn : 0 < n) (hs : Stands store p) :
    Cache.Passes (store.touches r) store.cache (store.run r).state.cache := by
  induction h generalizing store with
  | done => exact .nil
  | @halt cause _ => cases cause <;> exact .nil
  | @call c next p p₁ p₂ answer ending hanswer _ ih =>
    obtain ⟨store₁, log, hperform, hs₁, -⟩ := hanswer.perform_eq hn hs
    have hrun : store.run (.call c next) = _ :=
      Store.runAfter_eq ((Store.perform c store).log.reverseAux []) (Store.perform c store).state
        (next (Store.perform c store).result)
    rw [hrun, Store.touches, hperform]
    exact (hanswer.passes hperform).append (ih hs₁)

end Routines

/-! ## Which uses -/

section Touches

variable {δ : Type} {n : Nat} [BlockDevice δ] [LawfulDevice δ] {α β : Type} {guarded : Bool} {p p' : Plain}
  {r : Routine α}

/-- Wherever a routine is started in a store that stands for `p`, the uses it makes of the cache are those of a
    list. -/
def Touches (δ : Type) (n : Nat) [BlockDevice δ] [LawfulDevice δ] (r : Routine α) (p : Plain)
    (l : List Touch) : Prop :=
  ∀ store : Store δ n, Stands store p → store.touches r = l

theorem Uses.touches {l : List SectorId} (h : Uses δ n r p l) (hr : r.Only Call.IsView) :
    Touches δ n r p (l.map .look) := by
  intro store hs
  rw [store.touches_of_looks hr none, ← h store none hs, List.map_map]
  rfl

namespace Touches

theorem pure (a : α) : Touches δ n (Pure.pure a) p [] := fun _ _ => rfl

theorem perform (c : Call) : Touches δ n (Routine.perform c) p c.touch?.toList :=
  fun store _ => store.touches_perform c

theorem view (s : SectorId) : Touches δ n (Routine.view s) p [.look s] := perform (.view s)

theorem store (s : SectorId) (b : Block) : Touches δ n (Routine.store s b) p [.soil s] := perform (.store s b)

theorem update (s : SectorId) (change : Block → Block) : Touches δ n (Routine.update s change) p [.soil s] :=
  perform (.update s change)

/-- The second of two routines starts where the first one ends. -/
theorem bind {f : α → Routine β} {a : α} {l l' : List Touch} (h : Touches δ n r p l)
    (hrun : Runs guarded r p (.ok a) p') (hn : 0 < n) (hnext : Touches δ n (f a) p' l') :
    Touches δ n (r >>= f) p (l ++ l') := by
  have hsplit : ∀ store : Store δ n, Stands store p →
      ∃ store' : Store δ n, Stands store' p' ∧ store.touches (r >>= f) = store.touches r ++ store'.touches (f a) := by
    clear h hnext
    generalize ho : Except.ok a = o at hrun
    induction hrun with
    | done =>
      cases ho
      exact fun store hs => ⟨store, hs, rfl⟩
    | halt => cases ho
    | @call c next p p₁ p₂ answer ending hanswer _ ih =>
      intro store hs
      obtain ⟨store₁, log, hperform, hs₁, -⟩ := hanswer.perform_eq hn hs
      obtain ⟨store', hs', hrest⟩ := ih ho store₁ hs₁
      refine ⟨store', hs', ?_⟩
      rw [Routine.call_bind, Store.touches, Store.touches, hperform, hrest, List.append_assoc]
  intro store hs
  obtain ⟨store', hs', heq⟩ := hsplit store hs
  rw [heq, h store hs, hnext store' hs']

end Touches

end Touches

end InodeStore
