import InodeStore.Proofs.Cache.Counting
import InodeStore.Proofs.Volume.Saving

/-!
# `Proofs.Volume.Leading` — what a routine leads to

`Leads` says of a routine that it gets done without a fault on a volume in use, and what is then so: of its
answer, of the store and of the archive that the store is of. The rules follow the routine (`Leads.bind`,
`Leads.attempt`). Whatever gives an archive's reply leads there (`Serves.gives`), and no counter of the cache
is lower then unless they were renewed (`Leads.counting`).
-/

namespace InodeStore

open Inode Volume

section Leads

variable {δ : Type} {n : Nat} [BlockDevice δ] {α β : Type}

/-- A call that does not renew the counters leaves none lower. -/
theorem Store.perform_counts {c : Call} (h : c.renews = false) (store : Store δ n) :
    store.cache.stats ≤ (Store.perform c store).state.cache.stats := by
  cases c with
  | view s => exact Cache.view_counts s store.cache
  | store s block => exact Cache.store_counts s block store.cache
  | update s change => exact Cache.update_counts s change store.cache
  | flushCache => exact Cache.flush_counts store.cache
  | resetCache => cases h
  | loadMap bytes => cases h
  | _ => exact store.cache.stats.le_refl

theorem Store.run_counts {r : Routine α} (h : r.Only (Call.renews · = false)) (store : Store δ n) :
    store.cache.stats ≤ (store.run r).state.cache.stats := by
  induction r generalizing store with
  | done a => exact store.cache.stats.le_refl
  | halt cause => cases cause <;> exact store.cache.stats.le_refl
  | call c next ih =>
    have hrun : store.run (.call c next) = _ :=
      runAfter_eq ((perform c store).log.reverseAux []) (perform c store).state
        (next (perform c store).result)
    rw [hrun]
    exact CacheStats.le_trans (store.perform_counts h.1) (ih _ (h.2 _) _)

variable [LawfulDevice δ] {store : Store δ n} {p : Plain} {a a' : Archive} {x : SectorId}
  {r : Routine α} {f : α → Routine β} {answer : Except Error α} {guarded : Bool}
  {mid post : Except Error α → Store δ n → Archive → Prop}

/-- A routine gets done without a fault and the volume stays in use. Of its answer, the store and the
    archive something is then so. -/
def Leads (store : Store δ n) (r : Routine α) (post : Except Error α → Store δ n → Archive → Prop) :
    Prop :=
  ∃ answer store' log p a, store.run r = ⟨.ok answer, store', log⟩ ∧ Serves store' p a ∧
    post answer store' a

namespace Leads

theorem pure {b : α} (h : Serves store p a) (hpost : post (.ok b) store a) :
    Leads store (Pure.pure b) post := ⟨_, _, _, _, _, rfl, h, hpost⟩

theorem refuse {e : Error} (h : Serves store p a) (hpost : post (.error e) store a) :
    Leads store (Routine.refuse e) post := ⟨_, _, _, _, _, rfl, h, hpost⟩

theorem mono (h : Leads store r mid)
    (hpost : ∀ {answer store' a}, mid answer store' a → post answer store' a) : Leads store r post := by
  obtain ⟨answer, store', log, p, a, hrun, hserves, hmid⟩ := h
  exact ⟨answer, store', log, p, a, hrun, hserves, hpost hmid⟩

/-- **A sequence**: what is so after its first part lets the second go on, or is a refusal of both. -/
theorem bind {post : Except Error β → Store δ n → Archive → Prop} (h : Leads store r mid)
    (hok : ∀ {b store' p a}, Serves store' p a → mid (.ok b) store' a → Leads store' (f b) post)
    (herror : ∀ {e store' a}, mid (.error e) store' a → post (.error e) store' a) :
    Leads store (r >>= f) post := by
  obtain ⟨answer, store₁, log₁, p₁, a₁, hrun₁, hserves₁, hmid⟩ := h
  cases answer with
  | error e =>
    refine ⟨.error e, store₁, log₁, p₁, a₁, ?_, hserves₁, herror hmid⟩
    rw [Store.run_bind, hrun₁]
  | ok b =>
    obtain ⟨answer, store₂, log₂, p₂, a₂, hrun₂, hserves₂, hpost⟩ := hok hserves₁ hmid
    refine ⟨answer, store₂, log₁ ++ log₂, p₂, a₂, ?_, hserves₂, hpost⟩
    rw [Store.run_bind, hrun₁]
    dsimp only
    rw [hrun₂]

/-- A sequence whose first part is never refused. -/
theorem next {post : Except Error β → Store δ n → Archive → Prop} {mid : α → Store δ n → Archive → Prop}
    (h : Leads store r fun answer store' a => ∃ b, answer = .ok b ∧ mid b store' a)
    (hok : ∀ {b store' p a}, Serves store' p a → mid b store' a → Leads store' (f b) post) :
    Leads store (r >>= f) post := by
  refine h.bind (fun hserves hmid => ?_) fun hmid => ?_
  · obtain ⟨b, hb, hmid⟩ := hmid
    cases hb
    exact hok hserves hmid
  · obtain ⟨b, hb, -⟩ := hmid
    cases hb

/-- A sequence whose first part has one answer and leads to one archive. -/
theorem step {post : Except Error β → Store δ n → Archive → Prop} {b : α}
    (h : Leads store r fun answer _ a' => answer = .ok b ∧ a' = a)
    (hok : ∀ {store' p}, Serves store' p a → Leads store' (f b) post) : Leads store (r >>= f) post := by
  refine h.bind (fun hserves hmid => ?_) fun hmid => nomatch hmid.1
  obtain ⟨hb, rfl⟩ := hmid
  cases hb
  exact hok hserves

/-- The counters are asked for first. -/
theorem cacheStats {f : CacheStats → Routine α} (h : Leads store (f store.cache.stats) post) :
    Leads store (Routine.cacheStats >>= f) post := by
  obtain ⟨answer, store', log, p, a, hrun, hserves, hpost⟩ := h
  have hstats : store.run Routine.cacheStats = ⟨.ok (.ok store.cache.stats), store, []⟩ :=
    store.run_perform .cacheStats
  refine ⟨answer, store', [] ++ log, p, a, ?_, hserves, hpost⟩
  rw [Store.run_bind, hstats]
  dsimp only
  rw [hrun]

/-- A routine that is attempted does not end the one that attempts it. -/
theorem attempt (h : Leads store r post) :
    Leads store (Routine.attempt r) fun outcome store' a =>
      ∃ ended, outcome = .ok ended ∧ ∃ answer, ended = ending answer ∧ post answer store' a := by
  obtain ⟨answer, store', log, p, a, hrun, hserves, hpost⟩ := h
  refine ⟨.ok (ending answer), store', log, p, a, ?_, hserves, _, rfl, answer, rfl, hpost⟩
  rw [Store.run_attempt, hrun]

/-- No counter is lower then. -/
theorem counting (h : Leads store r post) (hr : r.Only (Call.renews · = false)) :
    Leads store r fun answer store' a => store.cache.stats ≤ store'.cache.stats ∧ post answer store' a := by
  obtain ⟨answer, store', log, p, a, hrun, hserves, hpost⟩ := h
  refine ⟨answer, store', log, p, a, hrun, hserves, ?_, hpost⟩
  have hcounts := store.run_counts hr
  rw [hrun] at hcounts
  exact hcounts

end Leads

/-- What a routine gives, it leads to. -/
theorem Serves.gives (h : Serves store p a) (hgives : Gives guarded r p (answer, a')) (hkept : a'.Kept)
    (hsectors : a'.freeMap.sectors = a.freeMap.sectors) :
    Leads store r fun answer' _ a'' => answer' = answer ∧ a'' = a' := by
  obtain ⟨p', hrun, hrepresents⟩ := hgives
  obtain ⟨store', log, hstore, hstands, -⟩ := hrun.run_eq h.frames h.stands
  rw [toResult_ending] at hstore
  refine ⟨answer, store', log, p', a', hstore, ⟨h.frames, hstands, hrepresents, hkept, ?_⟩, rfl, rfl⟩
  rw [hsectors]
  exact hrun.count_eq.trans h.count

/-- So does a client's operation. -/
theorem Serves.replies (h : Serves store p a) {o : Operation} (hadmits : a.ledger.Admits o)
    {r : Routine o.Answer} (hr : o.routine? = some r) :
    Leads store r fun answer _ a' => answer = (a.reply o).1 ∧ a' = (a.reply o).2 :=
  h.gives (h.represents.gives hadmits.1 hr) (h.kept.reply h.represents.sound hadmits) (a.sectors_reply o)

/-- So does the volume's own. -/
theorem Serves.persists (h : Serves store p a) :
    Leads store Volume.persist fun answer _ a' => answer = .ok () ∧ a' = a.persisted :=
  h.gives (h.represents.persist h.kept) (h.kept.write 0 _) (congrArg FreeMap.sectors h.freeMap_persisted)

end Leads

end InodeStore
