import InodeStore.Proofs.Cache.Outline
import InodeStore.Proofs.Store.Informed

/-!
# `Proofs.Store.Lockstep` — two stores that differ in unknown blocks

Two plain stores agree (`Plain.Agree`) if they have the same free map and the same open inodes, and the same
blocks in the sectors that are known. An informed run on one of them is one on the other, too, with the
same ending (`Informed.lockstep`). Stores that stand for them, on whatever devices, report the same
meanwhile, and their caches go on having one outline.
-/

namespace InodeStore

open Plain

/-! ## Plain stores -/

/-- The stores differ in blocks that are not known, if at all. -/
structure Plain.Agree (known : SectorId → Prop) (p q : Plain) : Prop where
  block : ∀ {s}, known s → p.block s = q.block s
  count : p.count = q.count
  freeMap : p.freeMap = q.freeMap
  registry : p.registry = q.registry

section Agree

variable {guarded : Bool} {c : Call} {p p' q : Plain} {known : SectorId → Prop}

/-- Both stores with a block replaced. -/
theorem Plain.Agree.put (h : Agree known p q) (s : SectorId) (b : Block) :
    Agree (fun t => t = s ∨ known t) (p.put s b) (q.put s b) where
  block {t} ht := by
    by_cases he : t = s
    · rw [he, block_put_self, block_put_self]
    · rw [block_put_of_ne _ he, block_put_of_ne _ he]
      exact h.block (ht.resolve_left he)
  count := h.count
  freeMap := h.freeMap
  registry := h.registry

theorem Plain.Agree.narrow {known' : SectorId → Prop} (h : Agree known p q)
    (hknown : ∀ t, known' t → known t) : Agree known' p q :=
  ⟨fun ht => h.block (hknown _ ht), h.count, h.freeMap, h.registry⟩

theorem Plain.Agree.permits (h : Agree known p q) {s : SectorId} (hs : p.Permits guarded s) :
    q.Permits guarded s := ⟨h.count ▸ hs.1, fun hg => h.freeMap ▸ hs.2 hg⟩

/-- **A call** that looks at a known block is answered by both stores in the same way. -/
theorem Answers.lockstep {answer : Except Fault c.Answer} (h : Answers guarded c p answer p')
    (hlooks : ∀ s, c.looks? = some s → known s) (ha : Agree known p q) :
    ∃ q', Answers guarded c q answer q' ∧ Agree (c.informs known) p' q' := by
  cases h with
  | view hs =>
    rw [ha.block (hlooks _ rfl)]
    exact ⟨q, .view (ha.permits hs), ha⟩
  | store hs => exact ⟨_, .store (ha.permits hs), ha.put _ _⟩
  | update hs =>
    rw [ha.block (hlooks _ rfl)]
    exact ⟨_, .update (ha.permits hs), (ha.put _ _).narrow fun t ht => .inr ht⟩
  | flushCache => exact ⟨q, .flushCache, ha⟩
  | resetCache => exact ⟨q, .resetCache, ha⟩
  | allocate =>
    rw [ha.freeMap]
    exact ⟨_, .allocate, ha.block, ha.count, rfl, ha.registry⟩
  | release =>
    rw [ha.freeMap]
    exact ⟨_, .release, ha.block, ha.count, rfl, ha.registry⟩
  | mapBytes =>
    rw [ha.freeMap]
    exact ⟨q, .mapBytes, ha⟩
  | loadMap =>
    rw [ha.freeMap]
    exact ⟨_, .loadMap, ha.block, ha.count, rfl, ha.registry⟩
  | openInode =>
    rw [ha.registry]
    exact ⟨_, .openInode, ha.block, ha.count, ha.freeMap, rfl⟩
  | close =>
    rw [ha.registry]
    exact ⟨_, .close, ha.block, ha.count, ha.freeMap, rfl⟩
  | drop => exact ⟨q, .drop, ha⟩
  | remove => exact ⟨_, .remove, ha.block, ha.count, ha.freeMap, by rw [ha.registry]⟩
  | isDenied =>
    rw [ha.registry]
    exact ⟨q, .isDenied, ha⟩
  | beginGrowth => exact ⟨_, .beginGrowth, ha.block, ha.count, ha.freeMap, by rw [ha.registry]⟩
  | endGrowth => exact ⟨_, .endGrowth, ha.block, ha.count, ha.freeMap, by rw [ha.registry]⟩
  | emit => exact ⟨q, .emit, ha⟩

end Agree

/-! ## Stores -/

section Stores

variable {δ₁ δ₂ : Type} {n : Nat} {α α₁ α₂ : Type}

/-- A store without its blocks. -/
def Store.outline {δ : Type} (store : Store δ n) : Store Husk n :=
  ⟨store.cache.outline, store.freeMap, store.registry⟩

variable {store₁ store₁' : Store δ₁ n} {store₂ store₂' : Store δ₂ n} {log₁ log₂ : List Event}

/-- Both caches do the same, but for the blocks. -/
theorem Store.onCache_agree {β : Type} {R₁ : α₁ → β → Prop} {R₂ : α₂ → β → Prop}
    {action₁ : Action (Cache δ₁ n) α₁} {action₂ : Action (Cache δ₂ n) α₂}
    {outlined : Action (Cache Husk n) β} (h₁ : Cache.Outlines R₁ action₁ outlined)
    (h₂ : Cache.Outlines R₂ action₂ outlined) {a₁ : α₁} {a₂ : α₂}
    (hrun₁ : onCache action₁ store₁ = ⟨.ok a₁, store₁', log₁⟩)
    (hrun₂ : onCache action₂ store₂ = ⟨.ok a₂, store₂', log₂⟩) (ho : store₁.outline = store₂.outline) :
    store₁'.outline = store₂'.outline ∧ log₁ = log₂ := by
  obtain ⟨cache₁, freeMap, registry⟩ := store₁
  obtain ⟨cache₂, freeMap, registry⟩ := store₂
  obtain ⟨hcache, rfl, rfl⟩ := Store.mk.inj ho
  obtain ⟨hresult₁, rfl, rfl⟩ := Reply.mk.inj hrun₁
  obtain ⟨hresult₂, rfl, rfl⟩ := Reply.mk.inj hrun₂
  have haction₁ : action₁ cache₁ = ⟨.ok a₁, (action₁ cache₁).state, (action₁ cache₁).log⟩ := by
    rw [← hresult₁]
  have haction₂ : action₂ cache₂ = ⟨.ok a₂, (action₂ cache₂).state, (action₂ cache₂).log⟩ := by
    rw [← hresult₂]
  obtain ⟨hstate, hlog⟩ := h₁.agree h₂ haction₁ haction₂ hcache
  exact ⟨congrArg (Store.mk · _ _) hstate, hlog⟩

theorem Store.onMap_agree (action : Action FreeMap α) {result₁ result₂ : Except Fault α}
    (hrun₁ : onMap action store₁ = ⟨result₁, store₁', log₁⟩)
    (hrun₂ : onMap action store₂ = ⟨result₂, store₂', log₂⟩) (ho : store₁.outline = store₂.outline) :
    store₁'.outline = store₂'.outline ∧ log₁ = log₂ := by
  obtain ⟨cache₁, freeMap, registry⟩ := store₁
  obtain ⟨cache₂, freeMap, registry⟩ := store₂
  obtain ⟨hcache, rfl, rfl⟩ := Store.mk.inj ho
  obtain ⟨-, rfl, rfl⟩ := Reply.mk.inj hrun₁
  obtain ⟨-, rfl, rfl⟩ := Reply.mk.inj hrun₂
  exact ⟨congrArg (Store.mk · _ _) hcache, rfl⟩

theorem Store.onRegistry_agree (action : Action Registry α) {result₁ result₂ : Except Fault α}
    (hrun₁ : onRegistry action store₁ = ⟨result₁, store₁', log₁⟩)
    (hrun₂ : onRegistry action store₂ = ⟨result₂, store₂', log₂⟩)
    (ho : store₁.outline = store₂.outline) : store₁'.outline = store₂'.outline ∧ log₁ = log₂ := by
  obtain ⟨cache₁, freeMap, registry⟩ := store₁
  obtain ⟨cache₂, freeMap, registry⟩ := store₂
  obtain ⟨hcache, rfl, rfl⟩ := Store.mk.inj ho
  obtain ⟨-, rfl, rfl⟩ := Reply.mk.inj hrun₁
  obtain ⟨-, rfl, rfl⟩ := Reply.mk.inj hrun₂
  exact ⟨congrArg (Store.mk · _ _) hcache, rfl⟩

variable [BlockDevice δ₁] [BlockDevice δ₂] {guarded : Bool} {c : Call} {p p' q q' : Plain}

/-- A call that two stores answer leaves both with one outline, and they report the same. -/
theorem Answers.outline_agree {answer : Except Fault c.Answer} (h : Answers guarded c p answer p')
    (hrun₁ : Store.perform c store₁ = ⟨answer, store₁', log₁⟩)
    (hrun₂ : Store.perform c store₂ = ⟨answer, store₂', log₂⟩) (ho : store₁.outline = store₂.outline) :
    store₁'.outline = store₂'.outline ∧ log₁ = log₂ := by
  open Cache in
  cases h with
  | view => exact Store.onCache_agree (view_outlines _) (view_outlines _) hrun₁ hrun₂ ho
  | store => exact Store.onCache_agree (store_outlines _ _) (store_outlines _ _) hrun₁ hrun₂ ho
  | update => exact Store.onCache_agree (update_outlines _ _) (update_outlines _ _) hrun₁ hrun₂ ho
  | flushCache => exact Store.onCache_agree flush_outlines flush_outlines hrun₁ hrun₂ ho
  | resetCache => exact Store.onCache_agree reset_outlines reset_outlines hrun₁ hrun₂ ho
  | allocate => exact Store.onMap_agree (FreeMap.allocate 1) hrun₁ hrun₂ ho
  | @release s => exact Store.onMap_agree (FreeMap.release s 1) hrun₁ hrun₂ ho
  | mapBytes => exact Store.onMap_agree (Action.get FreeMap.toBytes) hrun₁ hrun₂ ho
  | @loadMap bytes => exact Store.onMap_agree (FreeMap.load bytes) hrun₁ hrun₂ ho
  | @openInode s => exact Store.onRegistry_agree (Registry.openInode s) hrun₁ hrun₂ ho
  | @close handle => exact Store.onRegistry_agree (Registry.close handle) hrun₁ hrun₂ ho
  | @drop handle => exact Store.onRegistry_agree (Registry.drop handle) hrun₁ hrun₂ ho
  | @remove handle => exact Store.onRegistry_agree (Registry.remove handle) hrun₁ hrun₂ ho
  | @isDenied handle =>
    exact Store.onRegistry_agree (Action.get fun registry => registry.isDenied handle) hrun₁ hrun₂ ho
  | @beginGrowth handle => exact Store.onRegistry_agree (Registry.setGrowing handle true) hrun₁ hrun₂ ho
  | @endGrowth handle => exact Store.onRegistry_agree (Registry.setGrowing handle false) hrun₁ hrun₂ ho
  | emit =>
    cases hrun₁
    cases hrun₂
    exact ⟨ho, rfl⟩

variable [LawfulDevice δ₁] [LawfulDevice δ₂] {r : Routine α} {ending : Except Halt α}
  {known known' : SectorId → Prop}

/-- Two stores stand for plain ones that agree, and have one outline. -/
structure Twins (known : SectorId → Prop) (store₁ : Store δ₁ n) (store₂ : Store δ₂ n) (p q : Plain) :
    Prop where
  left : Stands store₁ p
  right : Stands store₂ q
  agree : Agree known p q
  outline : store₁.outline = store₂.outline

theorem Informed.lockstepAfter (h : Informed guarded known r p ending p' known') (hn : 0 < n)
    (ht : Twins known store₁ store₂ p q) (earlier : List Event) :
    ∃ store₁' store₂' log q', Store.runAfter earlier store₁ r = ⟨Halt.toResult ending, store₁', log⟩ ∧
      Store.runAfter earlier store₂ r = ⟨Halt.toResult ending, store₂', log⟩ ∧
      Runs guarded r q ending q' ∧ Twins known' store₁' store₂' p' q' := by
  induction h generalizing store₁ store₂ q earlier with
  | @done a p _ _ h =>
    exact ⟨store₁, store₂, _, q, rfl, rfl, .done, ht.left, ht.right, ht.agree.narrow h, ht.outline⟩
  | @halt cause p _ _ h =>
    cases cause with
    | refused e =>
      exact ⟨store₁, store₂, _, q, rfl, rfl, .halt, ht.left, ht.right, ht.agree.narrow h, ht.outline⟩
    | faulted e =>
      exact ⟨store₁, store₂, _, q, rfl, rfl, .halt, ht.left, ht.right, ht.agree.narrow h, ht.outline⟩
  | @call c next p p₁ p₂ answer ending known known' hlooks hanswer _ ih =>
    obtain ⟨q₁, hanswer', hagree⟩ := hanswer.lockstep hlooks ht.agree
    obtain ⟨left, log₁, hperform₁, hleft, -⟩ := hanswer.perform_eq hn ht.left
    obtain ⟨right, log₂, hperform₂, hright, -⟩ := hanswer'.perform_eq hn ht.right
    obtain ⟨houtline, rfl⟩ := hanswer.outline_agree hperform₁ hperform₂ ht.outline
    obtain ⟨store₁', store₂', log, q', hrun₁, hrun₂, hruns, htwins⟩ :=
      ih ⟨hleft, hright, hagree, houtline⟩ (log₁.reverseAux earlier)
    refine ⟨store₁', store₂', log, q', ?_, ?_, .call hanswer' hruns, htwins⟩
    · rw [Store.runAfter, hperform₁]
      exact hrun₁
    · rw [Store.runAfter, hperform₂]
      exact hrun₂

/-- **An informed run** is the same on both stores: they answer alike, report alike, and are twins
    afterwards. -/
theorem Informed.lockstep (h : Informed guarded known r p ending p' known') (hn : 0 < n)
    (ht : Twins known store₁ store₂ p q) :
    ∃ store₁' store₂' log q', store₁.run r = ⟨Halt.toResult ending, store₁', log⟩ ∧
      store₂.run r = ⟨Halt.toResult ending, store₂', log⟩ ∧ Runs guarded r q ending q' ∧
      Twins known' store₁' store₂' p' q' := h.lockstepAfter hn ht []

end Stores

end InodeStore
