import InodeStore.Cache.Access

/-!
# `Proofs.Cache.Counting` — counters that do not go back

Whatever the cache does but for a reset leaves no counter below what it was (`Cache.Counts`), also when it
faults. So what was counted since an earlier sample can always be told (`CacheStats.since_ok`).
-/

namespace InodeStore

/-- No counter is higher in the first sample. -/
instance : LE CacheStats where
  le base now := base.accesses ≤ now.accesses ∧ base.hits ≤ now.hits ∧
    base.deviceReads ≤ now.deviceReads ∧ base.deviceWrites ≤ now.deviceWrites

theorem CacheStats.le_refl (stats : CacheStats) : stats ≤ stats :=
  ⟨Nat.le_refl _, Nat.le_refl _, Nat.le_refl _, Nat.le_refl _⟩

theorem CacheStats.le_trans {first second third : CacheStats} (h : first ≤ second) (h' : second ≤ third) :
    first ≤ third := by
  obtain ⟨haccesses, hhits, hreads, hwrites⟩ := h
  obtain ⟨haccesses', hhits', hreads', hwrites'⟩ := h'
  exact ⟨Nat.le_trans haccesses haccesses', Nat.le_trans hhits hhits', Nat.le_trans hreads hreads',
    Nat.le_trans hwrites hwrites'⟩

/-- Then the difference can be told. -/
theorem CacheStats.since_ok {base now : CacheStats} (h : base ≤ now) :
    ∃ counted, now.since base = .ok counted := ⟨_, if_pos h⟩

namespace Cache

variable {δ : Type} {n : Nat} {α β : Type}

/-- An action after which no counter is lower. -/
def Counts (action : Action (Cache δ n) α) : Prop := ∀ cache, cache.stats ≤ (action cache).state.stats

namespace Counts

variable {action : Action (Cache δ n) α}

theorem of_eq (h : ∀ cache, (action cache).state.stats = cache.stats) : Counts action := fun cache =>
  h cache ▸ cache.stats.le_refl

theorem pure (a : α) : Counts (Pure.pure a : Action (Cache δ n) α) := .of_eq fun _ => rfl

theorem fault (e : Fault) : Counts (Action.fault e : Action (Cache δ n) α) := .of_eq fun _ => rfl

theorem bind {next : α → Action (Cache δ n) β} (h : Counts action) (hnext : ∀ a, Counts (next a)) :
    Counts (action >>= next) := by
  intro cache
  have hfirst := h cache
  rw [Action.bind_def]
  rcases hrun : action cache with ⟨_ | a, cache', log⟩
  · rw [hrun] at hfirst
    exact hfirst
  · rw [hrun] at hfirst
    exact CacheStats.le_trans hfirst (hnext a cache')

theorem onFault {change : Cache δ n → Cache δ n} (h : Counts action)
    (hchange : ∀ cache, (change cache).stats = cache.stats) : Counts (Action.onFault change action) := by
  intro cache
  have hrun := h cache
  unfold Action.onFault
  rcases haction : action cache with ⟨_ | _, cache', _⟩
  · rw [haction] at hrun
    exact (hchange cache').symm ▸ hrun
  · rw [haction] at hrun
    exact hrun

theorem always {change : Cache δ n → Cache δ n} (h : Counts action)
    (hchange : ∀ cache, (change cache).stats = cache.stats) : Counts (Action.always change action) := by
  intro cache
  have hrun := h cache
  unfold Action.always
  rcases haction : action cache with ⟨_, cache', _⟩
  rw [haction] at hrun
  exact (hchange cache').symm ▸ hrun

end Counts

/-! ## Operations -/

theorem stats_mapFrame (i : Fin n) (change : Frame → Frame) (cache : Cache δ n) :
    (cache.mapFrame i change).stats = cache.stats := rfl

/-- A look counts as an access. -/
theorem seek_counts (s : SectorId) : Counts (δ := δ) (n := n) (seek s) := by
  intro cache
  have hone : cache.stats ≤ { cache.stats with accesses := cache.accesses + 1 } :=
    ⟨Nat.le_succ _, Nat.le_refl _, Nat.le_refl _, Nat.le_refl _⟩
  unfold seek
  split
  · exact ⟨Nat.le_succ _, Nat.le_succ _, Nat.le_refl _, Nat.le_refl _⟩
  · split
    · exact cache.stats.le_refl
    · unfold claim?
      dsimp only
      split
      · next hclaim =>
        split at hclaim
        · cases hclaim
          exact hone
        · split at hclaim
          · cases hclaim
            exact hone
          · cases hclaim
      · exact hone

variable [BlockDevice δ]

theorem readDevice_counts (s : SectorId) : Counts (δ := δ) (n := n) (readDevice s) := by
  intro cache
  unfold readDevice
  split
  · exact ⟨Nat.le_refl _, Nat.le_refl _, Nat.le_succ _, Nat.le_refl _⟩
  · exact cache.stats.le_refl

theorem writeDevice_counts (s : SectorId) (b : Block) : Counts (δ := δ) (n := n) (writeDevice s b) := by
  intro cache
  unfold writeDevice
  split
  · exact ⟨Nat.le_refl _, Nat.le_refl _, Nat.le_refl _, Nat.le_succ _⟩
  · exact cache.stats.le_refl

theorem spill_counts (i : Fin n) (s : SectorId) : Counts (δ := δ) (spill i s) :=
  .bind (.of_eq fun _ => rfl) fun _ => .bind (writeDevice_counts s _) fun _ => .of_eq fun _ => rfl

theorem fetch_counts (i : Fin n) (s : SectorId) (fill : Fill) : Counts (δ := δ) (fetch i s fill) := by
  have hrest : Counts (δ := δ) (n := n) (do
      Action.emit (.loaded s i.val)
      Action.modify (mapFrame i fun frame => { frame with dirty := false, valid := true })) :=
    .of_eq fun _ => rfl
  unfold fetch
  split
  · exact .bind (readDevice_counts s) fun _ => .bind (.of_eq fun _ => rfl) fun _ => hrest
  · exact hrest

theorem acquire_counts (fill : Fill) (s : SectorId) : Counts (δ := δ) (n := n) (acquire fill s) := by
  refine .bind (seek_counts s) fun sought => ?_
  cases sought with
  | hit i => exact .pure i
  | busy i => exact .fault _
  | miss i displaced =>
    refine .onFault ?_ (stats_mapFrame i _)
    have hfetch : Counts (δ := δ) (do fetch i s fill; pure i) :=
      .bind (fetch_counts i s fill) fun _ => .pure i
    cases displaced with
    | none => exact hfetch
    | some old => exact .bind (spill_counts i old) fun _ => .bind (.of_eq fun _ => rfl) fun _ => hfetch

theorem withFrame_counts (fill : Fill) (s : SectorId) {body : Fin n → Action (Cache δ n) α}
    (h : ∀ i, Counts (body i)) : Counts (withFrame fill s body) :=
  .bind (acquire_counts fill s) fun i => .always (h i) (stats_mapFrame i _)

theorem view_counts (s : SectorId) : Counts (δ := δ) (n := n) (view s) :=
  withFrame_counts _ s fun _ => .of_eq fun _ => rfl

theorem store_counts (s : SectorId) (b : Block) : Counts (δ := δ) (n := n) (store s b) :=
  withFrame_counts _ s fun _ => .of_eq fun _ => rfl

theorem update_counts (s : SectorId) (change : Block → Block) :
    Counts (δ := δ) (n := n) (update s change) :=
  withFrame_counts _ s fun _ => .of_eq fun _ => rfl

theorem writeBack_counts (i : Fin n) : Counts (δ := δ) (writeBack i) := by
  have hclean : Counts (δ := δ) (n := n)
      (Action.modify (mapFrame i fun frame => { frame with dirty := false })) := .of_eq fun _ => rfl
  refine .bind (.of_eq fun _ => rfl) fun frame => ?_
  split
  · split
    · exact .bind (.of_eq fun _ => rfl) fun _ => .bind (writeDevice_counts _ _) fun _ => hclean
    · exact hclean
  · exact .pure ()

theorem writeBackAll_counts (frames : List (Fin n)) : Counts (δ := δ) (writeBackAll frames) := by
  induction frames with
  | nil => exact .pure ()
  | cons i rest ih => exact .bind (writeBack_counts i) fun _ => ih

/-- **A flush** counts the sectors that it writes. -/
theorem flush_counts : Counts (δ := δ) (n := n) flush := fun cache =>
  writeBackAll_counts cache.recency.reverse cache

end Cache

end InodeStore
