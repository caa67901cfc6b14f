import InodeStore.Cache.Access

/-!
# `Proofs.Cache.Following` — the same work in front of another device

Two devices of different kinds may answer alike as long as they are asked for what both of them have. One
`Shadows` the other if each transfer keeps them related, given that the first one ends up inside its bounds, and
what ends up inside was inside before. Then the same work can be done in front of both: an action `Follows`
another one if it ends as that one does, reports the same and leaves related states related, provided that the
other one ends up inside.

Caches are related that are one cache in front of related devices (`Beside`): they have the same frames, lists
and counters at every moment, and so each operation follows itself.

## Contents
- `Carries`, for any functions, and `Action.Follows` with its rules, from `pure` to `onFault`.
- `Shadows`, `Cache.mapDevice`, `Cache.Beside`, and actions that do not touch the device (`Follows.still`).
- **Operations.** `acquire_follows`, `withFrame_follows`, `flush_follows`, `reset_follows`, and what they are
  made of.
-/

namespace InodeStore

/-! ## Functions and actions -/

section Carries

variable {σ τ σ' τ' σ'' τ'' : Type} {inside : σ → Prop} {R : σ → τ → Prop} {inside' : σ' → Prop}
  {R' : σ' → τ' → Prop} {inside'' : σ'' → Prop} {R'' : σ'' → τ'' → Prop}

/-- Related arguments are taken to related results, as long as the first result is inside. -/
structure Carries (inside : σ → Prop) (R : σ → τ → Prop) (inside' : σ' → Prop) (R' : σ' → τ' → Prop) (f : σ → σ')
    (f' : τ → τ') : Prop where
  /-- What ends up inside was inside before. -/
  before : ∀ {s}, inside' (f s) → inside s
  same : ∀ {s t}, R s t → inside' (f s) → R' (f s) (f' t)

theorem Carries.comp {f : σ → σ'} {f' : τ → τ'} {g : σ' → σ''} {g' : τ' → τ''}
    (hg : Carries inside' R' inside'' R'' g g') (hf : Carries inside R inside' R' f f') :
    Carries inside R inside'' R'' (fun s => g (f s)) (fun t => g' (f' t)) :=
  ⟨fun hin => hf.before (hg.before hin), fun hst hin => hg.same (hf.same hst (hg.before hin)) hin⟩

end Carries

section Actions

variable {σ τ α β : Type} {inside : σ → Prop} {R : σ → τ → Prop}

/-- A reply has the result and the log of another one, and a related state. -/
def Reply.Matches (R : σ → τ → Prop) (reply : Reply σ α) (reply' : Reply τ α) : Prop :=
  ∃ t, reply' = ⟨reply.result, t, reply.log⟩ ∧ R reply.state t

/-- The second action does what the first one does, as long as that one ends up inside. -/
abbrev Action.Follows (inside : σ → Prop) (R : σ → τ → Prop) (action : Action σ α) (action' : Action τ α) : Prop :=
  Carries inside R (fun reply : Reply σ α => inside reply.state) (Reply.Matches R) action action'

namespace Action.Follows

variable {action : Action σ α} {action' : Action τ α} {change : σ → σ} {change' : τ → τ}

theorem pure (a : α) : Follows inside R (Pure.pure a) (Pure.pure a) := ⟨id, fun h _ => ⟨_, rfl, h⟩⟩

theorem fault (e : Fault) : Follows (α := α) inside R (Action.fault e) (Action.fault e) :=
  ⟨id, fun h _ => ⟨_, rfl, h⟩⟩

theorem emit (event : Event) : Follows inside R (Action.emit event) (Action.emit event) :=
  ⟨id, fun h _ => ⟨_, rfl, h⟩⟩

theorem get {view : σ → α} {view' : τ → α} (h : ∀ {s t}, R s t → view' t = view s) :
    Follows inside R (Action.get view) (Action.get view') :=
  ⟨id, fun {s t} hst _ => ⟨t, by rw [Action.get, h hst, Action.get], hst⟩⟩

theorem bind {next : α → Action σ β} {next' : α → Action τ β} (h : Follows inside R action action')
    (hnext : ∀ a, Follows inside R (next a) (next' a)) : Follows inside R (action >>= next) (action' >>= next') where
  before {s} hin := by
    rw [Action.bind_def] at hin
    have hbefore := h.before (s := s)
    generalize action s = reply at hin hbefore
    rcases reply with ⟨_ | a, s₁, log⟩
    · exact hbefore hin
    · exact hbefore ((hnext a).before hin)
  same {s t} hst hin := by
    rw [Action.bind_def] at hin ⊢
    have hfirst := h.same hst
    generalize action s = reply at hin hfirst ⊢
    rcases reply with ⟨_ | a, s₁, log⟩
    · obtain ⟨t₁, hrun, hst₁⟩ := hfirst hin
      exact ⟨t₁, by rw [Action.bind_def, hrun], hst₁⟩
    · obtain ⟨t₁, hrun, hst₁⟩ := hfirst ((hnext a).before hin)
      obtain ⟨t₂, hrun', hst₂⟩ := (hnext a).same hst₁ hin
      exact ⟨t₂, by rw [Action.bind_def, hrun]; dsimp only; rw [hrun'], hst₂⟩

theorem onFault (h : Follows inside R action action') (hbefore : ∀ {s}, inside (change s) → inside s)
    (hchange : ∀ {s t}, R s t → R (change s) (change' t)) :
    Follows inside R (Action.onFault change action) (Action.onFault change' action') where
  before {s} hin := by
    unfold Action.onFault at hin
    have hfirst := h.before (s := s)
    generalize action s = reply at hin hfirst
    rcases reply with ⟨_ | a, s₁, log⟩
    · exact hfirst (hbefore hin)
    · exact hfirst hin
  same {s t} hst hin := by
    unfold Action.onFault at hin ⊢
    have hsame := h.same hst
    generalize action s = reply at hin hsame ⊢
    rcases reply with ⟨_ | a, s₁, log⟩
    · obtain ⟨t₁, hrun, hst₁⟩ := hsame (hbefore hin)
      exact ⟨change' t₁, by rw [hrun], hchange hst₁⟩
    · obtain ⟨t₁, hrun, hst₁⟩ := hsame hin
      exact ⟨t₁, by rw [hrun], hst₁⟩

theorem always (h : Follows inside R action action') (hbefore : ∀ {s}, inside (change s) → inside s)
    (hchange : ∀ {s t}, R s t → R (change s) (change' t)) :
    Follows inside R (Action.always change action) (Action.always change' action') where
  before hin := h.before (hbefore hin)
  same {s t} hst hin := by
    obtain ⟨t₁, hrun, hst₁⟩ := h.same hst (hbefore hin)
    exact ⟨change' t₁, by rw [Action.always, hrun]; rfl, hchange hst₁⟩

end Action.Follows

end Actions

variable {δ ε : Type} {n : Nat} {α β : Type} {I : δ → Prop} {D : δ → ε → Prop}

/-- The second device does what the first one does, as long as that one ends up inside. -/
structure Shadows [BlockDevice δ] [BlockDevice ε] (I : δ → Prop) (D : δ → ε → Prop) : Prop where
  read_before : ∀ {s d}, I (BlockDevice.read s d).2 → I d
  write_before : ∀ {s b d}, I (BlockDevice.write s b d).2 → I d
  read : ∀ {s d e}, D d e → I (BlockDevice.read s d).2 →
    ∃ e', BlockDevice.read s e = ((BlockDevice.read s d).1, e') ∧ D (BlockDevice.read s d).2 e'
  write : ∀ {s b d e}, D d e → I (BlockDevice.write s b d).2 →
    ∃ e', BlockDevice.write s b e = ((BlockDevice.write s b d).1, e') ∧ D (BlockDevice.write s b d).2 e'

namespace Cache

/-! ## Caches -/

/-- The same cache in front of another device. -/
def mapDevice (mirror : δ → ε) (cache : Cache δ n) : Cache ε n where
  device := mirror cache.device
  frames := cache.frames
  recency := cache.recency
  free := cache.free
  evicting := cache.evicting
  accesses := cache.accesses
  hits := cache.hits
  deviceReads := cache.deviceReads
  deviceWrites := cache.deviceWrites

/-- One cache in front of two related devices. -/
def Beside (D : δ → ε → Prop) (cache : Cache δ n) (twin : Cache ε n) : Prop :=
  ∃ e, D cache.device e ∧ twin = cache.mapDevice fun _ => e

/-- The second action does to the cache in front of the other device what the first one does, as long as the first
    device ends up inside. -/
abbrev Follows (I : δ → Prop) (D : δ → ε → Prop) (action : Action (Cache δ n) α)
    (action' : Action (Cache ε n) α) : Prop :=
  Action.Follows (fun cache => I cache.device) (Beside D) action action'

namespace Beside

variable {cache : Cache δ n} {twin : Cache ε n}

/-- A change that leaves the device alone. -/
theorem change {f : Cache δ n → Cache δ n} {f' : Cache ε n → Cache ε n}
    (hdevice : ∀ cache, (f cache).device = cache.device)
    (hsame : ∀ cache e, f' (cache.mapDevice fun _ => e) = (f cache).mapDevice fun _ => e)
    (h : Beside D cache twin) : Beside D (f cache) (f' twin) := by
  obtain ⟨e, he, rfl⟩ := h
  exact ⟨e, (hdevice cache).symm ▸ he, hsame cache e⟩

theorem unpin (i : Fin n) (h : Beside D cache twin) : Beside D (cache.unpin i) (twin.unpin i) :=
  h.change (f := Cache.unpin i) (fun _ => rfl) fun _ _ => rfl

end Beside

namespace Follows

/-- An action that leaves the device alone. -/
theorem still {action : Action (Cache δ n) α} {action' : Action (Cache ε n) α}
    (hdevice : ∀ cache, (action cache).state.device = cache.device)
    (hsame : ∀ cache e, action' (cache.mapDevice fun _ => e) =
      ⟨(action cache).result, (action cache).state.mapDevice fun _ => e, (action cache).log⟩) :
    Follows I D action action' where
  before {cache} hin := hdevice cache ▸ hin
  same := by
    rintro cache _ ⟨e, he, rfl⟩ -
    exact ⟨_, hsame cache e, e, (hdevice cache).symm ▸ he, rfl⟩

theorem look {view : Cache δ n → α} {view' : Cache ε n → α}
    (h : ∀ cache e, view' (cache.mapDevice fun _ => e) = view cache) :
    Follows I D (Action.get view) (Action.get view') :=
  .get fun {cache _} hbeside => by
    obtain ⟨e, -, rfl⟩ := hbeside
    exact h cache e

/-- A change of a frame. -/
theorem mapFrame (i : Fin n) (change : Frame → Frame) : Follows (n := n) I D
    (Action.modify (Cache.mapFrame i change)) (Action.modify (Cache.mapFrame i change)) :=
  .still (fun _ => rfl) fun _ _ => rfl

end Follows

/-! ## Operations -/

theorem claim?_device {cache claimed : Cache δ n} {i : Fin n} (h : cache.claim? = some (i, claimed)) :
    claimed.device = cache.device := by
  unfold claim? at h
  split at h
  · cases h
    rfl
  · split at h
    · cases h
      rfl
    · cases h

theorem claim?_mapDevice (mirror : δ → ε) (cache : Cache δ n) : (cache.mapDevice mirror).claim? =
    cache.claim?.map fun claimed => (claimed.1, claimed.2.mapDevice mirror) := by
  have hpins : (fun i => ((cache.mapDevice mirror).frame i).pins == 0) = fun i => (cache.frame i).pins == 0 :=
    rfl
  have hfree : (cache.mapDevice mirror).free = cache.free := rfl
  have hrecency : (cache.mapDevice mirror).recency = cache.recency := rfl
  unfold claim?
  rw [hpins, hfree, hrecency]
  cases cache.free with
  | cons i rest => rfl
  | nil => cases cache.recency.reverse.find? _ <;> rfl

theorem seek_device (s : SectorId) (cache : Cache δ n) : (seek s cache).state.device = cache.device := by
  unfold seek
  split
  · rfl
  · split
    · rfl
    · dsimp only
      split
      · next hclaim =>
        have hdevice := claim?_device hclaim
        exact hdevice
      · rfl

/-- A look for a sector sees nothing of the device. -/
theorem seek_mapDevice (s : SectorId) (mirror : δ → ε) (cache : Cache δ n) : seek s (cache.mapDevice mirror) =
    ⟨(seek s cache).result, (seek s cache).state.mapDevice mirror, (seek s cache).log⟩ := by
  have hframe : (cache.mapDevice mirror).frameOf? s = cache.frameOf? s := rfl
  have hevicting : (cache.mapDevice mirror).evicting.lookup s = cache.evicting.lookup s := rfl
  have hclaim : claim? { cache.mapDevice mirror with accesses := cache.accesses + 1 } = _ :=
    claim?_mapDevice mirror { cache with accesses := cache.accesses + 1 }
  have haccesses : (cache.mapDevice mirror).accesses = cache.accesses := rfl
  unfold seek
  rw [hframe]
  cases cache.frameOf? s with
  | some i => rfl
  | none =>
    rw [hevicting]
    cases cache.evicting.lookup s with
    | some i => rfl
    | none =>
      simp only [haccesses, hclaim]
      cases claim? { cache with accesses := cache.accesses + 1 } with
      | none => rfl
      | some claimed => rfl

theorem seek_follows (s : SectorId) : Follows (n := n) I D (seek s) (seek s) :=
  .still (seek_device s) fun cache e => seek_mapDevice s (fun _ => e) cache

theorem settle_follows (s : SectorId) : Follows (n := n) I D (settle s) (settle s) :=
  .still (fun _ => rfl) fun _ _ => rfl

theorem foldl_mapDevice (frames : List (Fin n)) (change : Frame → Frame) (mirror : δ → ε) (cache : Cache δ n) :
    frames.foldl (fun cache i => cache.mapFrame i change) (cache.mapDevice mirror) =
      (frames.foldl (fun cache i => cache.mapFrame i change) cache).mapDevice mirror := by
  induction frames generalizing cache with
  | nil => rfl
  | cons i rest ih => exact ih (cache.mapFrame i change)

theorem foldl_device (frames : List (Fin n)) (change : Frame → Frame) (cache : Cache δ n) :
    (frames.foldl (fun cache i => cache.mapFrame i change) cache).device = cache.device := by
  induction frames generalizing cache with
  | nil => rfl
  | cons i rest ih => exact ih (cache.mapFrame i change)

theorem forget_follows : Follows (n := n) I D forget forget := by
  refine .still (fun cache => foldl_device _ _ cache) fun cache e => ?_
  unfold forget
  simp only [foldl_mapDevice]
  rfl

section Devices

variable [BlockDevice δ] [BlockDevice ε] (h : Shadows I D)
include h

theorem readDevice_follows (s : SectorId) : Follows (n := n) I D (readDevice s) (readDevice s) where
  before {cache} hin := by
    unfold readDevice at hin
    have hbefore := h.read_before (s := s) (d := cache.device)
    generalize BlockDevice.read s cache.device = reply at hin hbefore
    rcases reply with ⟨_ | b, d⟩ <;> exact hbefore hin
  same := by
    rintro cache _ ⟨e, he, rfl⟩ hin
    have hread := h.read (s := s) he
    unfold readDevice at hin ⊢
    generalize BlockDevice.read s cache.device = reply at hin hread ⊢
    rcases reply with ⟨_ | b, d⟩
    all_goals
      obtain ⟨e', hread' : BlockDevice.read s (cache.mapDevice fun _ => e).device = (_, e'), he'⟩ := hread hin
      rw [hread']
      exact ⟨_, rfl, e', he', rfl⟩

theorem writeDevice_follows (s : SectorId) (b : Block) :
    Follows (n := n) I D (writeDevice s b) (writeDevice s b) where
  before {cache} hin := by
    unfold writeDevice at hin
    have hbefore := h.write_before (s := s) (b := b) (d := cache.device)
    generalize BlockDevice.write s b cache.device = reply at hin hbefore
    rcases reply with ⟨_ | ⟨⟩, d⟩ <;> exact hbefore hin
  same := by
    rintro cache _ ⟨e, he, rfl⟩ hin
    have hwrite := h.write (s := s) (b := b) he
    unfold writeDevice at hin ⊢
    generalize BlockDevice.write s b cache.device = reply at hin hwrite ⊢
    rcases reply with ⟨_ | ⟨⟩, d⟩
    all_goals
      obtain ⟨e', hwrite' : BlockDevice.write s b (cache.mapDevice fun _ => e).device = (_, e'), he'⟩ := hwrite hin
      rw [hwrite']
      exact ⟨_, rfl, e', he', rfl⟩

theorem spill_follows (i : Fin n) (s : SectorId) : Follows I D (spill i s) (spill i s) :=
  (Follows.look fun _ _ => rfl).bind fun b => (writeDevice_follows h s b).bind fun _ => Follows.mapFrame i _

theorem fetch_follows (i : Fin n) (s : SectorId) (fill : Fill) : Follows I D (fetch i s fill) (fetch i s fill) := by
  have hfilled : Follows (n := n) I D
      (do
        Action.emit (.loaded s i.val)
        Action.modify (mapFrame i fun frame => { frame with dirty := false, valid := true }))
      (do
        Action.emit (.loaded s i.val)
        Action.modify (mapFrame i fun frame => { frame with dirty := false, valid := true })) :=
    (Action.Follows.emit _).bind fun _ => Follows.mapFrame i _
  unfold fetch
  cases fill with
  | overwrite => exact hfilled
  | readThrough =>
    exact (readDevice_follows h s).bind fun b => (Follows.mapFrame i _).bind fun _ => hfilled

theorem acquire_follows (fill : Fill) (s : SectorId) :
    Follows (n := n) I D (acquire fill s) (acquire fill s) := by
  refine (seek_follows s).bind fun sought => ?_
  cases sought with
  | hit i => exact .pure i
  | busy i => exact .fault _
  | miss i displaced =>
    -- what is displaced is settled first, if it has anything for the device
    have hfetch := (fetch_follows h i s fill).bind fun _ => Action.Follows.pure i
    refine Action.Follows.onFault ?_ id (Beside.unpin i)
    cases displaced with
    | none => exact hfetch
    | some old => exact (spill_follows h i old).bind fun _ => (settle_follows old).bind fun _ => hfetch

theorem withFrame_follows (fill : Fill) (s : SectorId) {body : Fin n → Action (Cache δ n) α}
    {body' : Fin n → Action (Cache ε n) α} (hbody : ∀ i, Follows I D (body i) (body' i)) :
    Follows I D (withFrame fill s body) (withFrame fill s body') :=
  (acquire_follows h fill s).bind fun i => (hbody i).always id (Beside.unpin i)

theorem view_follows (s : SectorId) : Follows (n := n) I D (view s) (view s) :=
  withFrame_follows h .readThrough s fun _ => .look fun _ _ => rfl

theorem store_follows (s : SectorId) (b : Block) : Follows (n := n) I D (store s b) (store s b) :=
  withFrame_follows h .overwrite s fun i => Follows.mapFrame i _

theorem update_follows (s : SectorId) (change : Block → Block) :
    Follows (n := n) I D (update s change) (update s change) :=
  withFrame_follows h .readThrough s fun i => Follows.mapFrame i _

theorem writeBack_follows (i : Fin n) : Follows I D (writeBack i) (writeBack i) := by
  refine (Follows.look fun _ _ => rfl).bind fun frame => ?_
  by_cases hdirty : frame.dirty = true
  · rw [if_pos hdirty, if_pos hdirty]
    cases frame.sector with
    | none => exact Follows.mapFrame i _
    | some s =>
      exact (Action.Follows.emit _).bind fun _ => (writeDevice_follows h s _).bind fun _ => Follows.mapFrame i _
  · rw [if_neg hdirty, if_neg hdirty]
    exact .pure ()

theorem writeBackAll_follows (frames : List (Fin n)) :
    Follows I D (writeBackAll frames) (writeBackAll frames) := by
  induction frames with
  | nil => exact .pure ()
  | cons i rest ih => exact (writeBack_follows h i).bind fun _ => ih

theorem flush_follows : Follows (n := n) I D flush flush where
  before {cache} := (writeBackAll_follows h cache.recency.reverse).before
  same := by
    rintro cache _ ⟨e, he, rfl⟩
    exact (writeBackAll_follows h cache.recency.reverse).same ⟨e, he, rfl⟩

theorem reset_follows : Follows (n := n) I D reset reset :=
  (flush_follows h).bind fun _ => forget_follows

end Devices

end Cache

end InodeStore
