import InodeStore.Cache.Access

/-!
# `Proofs.Cache.Outline` — what a cache does, but for the blocks

The outline of a cache is the cache of a device that keeps nothing: the same frames for the same sectors,
in the same order, with the same counters, but no blocks. An operation that does not fault does to the
outline what it does to the cache, and reports the same (`Outlines`). So two caches with one outline are
still such when the same sectors were viewed, stored or updated, whatever is in them (`Outlines.agree`).
-/

namespace InodeStore

/-- A device that takes every block and keeps none. -/
structure Husk where

instance : BlockDevice Husk where
  sectorCount _ := 0
  read _ husk := (.ok Block.zero, husk)
  write _ _ husk := (.ok (), husk)

/-- A frame without its block. -/
def Frame.outline (frame : Frame) : Frame := { frame with data := Block.zero }

namespace Cache

variable {δ : Type} {n : Nat} {α α' β β' : Type}

/-- A cache without its blocks. -/
def outline (cache : Cache δ n) : Cache Husk n where
  device := ⟨⟩
  frames := cache.frames.map Frame.outline
  recency := cache.recency
  free := cache.free
  evicting := cache.evicting
  accesses := cache.accesses
  hits := cache.hits
  deviceReads := cache.deviceReads
  deviceWrites := cache.deviceWrites

/-! ## Frames -/

theorem frame_outline (cache : Cache δ n) (i : Fin n) :
    cache.outline.frame i = (cache.frame i).outline := by
  show (cache.frames.map Frame.outline)[i.val] = _
  rw [Vector.getElem_map]
  rfl

theorem blank_outline (device : δ) : (blank n device).outline = blank n (Husk.mk) := by
  have hframes : (Vector.replicate n Frame.blank).map Frame.outline = Vector.replicate n Frame.blank :=
    Vector.map_replicate
  exact congrArg (fun frames => ({ blank n (Husk.mk) with frames } : Cache Husk n)) hframes

theorem mapFrame_outline {cache : Cache δ n} {i : Fin n} {change change' : Frame → Frame}
    (h : (change (cache.frame i)).outline = change' (cache.frame i).outline) :
    (cache.mapFrame i change).outline = cache.outline.mapFrame i change' := by
  have hframes : (cache.frames.set i.val (change (cache.frame i)) i.isLt).map Frame.outline =
      cache.outline.frames.set i.val (change' (cache.outline.frame i)) i.isLt := by
    rw [frame_outline, ← h, Vector.map_set]
    rfl
  exact congrArg (fun frames => ({ cache.outline with frames } : Cache Husk n)) hframes

theorem frameOf?_outline (cache : Cache δ n) (s : SectorId) :
    cache.outline.frameOf? s = cache.frameOf? s := by
  unfold frameOf?
  congr 1
  funext i
  rw [frame_outline]
  rfl

theorem claim?_outline (cache : Cache δ n) :
    cache.outline.claim? = cache.claim?.map fun claimed => (claimed.1, claimed.2.outline) := by
  have hpins : (fun i => (cache.outline.frame i).pins == 0) = fun i => (cache.frame i).pins == 0 :=
    funext fun i => by rw [frame_outline]; rfl
  have hfree : cache.outline.free = cache.free := rfl
  have hrecency : cache.outline.recency = cache.recency := rfl
  unfold claim?
  rw [hpins, hfree, hrecency]
  cases cache.free with
  | cons i rest => rfl
  | nil => cases cache.recency.reverse.find? _ <;> rfl

/-! ## Actions -/

/-- Where the first action does not fault, the second one does to the outline what the first one does to the
    cache, with a related answer and the same events. -/
def Outlines (R : α → β → Prop) (action : Action (Cache δ n) α) (outlined : Action (Cache Husk n) β) :
    Prop :=
  ∀ cache a cache' log, action cache = ⟨.ok a, cache', log⟩ →
    ∃ b, R a b ∧ outlined cache.outline = ⟨.ok b, cache'.outline, log⟩

namespace Outlines

variable {R : α → β → Prop} {S : α' → β' → Prop} {action : Action (Cache δ n) α}
  {outlined : Action (Cache Husk n) β}

theorem pure {a : α} {b : β} (h : R a b) : Outlines (δ := δ) (n := n) R (Pure.pure a) (Pure.pure b) := by
  rintro cache _ _ _ hrun
  cases hrun
  exact ⟨b, h, rfl⟩

theorem bind {next : α → Action (Cache δ n) α'} {next' : β → Action (Cache Husk n) β'}
    (h : Outlines R action outlined) (hnext : ∀ {a b}, R a b → Outlines S (next a) (next' b)) :
    Outlines S (action >>= next) (outlined >>= next') := by
  rintro cache a₂ cache₂ log hrun
  rw [Action.bind_def] at hrun
  rcases hfirst : action cache with ⟨_ | a, cache₁, log₁⟩
  · rw [hfirst] at hrun
    cases hrun
  · rw [hfirst] at hrun
    obtain ⟨hresult, hstate, hlog⟩ := Reply.mk.inj hrun
    obtain ⟨b, hab, hfirst'⟩ := h _ _ _ _ hfirst
    have hsecond : next a cache₁ = ⟨.ok a₂, cache₂, (next a cache₁).log⟩ := by
      rw [← hresult, ← hstate]
    obtain ⟨b₂, hab₂, hsecond'⟩ := hnext hab _ _ _ _ hsecond
    refine ⟨b₂, hab₂, ?_⟩
    rw [Action.bind_def, hfirst']
    dsimp only
    rw [hsecond', ← hlog]

theorem onFault {change : Cache δ n → Cache δ n} {change' : Cache Husk n → Cache Husk n}
    (h : Outlines R action outlined) :
    Outlines R (Action.onFault change action) (Action.onFault change' outlined) := by
  rintro cache a cache' log hrun
  unfold Action.onFault at hrun ⊢
  rcases haction : action cache with ⟨_ | _, _, _⟩
  · rw [haction] at hrun
    cases hrun
  · rw [haction] at hrun
    cases hrun
    obtain ⟨b, hab, houtlined⟩ := h _ _ _ _ haction
    refine ⟨b, hab, ?_⟩
    rw [houtlined]

theorem always {change : Cache δ n → Cache δ n} {change' : Cache Husk n → Cache Husk n}
    (h : Outlines R action outlined) (hchange : ∀ cache, (change cache).outline = change' cache.outline) :
    Outlines R (Action.always change action) (Action.always change' outlined) := by
  rintro cache a cache' log hrun
  unfold Action.always at hrun ⊢
  rcases haction : action cache with ⟨_ | _, _, _⟩
  · rw [haction] at hrun
    cases hrun
  · rw [haction] at hrun
    cases hrun
    obtain ⟨b, hab, houtlined⟩ := h _ _ _ _ haction
    refine ⟨b, hab, ?_⟩
    rw [houtlined, hchange]

theorem get {view : Cache δ n → α} {view' : Cache Husk n → β}
    (h : ∀ cache, R (view cache) (view' cache.outline)) :
    Outlines R (Action.get view) (Action.get view') := by
  rintro cache _ _ _ hrun
  cases hrun
  exact ⟨_, h cache, rfl⟩

theorem modify {change : Cache δ n → Cache δ n} {change' : Cache Husk n → Cache Husk n}
    (h : ∀ cache, (change cache).outline = change' cache.outline) :
    Outlines Eq (Action.modify change) (Action.modify change') := by
  rintro cache _ _ _ hrun
  cases hrun
  refine ⟨(), rfl, ?_⟩
  rw [h]
  rfl

theorem emit (event : Event) : Outlines (δ := δ) (n := n) Eq (Action.emit event) (Action.emit event) := by
  rintro cache _ _ _ hrun
  cases hrun
  exact ⟨(), rfl, rfl⟩

end Outlines

/-! ## Operations -/

/-- In the outline every block is zero. -/
def Hidden (_ : Block) (b : Block) : Prop := b = Block.zero

theorem pin_outline (i : Fin n) (cache : Cache δ n) : (cache.pin i).outline = cache.outline.pin i :=
  mapFrame_outline rfl

theorem unpin_outline (i : Fin n) (cache : Cache δ n) : (cache.unpin i).outline = cache.outline.unpin i :=
  mapFrame_outline rfl

theorem assign_outlines (s : SectorId) (i : Fin n) :
    Outlines (δ := δ) Eq (assign s i) (assign s i) := by
  rintro cache _ _ _ hrun
  unfold assign at hrun ⊢
  cases hrun
  refine ⟨_, rfl, ?_⟩
  have hgiven : (cache.mapFrame i fun frame =>
      { frame with sector := some s, valid := false, pins := frame.pins + 1 }).outline =
      cache.outline.mapFrame i fun frame =>
        { frame with sector := some s, valid := false, pins := frame.pins + 1 } := mapFrame_outline rfl
  simp only [frame_outline, ← hgiven]
  rfl

theorem seek_outlines (s : SectorId) : Outlines (δ := δ) (n := n) Eq (seek s) (seek s) := by
  intro cache a cache' log hrun
  unfold seek at hrun ⊢
  rw [frameOf?_outline]
  cases hfound : cache.frameOf? s with
  | some i =>
    simp only [hfound] at hrun
    cases hrun
    exact ⟨_, rfl, by rw [pin_outline]; rfl⟩
  | none =>
    have hevicting : cache.outline.evicting.lookup s = cache.evicting.lookup s := rfl
    simp only [hfound, hevicting] at hrun ⊢
    cases hout : cache.evicting.lookup s with
    | some i =>
      simp only [hout] at hrun
      cases hrun
      exact ⟨_, rfl, rfl⟩
    | none =>
      have hclaim : claim? { cache.outline with accesses := cache.outline.accesses + 1 } = _ :=
        claim?_outline { cache with accesses := cache.accesses + 1 }
      simp only [hout] at hrun hclaim ⊢
      rw [hclaim]
      cases hclaimed : claim? { cache with accesses := cache.accesses + 1 } with
      | none =>
        rw [hclaimed] at hrun
        cases hrun
      | some claimed =>
        rw [hclaimed] at hrun
        exact assign_outlines s claimed.1 _ _ _ _ hrun

theorem settle_outlines (s : SectorId) : Outlines (δ := δ) (n := n) Eq (settle s) (settle s) :=
  .modify fun _ => rfl

/-- Frames are changed alike, but for their blocks. -/
theorem mapFrame_outlines {i : Fin n} {change change' : Frame → Frame}
    (h : ∀ frame, (change frame).outline = change' frame.outline) :
    Outlines (δ := δ) Eq (Action.modify (mapFrame i change)) (Action.modify (mapFrame i change')) :=
  .modify fun _ => mapFrame_outline (h _)

theorem amendFrame_outlines (i : Fin n) (change : Block → Block) :
    Outlines (δ := δ) Eq (amendFrame i change) (amendFrame i fun _ => Block.zero) :=
  mapFrame_outlines fun _ => rfl

theorem frameData_outlines (i : Fin n) : Outlines (δ := δ) Hidden (frameData i) (frameData i) :=
  .get fun cache => by rw [frame_outline]; rfl

variable [BlockDevice δ]

theorem readDevice_outlines (s : SectorId) :
    Outlines (δ := δ) (n := n) Hidden (readDevice s) (readDevice s) := by
  rintro cache a cache' log hrun
  unfold readDevice at hrun
  rcases hread : BlockDevice.read s cache.device with ⟨_ | block, device⟩
  · rw [hread] at hrun
    cases hrun
  · rw [hread] at hrun
    cases hrun
    exact ⟨Block.zero, rfl, rfl⟩

theorem writeDevice_outlines (s : SectorId) (b b' : Block) :
    Outlines (δ := δ) (n := n) Eq (writeDevice s b) (writeDevice s b') := by
  rintro cache a cache' log hrun
  unfold writeDevice at hrun
  rcases hwrite : BlockDevice.write s b cache.device with ⟨_ | _, device⟩
  · rw [hwrite] at hrun
    cases hrun
  · rw [hwrite] at hrun
    cases hrun
    exact ⟨(), rfl, rfl⟩

theorem spill_outlines (i : Fin n) (s : SectorId) : Outlines (δ := δ) Eq (spill i s) (spill i s) :=
  .bind (frameData_outlines i) fun _ =>
    .bind (writeDevice_outlines s _ _) fun _ => mapFrame_outlines fun _ => rfl

theorem fetch_outlines (i : Fin n) (s : SectorId) (fill : Fill) :
    Outlines (δ := δ) Eq (fetch i s fill) (fetch i s fill) := by
  have hload : Outlines (δ := δ) Eq (do
      Action.emit (.loaded s i.val)
      Action.modify (mapFrame i fun frame => { frame with dirty := false, valid := true }))
      (do
      Action.emit (.loaded s i.val)
      Action.modify (mapFrame i fun frame => { frame with dirty := false, valid := true })) :=
    .bind (.emit _) fun _ => mapFrame_outlines fun _ => rfl
  cases fill with
  | readThrough =>
    apply Outlines.bind (readDevice_outlines s)
    rintro _ _ rfl
    exact .bind (mapFrame_outlines fun _ => rfl) fun _ => hload
  | overwrite => exact hload

theorem acquire_outlines (fill : Fill) (s : SectorId) :
    Outlines (δ := δ) (n := n) Eq (acquire fill s) (acquire fill s) := by
  apply Outlines.bind (seek_outlines s)
  rintro found _ rfl
  cases found with
  | hit i => exact .pure rfl
  | busy i =>
    intro _ _ _ _ hrun
    cases hrun
  | miss i displaced =>
    apply Outlines.onFault
    cases displaced with
    | none => exact .bind (fetch_outlines i s fill) fun _ => .pure rfl
    | some old =>
      exact .bind (spill_outlines i old) fun _ => .bind (settle_outlines old) fun _ =>
        .bind (fetch_outlines i s fill) fun _ => .pure rfl

theorem withFrame_outlines {R : α → β → Prop} {body : Fin n → Action (Cache δ n) α}
    {body' : Fin n → Action (Cache Husk n) β} (fill : Fill) (s : SectorId)
    (h : ∀ i, Outlines R (body i) (body' i)) :
    Outlines R (withFrame fill s body) (withFrame fill s body') := by
  apply Outlines.bind (acquire_outlines fill s)
  rintro i _ rfl
  exact (h i).always (unpin_outline i)

/-! ## Sectors -/

theorem view_outlines (s : SectorId) : Outlines (δ := δ) (n := n) Hidden (view s) (view s) :=
  withFrame_outlines .readThrough s frameData_outlines

theorem store_outlines (s : SectorId) (b : Block) :
    Outlines (δ := δ) (n := n) Eq (store s b) (store s Block.zero) :=
  withFrame_outlines .overwrite s fun i => amendFrame_outlines i _

theorem update_outlines (s : SectorId) (change : Block → Block) :
    Outlines (δ := δ) (n := n) Eq (update s change) (update s fun _ => Block.zero) :=
  withFrame_outlines .readThrough s fun i => amendFrame_outlines i change

/-! ## The whole cache -/

theorem writeBack_outlines (i : Fin n) : Outlines (δ := δ) Eq (writeBack i) (writeBack i) := by
  have hclean : Outlines (δ := δ) Eq
      (Action.modify (mapFrame i fun frame => { frame with dirty := false }))
      (Action.modify (mapFrame i fun frame => { frame with dirty := false })) :=
    mapFrame_outlines fun _ => rfl
  apply Outlines.bind (R := fun frame frame' => frame' = frame.outline)
    (.get fun cache => frame_outline cache i)
  rintro ⟨sector, data, dirty, valid, pins⟩ _ rfl
  cases dirty with
  | false => exact .pure rfl
  | true =>
    cases sector with
    | none => exact hclean
    | some s => exact .bind (.emit _) fun _ => .bind (writeDevice_outlines s _ _) fun _ => hclean

theorem writeBackAll_outlines (frames : List (Fin n)) :
    Outlines (δ := δ) Eq (writeBackAll frames) (writeBackAll frames) := by
  induction frames with
  | nil => exact .pure rfl
  | cons i rest ih => exact .bind (writeBack_outlines i) fun _ => ih

theorem flush_outlines : Outlines (δ := δ) (n := n) Eq flush flush :=
  fun cache => writeBackAll_outlines cache.recency.reverse cache

omit [BlockDevice δ] in
theorem foldl_outline (frames : List (Fin n)) {change : Frame → Frame}
    (h : ∀ frame, (change frame).outline = change frame.outline) (cache : Cache δ n) :
    (frames.foldl (fun cache i => cache.mapFrame i change) cache).outline =
      frames.foldl (fun cache i => cache.mapFrame i change) cache.outline := by
  induction frames generalizing cache with
  | nil => rfl
  | cons i rest ih => rw [List.foldl_cons, List.foldl_cons, ih, mapFrame_outline (h _)]

omit [BlockDevice δ] in
theorem forget_outlines : Outlines (δ := δ) (n := n) Eq forget forget := by
  intro cache a cache' log hrun
  have hkeeps : (fun i => (cache.outline.frame i).pins != 0 || (cache.outline.frame i).dirty) =
      fun i => (cache.frame i).pins != 0 || (cache.frame i).dirty :=
    funext fun i => by rw [frame_outline]; rfl
  cases hrun
  refine ⟨(), rfl, ?_⟩
  unfold forget
  rw [hkeeps]
  have hdrop (frame : Frame) : ({ frame with sector := none, valid := false } : Frame).outline =
      { frame.outline with sector := none, valid := false } := rfl
  have hdropped := foldl_outline (cache.recency.partition fun i =>
    (cache.frame i).pins != 0 || (cache.frame i).dirty).2 hdrop cache
  simp only [show cache.outline.recency = cache.recency from rfl, ← hdropped]
  rfl

theorem reset_outlines : Outlines (δ := δ) (n := n) Eq reset reset :=
  .bind flush_outlines fun _ => forget_outlines

/-- **Two caches with one outline** do the same with it. -/
theorem Outlines.agree {δ₁ δ₂ : Type} {R₁ : α → β → Prop} {R₂ : α' → β → Prop}
    {action₁ : Action (Cache δ₁ n) α} {action₂ : Action (Cache δ₂ n) α'}
    {outlined : Action (Cache Husk n) β} (h₁ : Outlines R₁ action₁ outlined)
    (h₂ : Outlines R₂ action₂ outlined) {cache₁ cache₁' : Cache δ₁ n} {cache₂ cache₂' : Cache δ₂ n}
    {a₁ : α} {a₂ : α'} {log₁ log₂ : List Event} (hrun₁ : action₁ cache₁ = ⟨.ok a₁, cache₁', log₁⟩)
    (hrun₂ : action₂ cache₂ = ⟨.ok a₂, cache₂', log₂⟩) (h : cache₁.outline = cache₂.outline) :
    cache₁'.outline = cache₂'.outline ∧ log₁ = log₂ := by
  obtain ⟨b₁, -, houtlined₁⟩ := h₁ _ _ _ _ hrun₁
  obtain ⟨b₂, -, houtlined₂⟩ := h₂ _ _ _ _ hrun₂
  rw [h, houtlined₂] at houtlined₁
  obtain ⟨-, hstate, hlog⟩ := Reply.mk.inj houtlined₁
  exact ⟨hstate.symm, hlog.symm⟩

end Cache
end InodeStore
