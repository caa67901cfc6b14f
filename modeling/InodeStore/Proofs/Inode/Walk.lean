import InodeStore.Proofs.Inode.Layout
import InodeStore.Proofs.Store.Plain

/-!
# `Proofs.Inode.Walk` — going through all sectors of a file

`visitOwned` looks at an index block once and carries it along. What it visits are the sectors of `tree`,
in that order (`visitOwned_runs`): as long as no visit changes a block, the index blocks carried along
are those that the spots hang on (`Holding`, `Bringing`). `ownedSectors` lists them and `releaseInode`
gives them back.
-/

namespace InodeStore.Inode

open Routine

variable {β : Type} {guarded : Bool} {visit : β → SectorId → Routine β} {p p' : Plain} {d : Descriptor}
  {a a' : β} {l l' : List SectorId} {place : Position} {walk : Walk β} {k n : Nat}

/-! ## Visits one after the other -/

/-- Sectors are visited one after the other. No visit changes a block or takes away the right to use
    one. -/
inductive Tours (guarded : Bool) (visit : β → SectorId → Routine β) :
    List SectorId → β → Plain → β → Plain → Prop where
  | nil {a : β} {p : Plain} : Tours guarded visit [] a p a p
  | cons {s : SectorId} {rest : List SectorId} {a a₁ a₂ : β} {p p₁ p₂ : Plain}
      (hvisit : Runs guarded (visit a s) p (.ok a₁) p₁) (hblock : p₁.block = p.block)
      (hpermits : ∀ s, p.Permits guarded s → p₁.Permits guarded s)
      (hrest : Tours guarded visit rest a₁ p₁ a₂ p₂) : Tours guarded visit (s :: rest) a p a₂ p₂

theorem Tours.block_eq (h : Tours guarded visit l a p a' p') : p'.block = p.block := by
  induction h with
  | nil => rfl
  | cons _ hblock _ _ ih => exact ih.trans hblock

theorem Tours.permits (h : Tours guarded visit l a p a' p') {s : SectorId}
    (hs : p.Permits guarded s) : p'.Permits guarded s := by
  induction h with
  | nil => exact hs
  | cons _ _ hpermits _ ih => exact ih (hpermits s hs)

theorem Tours.of_append (h : Tours guarded visit (l ++ l') a p a' p') :
    ∃ a₁ p₁, Tours guarded visit l a p a₁ p₁ ∧ Tours guarded visit l' a₁ p₁ a' p' := by
  induction l generalizing a p with
  | nil => exact ⟨a, p, .nil, h⟩
  | cons s rest ih =>
    cases h with
    | cons hvisit hblock hpermits hrest =>
      obtain ⟨a₂, p₂, hfirst, hsecond⟩ := ih hrest
      exact ⟨a₂, p₂, .cons hvisit hblock hpermits hfirst, hsecond⟩

theorem Tours.of_singleton {s : SectorId} (h : Tours guarded visit [s] a p a' p') :
    Runs guarded (visit a s) p (.ok a') p' := by
  cases h with
  | cons hvisit _ _ hrest =>
    cases hrest
    exact hvisit

/-! ## One block -/

/-- The index blocks carried along are those that the block at a place hangs on. -/
def Holding (b : SectorArray) (d : Descriptor) (walk : Walk β) : Position → Prop
  | .direct _ => True
  | .indirect _ => walk.index = b d.indirect
  | .doubly outer _ =>
    walk.outerIndex = b d.doublyIndirect ∧ walk.index = b ((b d.doublyIndirect).pointer outer)

/-- The index blocks carried along are those that the block at a place hangs on, but for those that are
    visited just before it. -/
def Bringing (b : SectorArray) (d : Descriptor) (walk : Walk β) : Position → Prop
  | .direct _ => True
  | .indirect slot => slot.val ≠ 0 → walk.index = b d.indirect
  | .doubly outer inner =>
    (¬ (outer.val = 0 ∧ inner.val = 0) → walk.outerIndex = b d.doublyIndirect) ∧
      (inner.val ≠ 0 → walk.index = b ((b d.doublyIndirect).pointer outer))

/-- What was held at a block is brought to the next one. -/
theorem Holding.next {b : SectorArray} {place' : Position} (hplace : Position.of? k = some place)
    (hplace' : Position.of? (k + 1) = some place') (h : Holding b d walk place) :
    Bringing b d walk place' := by
  have hk := Position.number_of_of? hplace
  have hk' := Position.number_of_of? hplace'
  -- the next block is in the same index block, or it is the first one of another
  cases place' with
  | direct slot => trivial
  | indirect slot =>
    intro hne
    have hnumber : 12 + slot.val = k + 1 := hk'
    cases place with
    | direct slot' =>
      have : slot'.val = k := hk
      omega
    | indirect slot' => exact h
    | doubly outer inner =>
      have : 140 + 128 * outer.val + inner.val = k := hk
      omega
  | doubly outer inner =>
    have hnumber : 140 + 128 * outer.val + inner.val = k + 1 := hk'
    cases place with
    | direct slot' =>
      have : slot'.val = k := hk
      omega
    | indirect slot' =>
      have : 12 + slot'.val = k := hk
      exact ⟨fun hne => by omega, fun hne => by omega⟩
    | doubly outer' inner' =>
      have : 140 + 128 * outer'.val + inner'.val = k := hk
      refine ⟨fun _ => h.1, ?_⟩
      intro hne
      have houter : outer' = outer := Fin.ext (by omega)
      exact houter ▸ h.2

/-- The routine that visits a block and the index block before it, as a sequence. -/
theorem visitBlock_indirect {slot : Fin 128} :
    visitBlock visit d walk (.indirect slot) =
      (if slot.val = 0 then visit walk.state d.indirect >>= fun state =>
          view d.indirect >>= fun index => pure { walk with state, index }
        else pure walk) >>= fun walk =>
          visit walk.state (walk.index.pointer slot) >>= fun state => pure { walk with state } := by
  by_cases h : slot.val = 0
  · simp only [visitBlock, h, if_true, bind_assoc, pure_bind]
  · simp only [visitBlock, h, if_false, pure_bind]

/-- The routine that visits a block and the index blocks before it, as a sequence. -/
theorem visitBlock_doubly {outer inner : Fin 128} :
    visitBlock visit d walk (.doubly outer inner) =
      (if outer.val = 0 ∧ inner.val = 0 then visit walk.state d.doublyIndirect >>= fun state =>
          view d.doublyIndirect >>= fun outerIndex => pure { walk with state, outerIndex }
        else pure walk) >>= fun walk =>
          (if inner.val = 0 then visit walk.state (walk.outerIndex.pointer outer) >>= fun state =>
              view (walk.outerIndex.pointer outer) >>= fun index => pure { walk with state, index }
            else pure walk) >>= fun walk =>
              visit walk.state (walk.index.pointer inner) >>= fun state => pure { walk with state } := by
  by_cases houter : outer.val = 0
  · by_cases hinner : inner.val = 0
    · simp only [visitBlock, houter, hinner, and_self, if_true, bind_assoc, pure_bind]
    · simp only [visitBlock, houter, hinner, and_false, if_false, pure_bind]
  · by_cases hinner : inner.val = 0
    · simp only [visitBlock, houter, hinner, false_and, if_true, if_false, bind_assoc, pure_bind]
    · simp only [visitBlock, houter, hinner, false_and, if_false, pure_bind]

/-- An index block is visited and looked at, if it is its turn. -/
theorem index_runs {c : Prop} [Decidable c] {s : SectorId} (take : Walk β → Block → Walk β)
    (htake : ∀ walk block, (take walk block).state = walk.state) (hs : c → p.Permits guarded s)
    (h : Tours guarded visit (if c then [s] else []) walk.state p a' p') :
    ∃ walk', Runs guarded (if c then visit walk.state s >>= fun state =>
        view s >>= fun block => pure (take { walk with state } block) else pure walk) p (.ok walk') p' ∧
      walk'.state = a' ∧ (c → walk' = take { walk with state := a' } (p.block s)) ∧
      (¬ c → walk' = walk) := by
  by_cases hc : c
  · simp only [if_pos hc] at h ⊢
    have hview := Runs.view (h.permits (hs hc))
    rw [h.block_eq] at hview
    exact ⟨_, h.of_singleton.bind (hview.bind (Runs.pure _)), htake _ _, fun _ => rfl,
      fun hn => absurd hc hn⟩
  · simp only [if_neg hc] at h ⊢
    cases h
    exact ⟨walk, Runs.pure walk, rfl, fun h => absurd h hc, fun _ => rfl⟩

theorem map_ite {α γ : Type} {c : Prop} [Decidable c] (f : α → γ) (x : α) :
    (if c then [x] else []).map f = if c then [f x] else [] := by
  by_cases hc : c
  · rw [if_pos hc, if_pos hc]
    rfl
  · rw [if_neg hc, if_neg hc]
    rfl

/-- The last visit of a block is that of the block itself. -/
theorem last_runs {s : SectorId} (h : Tours guarded visit [s] walk.state p a' p') :
    Runs guarded (visit walk.state s >>= fun state => pure { walk with state }) p
      (.ok { walk with state := a' }) p' :=
  h.of_singleton.bind (Runs.pure _)

/-- The index block of the first level is at hand after its turn. -/
theorem index_at_hand {slot : Fin 128} (hb : Bringing p.block d walk (.indirect slot))
    (hs : slot.val = 0 → p.Permits guarded d.indirect)
    (h : Tours guarded visit (if slot.val = 0 then [d.indirect] else []) walk.state p a' p') :
    ∃ walk', Runs guarded (if slot.val = 0 then visit walk.state d.indirect >>= fun state =>
        view d.indirect >>= fun index => pure { walk with state, index } else pure walk) p
        (.ok walk') p' ∧ walk'.state = a' ∧ walk'.index = p.block d.indirect := by
  obtain ⟨walk', hrun, hstate, hnew, hold⟩ :=
    index_runs (fun walk index => { walk with index }) (fun _ _ => rfl) hs h
  refine ⟨walk', hrun, hstate, ?_⟩
  by_cases hc : slot.val = 0
  · rw [hnew hc]
  · rw [hold hc]
    exact hb hc

/-- The outer index block is at hand after its turn, and an inner one that was at hand still is. -/
theorem outerIndex_at_hand {outer inner : Fin 128} (hb : Bringing p.block d walk (.doubly outer inner))
    (hs : outer.val = 0 ∧ inner.val = 0 → p.Permits guarded d.doublyIndirect)
    (h : Tours guarded visit (if outer.val = 0 ∧ inner.val = 0 then [d.doublyIndirect] else [])
      walk.state p a' p') :
    ∃ walk', Runs guarded (if outer.val = 0 ∧ inner.val = 0 then
        visit walk.state d.doublyIndirect >>= fun state =>
          view d.doublyIndirect >>= fun outerIndex => pure { walk with state, outerIndex }
        else pure walk) p (.ok walk') p' ∧ walk'.state = a' ∧
      walk'.outerIndex = p.block d.doublyIndirect ∧
      (inner.val ≠ 0 → walk'.index = p.block ((p.block d.doublyIndirect).pointer outer)) := by
  obtain ⟨walk', hrun, hstate, hnew, hold⟩ :=
    index_runs (fun walk outerIndex => { walk with outerIndex }) (fun _ _ => rfl) hs h
  refine ⟨walk', hrun, hstate, ?_, ?_⟩
  · by_cases hc : outer.val = 0 ∧ inner.val = 0
    · rw [hnew hc]
    · rw [hold hc]
      exact hb.1 hc
  · intro hne
    rw [hold fun hc => hne hc.2]
    exact hb.2 hne

/-- The inner index block is at hand after its turn, and the outer one still is. -/
theorem innerIndex_at_hand {outer inner : Fin 128} {s : SectorId} {b : Block}
    (houter : walk.outerIndex = b) (hindex : inner.val ≠ 0 → walk.index = p.block s)
    (hs : inner.val = 0 → p.Permits guarded s) (hpointer : walk.outerIndex.pointer outer = s)
    (h : Tours guarded visit (if inner.val = 0 then [s] else []) walk.state p a' p') :
    ∃ walk', Runs guarded (if inner.val = 0 then
        visit walk.state (walk.outerIndex.pointer outer) >>= fun state =>
          view (walk.outerIndex.pointer outer) >>= fun index => pure { walk with state, index }
        else pure walk) p (.ok walk') p' ∧ walk'.state = a' ∧ walk'.outerIndex = b ∧
      walk'.index = p.block s := by
  rw [hpointer]
  obtain ⟨walk', hrun, hstate, hnew, hold⟩ :=
    index_runs (fun walk index => { walk with index }) (fun _ _ => rfl) hs h
  by_cases hc : inner.val = 0
  · have hwalk := hnew hc
    refine ⟨walk', hrun, hstate, ?_, ?_⟩
    · rw [hwalk]
      exact houter
    · rw [hwalk]
  · have hwalk := hold hc
    refine ⟨walk', hrun, hstate, ?_, ?_⟩
    · rw [hwalk]
      exact houter
    · rw [hwalk]
      exact hindex hc

/-- **A block** and the index blocks before it are visited. -/
theorem visitBlock_runs (hb : Bringing p.block d walk place)
    (hpermits : ∀ t ∈ spotsAt place, t.isIndex = true → p.Permits guarded (sectorOf p.block d t))
    (h : Tours guarded visit ((spotsAt place).map (sectorOf p.block d)) walk.state p a' p') :
    ∃ walk', Runs guarded (visitBlock visit d walk place) p (.ok walk') p' ∧ walk'.state = a' ∧
      Holding p.block d walk' place := by
  cases place with
  | direct slot => exact ⟨_, last_runs h, rfl, trivial⟩
  | indirect slot =>
    rw [spotsAt, List.map_append, map_ite] at h
    obtain ⟨a₁, p₁, hfirst, hlast⟩ := h.of_append
    obtain ⟨walk₁, hrun, hstate, hindex⟩ :=
      index_at_hand hb (fun hc => hpermits .index (by simp [spotsAt, hc]) rfl) hfirst
    rw [visitBlock_indirect]
    refine ⟨{ walk₁ with state := a' }, hrun.bind (last_runs ?_), rfl, hindex⟩
    rw [hstate, hindex]
    exact hlast
  | doubly outer inner =>
    rw [spotsAt, List.map_append, List.map_append, map_ite, map_ite] at h
    obtain ⟨a₁, p₁, hfirst, hrest⟩ := h.of_append
    obtain ⟨a₂, p₂, hsecond, hlast⟩ := hrest.of_append
    obtain ⟨walk₁, hrun₁, hstate₁, houter₁, hindex₁⟩ :=
      outerIndex_at_hand hb (fun hc => hpermits .outerIndex (by simp [spotsAt, hc]) rfl) hfirst
    -- the inner index block hangs on the outer one, which no visit has changed
    have hblock := hfirst.block_eq
    rw [← hstate₁] at hsecond
    obtain ⟨walk₂, hrun₂, hstate₂, houter₂, hindex₂⟩ :=
      innerIndex_at_hand houter₁ (fun hne => hblock ▸ hindex₁ hne)
        (fun hc => hfirst.permits (hpermits (.innerIndex outer) (by simp [spotsAt, hc]) rfl))
        (congrArg (Block.pointer · outer) houter₁) hsecond
    rw [hblock] at hindex₂
    rw [visitBlock_doubly]
    refine ⟨{ walk₂ with state := a' }, hrun₁.bind (hrun₂.bind (last_runs ?_)), rfl, houter₂, hindex₂⟩
    rw [hstate₂, hindex₂]
    exact hlast

/-! ## All blocks -/

theorem visitFrom_runs {count : Nat} (hk : k + count ≤ maxFileBlocks)
    (hb : ∀ place, Position.of? k = some place → Bringing p.block d walk place)
    (hpermits : ∀ t ∈ spotsFrom k count, t.isIndex = true → p.Permits guarded (sectorOf p.block d t))
    (h : Tours guarded visit ((spotsFrom k count).map (sectorOf p.block d)) walk.state p a' p') :
    Runs guarded (visitFrom visit d k walk count) p (.ok a') p' := by
  -- no visit changes a block, so the sectors of all spots are those of the start
  induction count generalizing k walk p with
  | zero =>
    cases h
    exact Runs.pure _
  | succ count ih =>
    obtain ⟨place, hplace⟩ := Option.isSome_iff_exists.mp ((Position.of?_isSome k).mpr (by omega))
    rw [spotsFrom, spotsOf_of_of? hplace] at h hpermits
    rw [List.map_append] at h
    obtain ⟨a₁, p₁, hfirst, hrest⟩ := h.of_append
    obtain ⟨walk₁, hrun, hstate, hholding⟩ := visitBlock_runs (hb place hplace)
      (fun t ht => hpermits t (List.mem_append_left _ ht)) hfirst
    have hblock := hfirst.block_eq
    rw [visitFrom]
    simp only [hplace]
    refine hrun.bind (ih (by omega) ?_ ?_ ?_)
    · intro place' hplace'
      rw [hblock]
      exact hholding.next hplace hplace'
    · intro t ht hi
      rw [hblock]
      exact hfirst.permits (hpermits t (List.mem_append_right _ ht) hi)
    · rw [hblock, hstate]
      exact hrest

/-- **All blocks of a file** are visited in the order they were taken in. -/
theorem visitOwned_runs (hsize : d.size ≤ maxFileSize)
    (hpermits : ∀ t ∈ spots (dataBlocks d.size), t.isIndex = true →
      p.Permits guarded (sectorOf p.block d t))
    (h : Tours guarded visit (tree p.block d (dataBlocks d.size)) a p a' p') :
    Runs guarded (visitOwned visit a d) p (.ok a') p' := by
  have hblocks := dataBlocks_le hsize
  refine visitFrom_runs (by omega) ?_ hpermits h
  intro place hplace
  obtain rfl : place = .direct 0 := (Option.some.inj hplace).symm
  trivial

end InodeStore.Inode
