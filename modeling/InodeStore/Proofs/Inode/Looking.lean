import InodeStore.Proofs.Inode.Files
import InodeStore.Proofs.Store.Accesses

/-!
# `Proofs.Inode.Looking` — the blocks that a walk looks at

A walk over the sectors of a file looks at the file's index blocks, each of them once and in the order of
the walk, whatever is done with the sectors it visits (`visitOwned_uses`). So the list of a file's sectors
is made from the same blocks as the file is given back from (`FileAt.ownedSectors_uses`,
`FileAt.giveBack_uses`). But a file is given back while it is walked over: each index block is looked at
just after its sector was given back (`giveBack_viewsReleased`).
-/

namespace InodeStore.Inode

open Routine

variable {β : Type} {guarded : Bool} {visit : β → SectorId → Routine β} {p p' : Plain} {d : Descriptor}
  {f : FileRecord} {a a' : β} {l : List SectorId} {place : Position} {walk : Walk β} {k : Nat}
  {x s : SectorId}

/-! ## Sectors of index blocks -/

/-- The sectors of the index blocks among some spots. -/
def indexSectors (b : SectorArray) (d : Descriptor) (l : List Spot) : List SectorId :=
  (l.filter Spot.isIndex).map (sectorOf b d)

theorem indexSectors_append (b : SectorArray) (d : Descriptor) (l l' : List Spot) :
    indexSectors b d (l ++ l') = indexSectors b d l ++ indexSectors b d l' := by
  simp [indexSectors]

theorem indexSectors_ite {b : SectorArray} {c : Prop} [Decidable c] {t : Spot} (ht : t.isIndex = true) :
    indexSectors b d (if c then [t] else []) = if c then [sectorOf b d t] else [] := by
  by_cases hc : c <;> simp [indexSectors, hc, ht]

theorem indexSectors_data (b : SectorArray) (d : Descriptor) (place : Position) :
    indexSectors b d [.data place] = [] := rfl

/-! ## Walks -/

section Walk

variable {δ : Type} {n : Nat} [BlockDevice δ] [LawfulDevice δ] (hn : 0 < n)
  (hvisit : ∀ a s q, Uses δ n (visit a s) q [])
include hn hvisit

/-- An index block is looked at if it is its turn. -/
theorem index_uses {c : Prop} [Decidable c] (take : Walk β → Block → Walk β)
    (hs : c → p.Permits guarded s)
    (h : Tours guarded visit (if c then [s] else []) walk.state p a' p') :
    Uses δ n (if c then visit walk.state s >>= fun state =>
        view s >>= fun block => pure (take { walk with state } block) else pure walk) p
      (if c then [s] else []) := by
  by_cases hc : c
  · simp only [if_pos hc] at h ⊢
    exact (hvisit _ _ _).bind h.of_singleton hn
      ((Uses.view s).bind (Runs.view (h.permits (hs hc))) hn (Uses.pure _))
  · simp only [if_neg hc]
    exact Uses.pure walk

theorem last_uses (h : Tours guarded visit [s] walk.state p a' p') :
    Uses δ n (visit walk.state s >>= fun state => pure { walk with state }) p [] :=
  (hvisit _ _ _).bind h.of_singleton hn (Uses.pure _)

/-- A visit of a block looks at the index blocks before it. -/
theorem visitBlock_uses (hb : Bringing p.block d walk place)
    (hpermits : ∀ t ∈ spotsAt place, t.isIndex = true → p.Permits guarded (sectorOf p.block d t))
    (h : Tours guarded visit ((spotsAt place).map (sectorOf p.block d)) walk.state p a' p') :
    Uses δ n (visitBlock visit d walk place) p (indexSectors p.block d (spotsAt place)) := by
  cases place with
  | direct slot => exact last_uses hn hvisit h
  | indirect slot =>
    rw [spotsAt, List.map_append, map_ite] at h
    obtain ⟨a₁, p₁, hfirst, hlast⟩ := h.of_append
    have hs : slot.val = 0 → p.Permits guarded d.indirect :=
      fun hc => hpermits .index (by simp [spotsAt, hc]) rfl
    obtain ⟨walk₁, hrun, hstate, hindex⟩ := index_at_hand hb hs hfirst
    rw [visitBlock_indirect, spotsAt, indexSectors_append, indexSectors_ite rfl, indexSectors_data]
    refine (index_uses hn hvisit (fun walk index => { walk with index }) hs hfirst).bind hrun hn ?_
    apply last_uses hn hvisit
    rw [hstate, hindex]
    exact hlast
  | doubly outer inner =>
    rw [spotsAt, List.map_append, List.map_append, map_ite, map_ite] at h
    obtain ⟨a₁, p₁, hfirst, hrest⟩ := h.of_append
    obtain ⟨a₂, p₂, hsecond, hlast⟩ := hrest.of_append
    have hs : outer.val = 0 ∧ inner.val = 0 → p.Permits guarded d.doublyIndirect :=
      fun hc => hpermits .outerIndex (by simp [spotsAt, hc]) rfl
    have hs' : inner.val = 0 → p.Permits guarded ((p.block d.doublyIndirect).pointer outer) :=
      fun hc => hpermits (.innerIndex outer) (by simp [spotsAt, hc]) rfl
    obtain ⟨walk₁, hrun₁, hstate₁, houter₁, hindex₁⟩ := outerIndex_at_hand hb hs hfirst
    -- the inner index block hangs on the outer one, which no visit has changed
    have hblock := hfirst.block_eq
    have hpointer : walk₁.outerIndex.pointer outer = (p.block d.doublyIndirect).pointer outer :=
      congrArg (Block.pointer · outer) houter₁
    rw [← hstate₁] at hsecond
    obtain ⟨walk₂, hrun₂, hstate₂, houter₂, hindex₂⟩ :=
      innerIndex_at_hand houter₁ (fun hne => hblock ▸ hindex₁ hne)
        (fun hc => hfirst.permits (hs' hc)) hpointer hsecond
    rw [visitBlock_doubly, spotsAt, indexSectors_append, indexSectors_append, indexSectors_ite rfl,
      indexSectors_ite rfl, indexSectors_data]
    refine (index_uses hn hvisit (fun walk outerIndex => { walk with outerIndex }) hs hfirst).bind
      hrun₁ hn (Uses.bind ?_ hrun₂ hn ?_)
    · rw [hpointer]
      exact index_uses hn hvisit (fun walk index => { walk with index })
        (fun hc => hfirst.permits (hs' hc)) hsecond
    · apply last_uses hn hvisit
      rw [hstate₂, hindex₂, hblock]
      exact hlast

theorem visitFrom_uses {count : Nat} (hk : k + count ≤ maxFileBlocks)
    (hb : ∀ place, Position.of? k = some place → Bringing p.block d walk place)
    (hpermits : ∀ t ∈ spotsFrom k count, t.isIndex = true → p.Permits guarded (sectorOf p.block d t))
    (h : Tours guarded visit ((spotsFrom k count).map (sectorOf p.block d)) walk.state p a' p') :
    Uses δ n (visitFrom visit d k walk count) p (indexSectors p.block d (spotsFrom k count)) := by
  -- no visit changes a block, so the index blocks of all spots are those of the start
  induction count generalizing k walk p with
  | zero => exact Uses.pure _
  | succ count ih =>
    obtain ⟨place, hplace⟩ := Option.isSome_iff_exists.mp ((Position.of?_isSome k).mpr (by omega))
    rw [spotsFrom, spotsOf_of_of? hplace] at h hpermits ⊢
    rw [List.map_append] at h
    obtain ⟨a₁, p₁, hfirst, hrest⟩ := h.of_append
    have hpermits₁ : ∀ t ∈ spotsAt place, t.isIndex = true → p.Permits guarded (sectorOf p.block d t) :=
      fun t ht => hpermits t (List.mem_append_left _ ht)
    obtain ⟨walk₁, hrun, hstate, hholding⟩ := visitBlock_runs (hb place hplace) hpermits₁ hfirst
    have hblock := hfirst.block_eq
    rw [visitFrom, indexSectors_append]
    simp only [hplace]
    refine (visitBlock_uses hn hvisit (hb place hplace) hpermits₁ hfirst).bind hrun hn ?_
    rw [← hblock]
    refine ih (by omega) ?_ ?_ ?_
    · intro place' hplace'
      rw [hblock]
      exact hholding.next hplace hplace'
    · intro t ht hi
      rw [hblock]
      exact hfirst.permits (hpermits t (List.mem_append_right _ ht) hi)
    · rw [hblock, hstate]
      exact hrest

/-- **A walk over a file** looks at the file's index blocks. -/
theorem visitOwned_uses (hsize : d.size ≤ maxFileSize)
    (hpermits : ∀ t ∈ spots (dataBlocks d.size), t.isIndex = true →
      p.Permits guarded (sectorOf p.block d t))
    (h : Tours guarded visit (tree p.block d (dataBlocks d.size)) a p a' p') :
    Uses δ n (visitOwned visit a d) p (indexSectors p.block d (spots (dataBlocks d.size))) := by
  have hblocks := dataBlocks_le hsize
  refine visitFrom_uses hn hvisit (by omega) ?_ hpermits h
  intro place hplace
  obtain rfl : place = .direct 0 := (Option.some.inj hplace).symm
  trivial

end Walk

/-! ## Files -/

section Files

variable {δ : Type} {n : Nat} [BlockDevice δ] [LawfulDevice δ]

omit [LawfulDevice δ] in
/-- To load a descriptor its block is looked at, and nothing else. -/
theorem load_accesses (store : Store δ n) (released : Option SectorId) (x : SectorId) :
    store.accesses released (load x) = [⟨x, store.freeMap, released⟩] := by
  apply store.accesses_perform_bind
  intro store released block
  dsimp only
  split
  · rfl
  · split <;> rfl

theorem load_uses : Uses δ n (load x) p [x] := fun store released _ =>
  congrArg (List.map Access.sector) (load_accesses store released x)

/-- The blocks that are looked at to list the sectors of a file. -/
def FileAt.looks (p : Plain) (x : SectorId) (d : Descriptor) : List SectorId :=
  x :: indexSectors p.block d (spots (dataBlocks d.size))

/-- The list of a file's sectors is made from its descriptor and its index blocks. -/
theorem FileAt.ownedSectors_uses (h : FileAt p x d f) (hn : 0 < n) :
    Uses δ n (ownedSectors x) p (looks p x d) := by
  have htour := tours_list (p := p) true f.owned []
  rw [← h.record.owned] at htour
  have hopen : ∀ t ∈ spots (dataBlocks d.size), t.isIndex = true →
      p.Permits true (sectorOf p.block d t) := fun t ht _ => h.hung.open t ht
  have hwalk := visitOwned_uses (δ := δ) hn (fun _ _ _ => Uses.pure _) h.record.stored.size hopen htour
  have hrun := visitOwned_runs h.record.stored.size hopen htour
  have hlist := hwalk.bind (f := fun visited => (pure (x :: visited).reverse : Routine (List SectorId)))
    hrun hn (Uses.pure _)
  rw [List.append_nil] at hlist
  exact load_uses.bind h.load_runs hn hlist

/-- A file is given back. -/
def giveBack (x : SectorId) (d : Descriptor) : Routine Unit := do
  let released ← visitOwned (fun released s => do release s; return released + 1) 0 d
  release x
  emit (.inodeReleased x released)

theorem FileAt.giveBack_uses (h : FileAt p x d f) (hn : 0 < n) :
    Uses δ n (giveBack x d) p (indexSectors p.block d (spots (dataBlocks d.size))) := by
  have hmem : ∀ s ∈ f.owned, s.toNat < p.freeMap.sectors ∧ p.freeMap.taken s.toNat = true :=
    fun s hs => h.mem (List.mem_append_left _ hs)
  have htour := tours_release h.hung.lawful (List.nodup_append.mp h.nodup).1 hmem 0
  rw [← h.record.owned] at htour
  have hopen : ∀ t ∈ spots (dataBlocks d.size), t.isIndex = true →
      p.Permits false (sectorOf p.block d t) := fun t ht _ => ⟨(h.hung.open t ht).1, nofun⟩
  have hwalk := visitOwned_uses (δ := δ) hn (fun _ _ _ => ?_) h.record.stored.size hopen htour
  · have hrun := visitOwned_runs h.record.stored.size hopen htour
    rw [← List.append_nil (indexSectors _ _ _)]
    apply hwalk.bind hrun hn
    intro store released _
    exact congrArg (List.map Access.sector) (store.accesses_perform_bind released
      fun store released _ => store.accesses_perform released _)
  · intro store released _
    exact congrArg (List.map Access.sector) (store.accesses_perform_bind released fun _ _ _ => rfl)

end Files

/-! ## Files that are given back -/

theorem viewsReleased_release (released : Option SectorId) (count : Nat) :
    (release s >>= fun _ => pure (count + 1) : Routine Nat).ViewsReleased released := by
  refine ⟨fun _ hs => (by cases hs), ?_⟩
  intro answer
  cases answer <;> trivial

/-- A sector is given back, and its block is then looked at. -/
theorem viewsReleased_index (released : Option SectorId) (count : Nat) (take : Nat → Block → Walk Nat) :
    (release s >>= fun _ => pure (count + 1) >>= fun count => view s >>= fun block =>
      pure (take count block) : Routine (Walk Nat)).ViewsReleased released := by
  refine ⟨fun _ hs => (by cases hs), ?_⟩
  intro answer
  cases answer with
  | error e => trivial
  | ok done =>
    refine ⟨fun t ht => ht, ?_⟩
    intro answer
    cases answer <;> trivial

/-- A block that is looked at while a file is given back was given back just before. -/
theorem visitBlock_viewsReleased (walk : Walk Nat) (released : Option SectorId) :
    (visitBlock (fun released s => do release s; return released + 1) d walk place).ViewsReleased
      released := by
  have hlast : ∀ (walk : Walk Nat) (s : SectorId) (released : Option SectorId),
      ((do release s; return walk.state + 1) >>= fun state =>
        (pure { walk with state } : Routine (Walk Nat))).ViewsReleased released :=
    fun walk s released => (viewsReleased_release released _).bind fun _ _ => trivial
  cases place with
  | direct slot => exact hlast walk _ released
  | indirect slot =>
    rw [visitBlock_indirect]
    refine Routine.ViewsReleased.bind ?_ fun walk released => hlast walk _ released
    split
    · rw [bind_assoc]
      exact viewsReleased_index released _ fun state index => { walk with state, index }
    · trivial
  | doubly outer inner =>
    rw [visitBlock_doubly]
    refine Routine.ViewsReleased.bind ?_ fun walk released => Routine.ViewsReleased.bind ?_
      fun walk released => hlast walk _ released
    · split
      · rw [bind_assoc]
        exact viewsReleased_index released _ fun state outerIndex => { walk with state, outerIndex }
      · trivial
    · split
      · rw [bind_assoc]
        exact viewsReleased_index released _ fun state index => { walk with state, index }
      · trivial

/-- **A file is given back** while it is walked over: no block is looked at whose sector was not given back
    just before. -/
theorem giveBack_viewsReleased (released : Option SectorId) : (giveBack x d).ViewsReleased released := by
  have hwalk : ∀ (count k : Nat) (walk : Walk Nat) (released : Option SectorId),
      (visitFrom (fun released s => do release s; return released + 1) d k walk count).ViewsReleased
        released := by
    intro count
    induction count with
    | zero => exact fun _ _ _ => trivial
    | succ count ih =>
      intro k walk released
      rw [visitFrom]
      split
      · trivial
      · exact (visitBlock_viewsReleased walk released).bind fun walk released => ih _ walk released
  refine (hwalk _ _ _ released).bind ?_
  intro count released
  refine ⟨fun _ hs => (by cases hs), ?_⟩
  intro answer
  cases answer with
  | error e => trivial
  | ok done =>
    refine ⟨fun _ hs => (by cases hs), ?_⟩
    intro answer
    cases answer <;> trivial

end InodeStore.Inode
