import InodeStore.Inode.Growth
import InodeStore.Proofs.Inode.Hanging
import InodeStore.Proofs.Store.Filling

/-!
# `Proofs.Inode.Growing` — the routines that lengthen a file

`attach`, `growFrom` and `grow` run as `Grows` says, on the spots of the blocks that are asked for: a
block's index blocks and the block itself are taken in the order of `spotsAt`, and each is put at its
spot before the next one is taken. They look at the file's own index blocks only, so it is enough to know
the sectors of the spots in use (`grow_learns`).
-/

namespace InodeStore.Inode

open Routine

variable {p p' : Plain} {d : Descriptor} {done l : List Spot} {spot up : Spot} {slot : Fin 128}
  {s y : SectorId} {place : Position} {ending : Except Halt Descriptor} {known : SectorId → Prop}

/-! ## One sector -/

/-- The block of a spot in use may be used. -/
theorem Hung.permits (h : Hung p d done) (ht : spot ∈ done) :
    p.Permits true (sectorOf p.block d spot) :=
  ⟨Nat.lt_of_lt_of_le (h.inside spot ht) h.fits, fun _ => h.taken spot ht⟩

theorem takeZeroed_learns (h : Hung p d done) (hs : p.freeMap.nextFree? = some s) :
    Learns true known takeZeroed p (.ok s) (zeroed p s) := by
  have hlt := h.lawful.lt_sectors (h.lawful.nextFree?_free hs)
  have hpermits : ({ p with freeMap := p.freeMap.assign s.toNat true, took := s :: p.took } :
      Plain).Permits true s :=
    ⟨Nat.lt_of_lt_of_le hlt h.fits, fun _ => (taken_zeroed h.lawful hlt s).mpr (Or.inl rfl)⟩
  have hrun : Runs true allocate p (.ok s) _ := .allocate h.lawful hs
  have hallocate : Informed true known allocate p (.ok s) _ known := hrun.informed_of_blind allocate_blind
  have hstore : Informed true known (zeroize s) _ (.ok ()) _ _ := .perform nofun (.store hpermits)
  refine (hallocate.bind (hstore.bind (Informed.pure s))).narrow ?_
  rintro t (ht | ⟨hfree, -, htaken⟩)
  · exact .inr ht
  · -- nothing else was taken
    rcases (taken_zeroed h.lawful hlt t).mp (htaken rfl) with he | ht
    · exact .inl he
    · rw [hfree] at ht
      cases ht

theorem takeZeroed_exhausted (hs : p.freeMap.nextFree? = none) :
    Learns true known takeZeroed p (.error (.refused .allocationExhausted)) p :=
  ((Runs.allocate_exhausted hs).informed_of_blind allocate_blind).bind_halt.narrow
    fun _ => learned_of_same rfl

/-- The slot of a new sector is written. -/
theorem link_learns (h : Hung p d done) (hspot : Fillable done (spot :: l))
    (hs : p.freeMap.nextFree? = some s) (hp : spot.parent? = some (up, slot))
    (hknown : ∀ t ∈ done, known (sectorOf p.block d t)) :
    Learns true known (update (sectorOf p.block d up) (Block.withPointer slot s)) (zeroed p s) (.ok ())
      (hung p d spot s) := by
  have hready := h.ready hspot hs
  have hup := hready.reachable up slot hp
  have hlt := h.lawful.lt_sectors (h.lawful.nextFree?_free hs)
  have hpermits : (zeroed p s).Permits true (sectorOf p.block d up) :=
    ⟨(h.permits hup).1, fun _ => (taken_zeroed h.lawful hlt _).mpr (Or.inr (h.taken up hup))⟩
  have hput : (zeroed p s).put (sectorOf p.block d up)
      ((((zeroed p s).block (sectorOf p.block d up))).withPointer slot s) = hung p d spot s := by
    unfold Plain.put hung
    rw [hready.hang_of_parent hp, show (zeroed p s).block (sectorOf p.block d up) = _ from
      Function.update_of_ne (hready.ne hup) _ _]
    rfl
  refine Learns.perform ?_ (hput ▸ .update hpermits) rfl
  intro t ht
  obtain rfl := Option.some.inj ht
  exact hknown up hup

/-! ## One block -/

/-- A sector for a spot of the descriptor's, if there is one to fill. -/
theorem root_learns {c : Prop} [Decidable c] (h : Hung p d done)
    (hroot : spot.parent? = none) (hg : Grows p d (if c then [spot] else []) ending p') :
    Learns true known (if c then takeZeroed >>= fun s => pure (setRoot d spot s) else pure d) p ending
      p' := by
  by_cases hc : c
  · rw [if_pos hc] at hg ⊢
    cases hg with
    | exhausted hnone => exact (takeZeroed_exhausted hnone).bind_halt
    | @next _ _ _ _ _ s _ hsome hrest =>
      cases hrest
      apply (takeZeroed_learns h hsome).bind
      have hsame : zeroed p s = hung p d spot s := by
        unfold hung
        rw [hang_of_root hroot]
        rfl
      exact hsame ▸ Learns.pure _
  · rw [if_neg hc] at hg ⊢
    cases hg
    exact Learns.pure d

/-- A sector for a spot of a slot. -/
theorem leaf_learns (h : Hung p d done) (hspot : Fillable done [.data place])
    (hp : (Spot.data place).parent? = some (up, slot)) (hy : y = sectorOf p.block d up)
    (hknown : ∀ t ∈ done, known (sectorOf p.block d t)) (hg : Grows p d [.data place] ending p') :
    Learns true known (do
      let data ← takeZeroed
      update y (Block.withPointer slot data)
      return d) p ending p' := by
  subst hy
  cases hg with
  | exhausted hnone => exact (takeZeroed_exhausted hnone).bind_halt
  | @next _ _ _ _ _ s _ hsome hrest =>
    cases hrest
    have hroot : setRoot d (.data place) s = d := by
      cases place with
      | direct slot => cases hp
      | _ => rfl
    rw [hroot]
    exact (takeZeroed_learns h hsome).bind
      ((link_learns h hspot hsome hp fun t ht => .inl (hknown t ht)).bind (Learns.pure d))

/-- The index block for a block that hangs in the second index block, made if there is none. -/
theorem inner_learns {outer : Fin 128} {c : Prop} [Decidable c] (h : Hung p d done)
    (hspot : Fillable done (if c then [.innerIndex outer] else []))
    (hdone : ¬ c → .innerIndex outer ∈ done) (hknown : ∀ t ∈ done, known (sectorOf p.block d t))
    (hg : Grows p d (if c then [.innerIndex outer] else []) ending p') :
    Learns true known (if c then do
        let index ← takeZeroed
        update d.doublyIndirect (Block.withPointer outer index)
        pure index
      else do pure ((← view d.doublyIndirect).pointer outer)) p
      (ending.map fun d => sectorOf p'.block d (.innerIndex outer)) p' := by
  -- if it is not its turn, the index block is there and its number is looked up
  by_cases hc : c
  · rw [if_pos hc] at hg hspot ⊢
    cases hg with
    | exhausted hnone => exact (takeZeroed_exhausted hnone).bind_halt
    | @next _ _ _ _ _ s _ hsome hrest =>
      cases hrest
      have hself : sectorOf (hung p d (.innerIndex outer) s).block d (.innerIndex outer) = s :=
        (h.ready hspot hsome).sectorOf_hang_self
      refine (takeZeroed_learns h hsome).bind
        ((link_learns h hspot hsome rfl fun t ht => .inl (hknown t ht)).bind ?_)
      show Learns true _ _ _ (.ok (sectorOf (hung p d (.innerIndex outer) s).block d (.innerIndex outer))) _
      rw [hself]
      exact Learns.pure s
  · rw [if_neg hc] at hg ⊢
    cases hg
    have hup := h.closed _ (hdone hc) _ _ rfl
    refine (Learns.perform ?_ (.view (h.permits hup)) rfl).bind (Learns.pure _)
    intro t ht
    obtain rfl := Option.some.inj ht
    exact hknown _ hup

/-- The index blocks in the second index block are not the descriptor's. -/
theorem Grows.inner_descriptor {outer : Fin 128} {c : Prop} [Decidable c] {d' : Descriptor}
    (hg : Grows p d (if c then [.innerIndex outer] else []) (.ok d') p') : d' = d := by
  by_cases hc : c
  · rw [if_pos hc] at hg
    cases hg with
    | next _ hrest =>
      cases hrest
      rfl
  · rw [if_neg hc] at hg
    cases hg
    rfl

/-- The routine that hangs a block on the index block, as a sequence. -/
theorem attach_indirect :
    attach d (.indirect slot) =
      (if slot.val = 0 then takeZeroed >>= fun s => pure (setRoot d .index s) else pure d) >>=
        fun d => takeZeroed >>= fun data =>
          update d.indirect (Block.withPointer slot data) >>= fun _ => pure d := by
  by_cases h : slot.val = 0
  · simp only [attach, h, if_true, bind_assoc, pure_bind]
    rfl
  · simp only [attach, h, if_false, pure_bind]

/-- The routine that hangs a block in the second index block, as a sequence. -/
theorem attach_doubly {outer inner : Fin 128} :
    attach d (.doubly outer inner) =
      (if outer.val = 0 ∧ inner.val = 0 then
          takeZeroed >>= fun s => pure (setRoot d .outerIndex s) else pure d) >>= fun d =>
        (if inner.val = 0 then do
            let index ← takeZeroed
            update d.doublyIndirect (Block.withPointer outer index)
            pure index
          else do pure ((← view d.doublyIndirect).pointer outer)) >>= fun index =>
          takeZeroed >>= fun data =>
            update index (Block.withPointer inner data) >>= fun _ => pure d := by
  by_cases houter : outer.val = 0
  · by_cases hinner : inner.val = 0
    · simp only [attach, houter, hinner, and_self, if_true, bind_assoc, pure_bind]
      rfl
    · simp only [attach, houter, hinner, and_false, if_false, bind_assoc, pure_bind]
  · by_cases hinner : inner.val = 0
    · simp only [attach, houter, hinner, false_and, if_true, if_false, bind_assoc, pure_bind]
    · simp only [attach, houter, hinner, false_and, if_false, bind_assoc, pure_bind]

/-- After a growth, too, the sectors of the spots in use are known. -/
theorem Grows.known_after {d' : Descriptor} (hg : Grows p d l (.ok d') p') (h : Hung p d done)
    (hl : Fillable done l) (hknown : ∀ t ∈ done, known (sectorOf p.block d t)) :
    ∀ t ∈ done ++ l, learned known p p' (sectorOf p'.block d' t) := by
  obtain ⟨hgrowth, hcompleted⟩ := grows_spec hg h hl
  intro t ht
  rcases List.mem_append.mp ht with ht | ht
  · rw [hcompleted.same t ht]
    exact .inl (hknown t ht)
  · have hnew : sectorOf p'.block d' t ∈ p.freeMap.takeEach l.length := by
      rw [← hcompleted.sectors]
      exact List.mem_map_of_mem ht
    exact .inr ⟨hgrowth.fresh.free _ hnew, hcompleted.standing.permits (List.mem_append_right _ ht)⟩

/-- **A new block** is hung at its place. -/
theorem attach_learns (h : Hung p d done) (hspot : Fillable done (spotsAt place))
    (hdone : ∀ outer inner, place = .doubly outer inner → inner.val ≠ 0 → .innerIndex outer ∈ done)
    (hknown : ∀ t ∈ done, known (sectorOf p.block d t))
    (hg : Grows p d (spotsAt place) ending p') : Learns true known (attach d place) p ending p' := by
  -- the growth is cut where the routine is, and the part that fails ends both
  cases place with
  | direct slot =>
    exact root_learns (c := True) h rfl hg
  | indirect slot =>
    rw [attach_indirect]
    obtain ⟨hfirst, hsecond⟩ := fillable_append.mp hspot
    rcases hg.of_append with ⟨cause, rfl, hstop⟩ | ⟨d₁, p₁, hg₁, hg₂⟩
    · exact (root_learns h rfl hstop).bind_halt
    · obtain ⟨-, hcompleted⟩ := grows_spec hg₁ h hfirst
      apply (root_learns h rfl hg₁).bind
      exact leaf_learns hcompleted.standing hsecond rfl rfl (hg₁.known_after h hfirst hknown) hg₂
  | doubly outer inner =>
    rw [attach_doubly]
    obtain ⟨hfirst, hrest⟩ := fillable_append.mp hspot
    obtain ⟨hsecond, hthird⟩ := fillable_append.mp hrest
    rcases hg.of_append with ⟨cause, rfl, hstop⟩ | ⟨d₁, p₁, hg₁, hg'⟩
    · exact (root_learns h rfl hstop).bind_halt
    · obtain ⟨-, hcompleted₁⟩ := grows_spec hg₁ h hfirst
      have hknown₁ := hg₁.known_after h hfirst hknown
      have hinner : ∀ l, ¬ inner.val = 0 → .innerIndex outer ∈ done ++ l := fun l hne =>
        List.mem_append_left _ (hdone outer inner rfl hne)
      apply (root_learns h rfl hg₁).bind
      rcases Grows.of_append hg' with ⟨cause, rfl, hstop⟩ | ⟨d₂, p₂, hg₂, hg₃⟩
      · exact (inner_learns hcompleted₁.standing hsecond (hinner _) hknown₁ hstop).bind_halt
      · obtain rfl : d₂ = d₁ := hg₂.inner_descriptor
        obtain ⟨-, hcompleted₂⟩ := grows_spec hg₂ hcompleted₁.standing hsecond
        apply (inner_learns hcompleted₁.standing hsecond (hinner _) hknown₁ hg₂).bind
        exact leaf_learns hcompleted₂.standing hthird rfl rfl
          (hg₂.known_after hcompleted₁.standing hsecond hknown₁) hg₃

/-! ## Many blocks -/

theorem growFrom_learns {k count : Nat} (h : Hung p d (spots k)) (hk : k + count ≤ maxFileBlocks)
    (hknown : ∀ t ∈ spots k, known (sectorOf p.block d t))
    (hg : Grows p d (spotsFrom k count) ending p') :
    Learns true known (growFrom k d count) p ending p' := by
  induction count generalizing k p d known with
  | zero =>
    cases hg
    exact Learns.pure d
  | succ count ih =>
    obtain ⟨place, hplace⟩ := Option.isSome_iff_exists.mp ((Position.of?_isSome k).mpr (by omega))
    have hspot : Fillable (spots k) (spotsAt place) := fillable_spotsAt hplace
    -- the inner index block was filled with the first block in it
    have hdone : ∀ outer inner, place = .doubly outer inner → inner.val ≠ 0 →
        .innerIndex outer ∈ spots k := by
      rintro outer inner rfl hne
      exact innerIndex_mem_spots (by omega) hplace hne
    rw [spotsFrom, spotsOf_of_of? hplace] at hg
    rw [growFrom]
    simp only [hplace]
    rcases hg.of_append with ⟨cause, rfl, hstop⟩ | ⟨d₁, p₁, hg₁, hg₂⟩
    · exact (attach_learns h hspot hdone hknown hstop).bind_halt
    · obtain ⟨-, hcompleted⟩ := grows_spec hg₁ h hspot
      have hafter := hg₁.known_after h hspot hknown
      have hspots : spots k ++ spotsAt place = spots (k + 1) := by rw [spots_succ, spotsOf_of_of? hplace]
      apply (attach_learns h hspot hdone hknown hg₁).bind
      exact ih (hspots ▸ hcompleted.standing) (by omega) (hspots ▸ hafter) hg₂

/-- **A growth** that is not too long runs as its spots are filled. -/
theorem grow_learns {length : Nat} (h : Hung p d (spots (dataBlocks d.size)))
    (hsize : d.size ≤ maxFileSize) (hlength : length ≤ maxFileSize)
    (hknown : ∀ t ∈ spots (dataBlocks d.size), known (sectorOf p.block d t))
    (hg : Grows p d (spotsFrom (dataBlocks d.size) (dataBlocks length - dataBlocks d.size)) ending p') :
    Learns true known (grow d length) p
      (ending.map fun d => { d with length := UInt32.ofNat length }) p' := by
  unfold grow
  rw [if_neg (Nat.not_lt.mpr hlength)]
  have hblocks := dataBlocks_le hsize
  have hblocks' := dataBlocks_le hlength
  have hrun := growFrom_learns h (by omega) hknown hg
  cases ending with
  | ok d' => exact hrun.bind (Learns.pure _)
  | error cause => exact hrun.bind_halt

theorem grow_runs {length : Nat} (h : Hung p d (spots (dataBlocks d.size)))
    (hsize : d.size ≤ maxFileSize) (hlength : length ≤ maxFileSize)
    (hg : Grows p d (spotsFrom (dataBlocks d.size) (dataBlocks length - dataBlocks d.size)) ending p') :
    Runs true (grow d length) p
      (ending.map fun d => { d with length := UInt32.ofNat length }) p' := by
  have hlearns : Learns true (fun _ => True) (grow d length) p _ p' :=
    grow_learns h hsize hlength (fun _ _ => trivial) hg
  exact hlearns.runs

/-- A file that would be too long is refused before anything is done. -/
theorem grow_refused {length : Nat} (hlength : maxFileSize < length) :
    Runs true (grow d length) p (.error (.refused .fileTooLarge)) p := by
  unfold grow
  rw [if_pos hlength]
  exact .halt

end InodeStore.Inode
