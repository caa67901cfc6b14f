import InodeStore.Proofs.Inode.Layout
import InodeStore.Proofs.Store.Plain

/-!
# `Proofs.Inode.Hanging` — new sectors in the tree of a file

A growing file changes the blocks in one way (`hang`): a free sector is taken, filled with zeros and put
at a spot that is due. `Grows` is any number of such steps, ended early when no sector is left.

As long as a spot was not in use, every spot in use keeps its sector (`Ready.sectorOf_hang`): nothing of a
file on record depends on slots that it does not use. `grows_spec` says what any growth comes to, a failed one
too: new sectors, index blocks that differ in slots not in use, and nothing else.
-/

namespace InodeStore.Inode

variable {b : SectorArray} {d : Descriptor} {t spot up : Spot} {slot : Fin 128} {s : SectorId}

/-! ## A new block -/

/-- The blocks once a sector was filled with zeros and put at a spot. -/
def hang (b : SectorArray) (d : Descriptor) (spot : Spot) (s : SectorId) : SectorArray :=
  let zeroed := Function.update b s Block.zero
  match spot.parent? with
  | none => zeroed
  | some (up, slot) =>
    let y := sectorOf zeroed d up
    Function.update zeroed y ((zeroed y).withPointer slot s)

theorem hang_of_root (h : spot.parent? = none) :
    hang b d spot s = Function.update b s Block.zero := by
  unfold hang
  rw [h]

/-- What it takes to put a sector at a spot: the spots in use are told apart by their sectors, the spot
    and the sector are not in use, and the slot for the sector number is there. -/
structure Ready (b : SectorArray) (d : Descriptor) (done : List Spot) (spot : Spot) (s : SectorId) :
    Prop where
  closed : ∀ t ∈ done, ∀ up slot, t.parent? = some (up, slot) → up ∈ done
  nodup : (done.map (sectorOf b d)).Nodup
  unused : spot ∉ done
  fresh : s ∉ done.map (sectorOf b d)
  reachable : ∀ up slot, spot.parent? = some (up, slot) → up ∈ done

variable {done : List Spot}

theorem Ready.ne (h : Ready b d done spot s) (ht : t ∈ done) : sectorOf b d t ≠ s :=
  fun he => h.fresh (List.mem_map.mpr ⟨t, ht, he⟩)

theorem Ready.injective (h : Ready b d done spot s) {t' : Spot} (ht : t ∈ done) (ht' : t' ∈ done)
    (he : sectorOf b d t = sectorOf b d t') : t = t' :=
  List.inj_on_of_nodup_map h.nodup ht ht' he

/-- Filling the new sector with zeros leaves the spots in use as they are. -/
theorem Ready.sectorOf_zeroed (h : Ready b d done spot s) :
    ∀ t ∈ done, sectorOf (Function.update b s Block.zero) d t = sectorOf b d t :=
  sectorOf_congr h.closed (fun _ _ => rfl) fun t ht up slot hp => by
    rw [Function.update_of_ne (h.ne (h.closed t ht up slot hp))]

theorem Ready.hang_of_parent (h : Ready b d done spot s) (hp : spot.parent? = some (up, slot)) :
    hang b d spot s = Function.update (Function.update b s Block.zero) (sectorOf b d up)
      ((b (sectorOf b d up)).withPointer slot s) := by
  have hup := h.reachable up slot hp
  unfold hang
  rw [hp]
  dsimp only
  rw [h.sectorOf_zeroed up hup, Function.update_of_ne (h.ne hup)]

/-- The blocks that change are the new sector and the one that has the slot. -/
theorem Ready.hang_of_ne (h : Ready b d done spot s) {y : SectorId} (hy : y ≠ s)
    (hup : ∀ up slot, spot.parent? = some (up, slot) → y ≠ sectorOf b d up) :
    hang b d spot s y = b y := by
  cases hp : spot.parent? with
  | none => rw [hang_of_root hp, Function.update_of_ne hy]
  | some entry => rw [h.hang_of_parent hp, Function.update_of_ne (hup _ _ hp), Function.update_of_ne hy]

/-- The new sector is zero. -/
theorem Ready.hang_self (h : Ready b d done spot s) : hang b d spot s s = Block.zero := by
  cases hp : spot.parent? with
  | none => rw [hang_of_root hp, Function.update_self]
  | some entry =>
    rw [h.hang_of_parent hp, Function.update_of_ne (h.ne (h.reachable _ _ hp)).symm,
      Function.update_self]

/-- The block that has the slot of the new sector number. -/
theorem Ready.hang_parent (h : Ready b d done spot s) (hp : spot.parent? = some (up, slot)) :
    hang b d spot s (sectorOf b d up) = (b (sectorOf b d up)).withPointer slot s := by
  rw [h.hang_of_parent hp, Function.update_self]

/-- Every slot of a spot in use keeps its sector number. -/
theorem Ready.pointer_hang (h : Ready b d done spot s) (ht : t ∈ done)
    (hp : t.parent? = some (up, slot)) :
    (hang b d spot s (sectorOf b d up)).pointer slot = (b (sectorOf b d up)).pointer slot := by
  have hup := h.closed t ht up slot hp
  by_cases hsame : ∃ slot', spot.parent? = some (up, slot')
  · obtain ⟨slot', hp'⟩ := hsame
    have hne : slot ≠ slot' := by
      rintro rfl
      exact h.unused (Spot.parent?_injective hp hp' ▸ ht)
    rw [h.hang_parent hp', Block.pointer_withPointer_of_ne _ hne]
  · rw [h.hang_of_ne (h.ne hup)]
    intro up' slot' hp' he
    exact hsame ⟨slot', h.injective hup (h.reachable up' slot' hp') he ▸ hp'⟩

/-- **The lengthened file** has its old sectors where they were. -/
theorem Ready.sectorOf_hang (h : Ready b d done spot s) :
    ∀ t ∈ done, sectorOf (hang b d spot s) (setRoot d spot s) t = sectorOf b d t :=
  sectorOf_congr h.closed (fun _ ht => root_setRoot_of_ne fun he => h.unused (he ▸ ht))
    fun _ ht _ _ hp => h.pointer_hang ht hp

/-- The new sector is at the spot. -/
theorem Ready.sectorOf_hang_self (h : Ready b d done spot s) :
    sectorOf (hang b d spot s) (setRoot d spot s) spot = s := by
  cases hp : spot.parent? with
  | none => rw [sectorOf_root hp, root_setRoot_self hp]
  | some entry =>
    obtain ⟨up, slot⟩ := entry
    rw [sectorOf_child hp, h.sectorOf_hang up (h.reachable up slot hp), h.hang_parent hp,
      Block.pointer_withPointer_self]

/-! ## Growth -/

/-- The store once a free sector was taken and filled with zeros. -/
def zeroed (p : Plain) (s : SectorId) : Plain :=
  { p with
    block := Function.update p.block s Block.zero
    freeMap := p.freeMap.assign s.toNat true
    took := s :: p.took }

/-- The store once a free sector was taken and put at a spot. -/
def hung (p : Plain) (d : Descriptor) (spot : Spot) (s : SectorId) : Plain :=
  { zeroed p s with block := hang p.block d spot s }

/-- Sectors are put at spots one after the other, until all are filled or none is left. -/
inductive Grows : Plain → Descriptor → List Spot → Except Halt Descriptor → Plain → Prop where
  | full {p : Plain} {d : Descriptor} : Grows p d [] (.ok d) p
  | exhausted {p : Plain} {d : Descriptor} {spot : Spot} {rest : List Spot}
      (hnone : p.freeMap.nextFree? = none) :
      Grows p d (spot :: rest) (.error (.refused .allocationExhausted)) p
  | next {p p' : Plain} {d : Descriptor} {spot : Spot} {rest : List Spot} {s : SectorId}
      {ending : Except Halt Descriptor} (hsome : p.freeMap.nextFree? = some s)
      (hrest : Grows (hung p d spot s) (setRoot d spot s) rest ending p') :
      Grows p d (spot :: rest) ending p'

variable {p p' : Plain} {done l l' : List Spot} {ending : Except Halt Descriptor}

/-- Spots are filled in some way or other. -/
theorem exists_grows (p : Plain) (d : Descriptor) (l : List Spot) :
    ∃ ending p', Grows p d l ending p' := by
  induction l generalizing p d with
  | nil => exact ⟨_, _, .full⟩
  | cons spot rest ih =>
    cases hnext : p.freeMap.nextFree? with
    | none => exact ⟨_, _, .exhausted hnext⟩
    | some s =>
      obtain ⟨ending, p', h⟩ := ih (hung p d spot s) (setRoot d spot s)
      exact ⟨ending, p', .next hnext h⟩

/-- A growth over two lists of spots, by how the first part ends. -/
theorem Grows.of_append (h : Grows p d (l ++ l') ending p') :
    (∃ cause, ending = .error cause ∧ Grows p d l (.error cause) p') ∨
      ∃ d₁ p₁, Grows p d l (.ok d₁) p₁ ∧ Grows p₁ d₁ l' ending p' := by
  induction l generalizing p d with
  | nil => exact Or.inr ⟨d, p, .full, h⟩
  | cons spot rest ih =>
    cases h with
    | exhausted hnone => exact Or.inl ⟨_, rfl, .exhausted hnone⟩
    | next hsome hrest =>
      rcases ih hrest with ⟨cause, hcause, hfirst⟩ | ⟨d₁, p₁, hfirst, hsecond⟩
      · exact Or.inl ⟨cause, hcause, .next hsome hfirst⟩
      · exact Or.inr ⟨d₁, p₁, .next hsome hfirst, hsecond⟩

/-- The spots in use are told apart by their sectors, and these are taken. -/
structure Hung (p : Plain) (d : Descriptor) (done : List Spot) : Prop where
  lawful : p.freeMap.Lawful
  fits : p.freeMap.sectors ≤ p.count
  closed : ∀ t ∈ done, ∀ up slot, t.parent? = some (up, slot) → up ∈ done
  nodup : (done.map (sectorOf p.block d)).Nodup
  taken : ∀ t ∈ done, p.freeMap.taken (sectorOf p.block d t).toNat = true
  inside : ∀ t ∈ done, (sectorOf p.block d t).toNat < p.freeMap.sectors

/-- A free sector may be put at a spot that is due. -/
theorem Hung.ready (h : Hung p d done) (hspot : Fillable done (spot :: l))
    (hs : p.freeMap.nextFree? = some s) : Ready p.block d done spot s where
  closed := h.closed
  nodup := h.nodup
  unused := hspot.1.1
  fresh hmem := by
    obtain ⟨t, ht, rfl⟩ := List.mem_map.mp hmem
    have hfree := h.lawful.nextFree?_free hs
    rw [h.taken t ht] at hfree
    cases hfree
  reachable := hspot.1.2

/-- What is taken stays so when another sector is. -/
theorem taken_zeroed (hmap : p.freeMap.Lawful) (hs : s.toNat < p.freeMap.sectors) (x : SectorId) :
    (zeroed p s).freeMap.taken x.toNat = true ↔ x = s ∨ p.freeMap.taken x.toNat = true := by
  show (p.freeMap.assign s.toNat true).taken x.toNat = true ↔ _
  rw [FreeMap.taken_assign (hmap.group_lt hs)]
  by_cases hx : x = s
  · simp [hx]
  · have hne : x.toNat ≠ s.toNat := fun he => hx (UInt32.toNat_inj.mp he)
    simp [hx, hne]

/-- After that the spot is one in use. -/
theorem Hung.next (h : Hung p d done) (hspot : Fillable done (spot :: l))
    (hs : p.freeMap.nextFree? = some s) : Hung (hung p d spot s) (setRoot d spot s) (done ++ [spot]) := by
  have hready := h.ready hspot hs
  have hlt := h.lawful.lt_sectors (h.lawful.nextFree?_free hs)
  have hsame : ∀ t ∈ done, sectorOf (hung p d spot s).block (setRoot d spot s) t = sectorOf p.block d t :=
    hready.sectorOf_hang
  have hself : sectorOf (hung p d spot s).block (setRoot d spot s) spot = s := hready.sectorOf_hang_self
  refine ⟨h.lawful.assign hlt true, h.fits, ?_, ?_, ?_, ?_⟩
  · -- the spot hangs on one that was there before
    intro t ht up slot hp
    rcases List.mem_append.mp ht with ht | ht
    · exact List.mem_append_left _ (h.closed t ht up slot hp)
    · rw [List.mem_singleton.mp ht] at hp
      exact List.mem_append_left _ (hready.reachable up slot hp)
  · -- its sector was free, so it is none of those in use
    rw [List.map_append, List.map_congr_left hsame]
    refine List.nodup_append.mpr ⟨h.nodup, List.nodup_singleton _, ?_⟩
    intro x hx y hy
    rw [List.mem_singleton.mp hy, hself]
    exact fun he => hready.fresh (he ▸ hx)
  · intro t ht
    apply (taken_zeroed h.lawful hlt _).mpr
    rcases List.mem_append.mp ht with ht | ht
    · rw [hsame t ht]
      exact Or.inr (h.taken t ht)
    · rw [List.mem_singleton.mp ht]
      exact Or.inl hself
  · intro t ht
    rcases List.mem_append.mp ht with ht | ht
    · rw [hsame t ht]
      exact h.inside t ht
    · rw [List.mem_singleton.mp ht, hself]
      exact hlt

/-- Sectors were taken that were free. -/
structure Spent (p p' : Plain) (new : List SectorId) : Prop where
  fresh : p.freeMap.Fresh new
  freeMap : p'.freeMap = p.freeMap.takeAll new
  took : p'.took = new.reverse ++ p.took
  gave : p'.gave = p.gave
  registry : p'.registry = p.registry
  count : p'.count = p.count

/-- What any growth comes to: sectors were taken that were free, and of the blocks in use only index
    blocks have changed, in slots that are not in use. -/
structure Growth (p p' : Plain) (d : Descriptor) (done : List Spot) (new : List SectorId) : Prop
    extends Spent p p' new where
  slots : ∀ t ∈ done, ∀ up slot, t.parent? = some (up, slot) →
    (p'.block (sectorOf p.block d up)).pointer slot = (p.block (sectorOf p.block d up)).pointer slot
  frame : ∀ y, y ∉ new → (∀ t ∈ done, t.isIndex = true → y ≠ sectorOf p.block d t) →
    p'.block y = p.block y

/-- What a growth that fills all spots comes to besides. -/
structure Completed (p p' : Plain) (d d' : Descriptor) (done l : List Spot) (new : List SectorId) :
    Prop where
  standing : Hung p' d' (done ++ l)
  sectors : l.map (sectorOf p'.block d') = new
  same : ∀ t ∈ done, sectorOf p'.block d' t = sectorOf p.block d t
  zero : ∀ t ∈ l, t.isIndex = false → p'.block (sectorOf p'.block d' t) = Block.zero
  isDir : d'.isDir = d.isDir
  length : d'.length = d.length
  magic : d'.magic = d.magic

/-- What a growth comes to, by how it ends. -/
def Outcome (p p' : Plain) (d : Descriptor) (done l : List Spot) (new : List SectorId) :
    Except Halt Descriptor → Prop
  | .ok d' => Completed p p' d d' done l new
  | .error cause => cause = .refused .allocationExhausted ∧ new.length < l.length

/-- The file from before has its sectors where it had them. -/
theorem Growth.kept {new : List SectorId} (h : Growth p p' d done new)
    (hclosed : ∀ t ∈ done, ∀ up slot, t.parent? = some (up, slot) → up ∈ done) :
    ∀ t ∈ done, sectorOf p'.block d t = sectorOf p.block d t :=
  sectorOf_congr hclosed (fun _ _ => rfl) h.slots

theorem Spent.refl (p : Plain) : Spent p p [] :=
  ⟨⟨List.nodup_nil, nofun⟩, rfl, rfl, rfl, rfl, rfl⟩

/-- One more sector was taken before others were. -/
theorem Spent.cons {q : Plain} {new : List SectorId} (hmap : p.freeMap.Lawful)
    (hs : p.freeMap.nextFree? = some s) (hfree : q.freeMap = p.freeMap.assign s.toNat true)
    (htook : q.took = s :: p.took) (hgave : q.gave = p.gave) (hregistry : q.registry = p.registry)
    (hcount : q.count = p.count) (h : Spent q p' new) : Spent p p' (s :: new) := by
  have hs_free := hmap.nextFree?_free hs
  have hlt := hmap.lt_sectors hs_free
  -- what is taken later is free after `s` was taken, so it is not `s`
  have hnew : ∀ x ∈ new, x ≠ s ∧ p.freeMap.taken x.toNat = false := by
    intro x hx
    have hx := h.fresh.free x hx
    rw [hfree, FreeMap.taken_assign (hmap.group_lt hlt)] at hx
    by_cases he : x.toNat = s.toNat
    · rw [if_pos he] at hx
      cases hx
    · rw [if_neg he] at hx
      exact ⟨fun h => he (congrArg _ h), hx⟩
  refine ⟨⟨List.nodup_cons.mpr ⟨fun hmem => (hnew s hmem).1 rfl, h.fresh.nodup⟩, ?_⟩,
    ?_, ?_, h.gave.trans hgave, h.registry.trans hregistry, h.count.trans hcount⟩
  · intro x hx
    rcases List.mem_cons.mp hx with rfl | hx
    · exact hs_free
    · exact (hnew x hx).2
  · rw [h.freeMap, hfree]
    rfl
  · rw [h.took, htook, List.reverse_cons, List.append_assoc]
    rfl

/-- One more sector before a growth. -/
theorem Growth.cons {new : List SectorId} (h : Hung p d done) (hspot : Fillable done (spot :: l))
    (hs : p.freeMap.nextFree? = some s)
    (hg : Growth (hung p d spot s) p' (setRoot d spot s) (done ++ [spot]) new) :
    Growth p p' d done (s :: new) := by
  have hready := h.ready hspot hs
  refine ⟨Spent.cons (q := hung p d spot s) h.lawful hs rfl rfl rfl rfl rfl hg.toSpent,
    ?_, ?_⟩
  · -- the new number goes to a slot that is not in use
    intro t ht up slot hp
    have hslot := hg.slots t (List.mem_append_left _ ht) up slot hp
    rw [show sectorOf (hung p d spot s).block (setRoot d spot s) up = _ from
      hready.sectorOf_hang up (h.closed t ht up slot hp)] at hslot
    exact hslot.trans (hready.pointer_hang ht hp)
  · -- a block that is neither new nor an index block is not written to
    intro y hy hindex
    have hys : y ≠ s := fun he => hy (he ▸ List.mem_cons_self)
    refine (hg.frame y (fun hmem => hy (List.mem_cons_of_mem _ hmem)) ?_).trans
      (hready.hang_of_ne hys fun up slot hp =>
        hindex up (hready.reachable up slot hp) (Spot.isIndex_of_parent? hp))
    intro t ht hi
    rcases List.mem_append.mp ht with ht | ht
    · rw [show sectorOf (hung p d spot s).block (setRoot d spot s) t = _ from hready.sectorOf_hang t ht]
      exact hindex t ht hi
    · rw [List.mem_singleton.mp ht,
        show sectorOf (hung p d spot s).block (setRoot d spot s) spot = s from hready.sectorOf_hang_self]
      exact hys

/-- One more sector before a growth that fills all spots. -/
theorem Completed.cons {d' : Descriptor} {new : List SectorId} (h : Hung p d done)
    (hspot : Fillable done (spot :: l)) (hs : p.freeMap.nextFree? = some s)
    (hg : Growth (hung p d spot s) p' (setRoot d spot s) (done ++ [spot]) new)
    (hc : Completed (hung p d spot s) p' (setRoot d spot s) d' (done ++ [spot]) l new) :
    Completed p p' d d' done (spot :: l) (s :: new) := by
  have hready := h.ready hspot hs
  have hself : sectorOf p'.block d' spot = s :=
    (hc.same spot (List.mem_append_right _ (List.mem_singleton_self _))).trans hready.sectorOf_hang_self
  have hmeta := setRoot_meta d spot s
  refine ⟨?_, ?_, ?_, ?_, hc.isDir.trans hmeta.1, hc.length.trans hmeta.2.1,
    hc.magic.trans hmeta.2.2⟩
  · have := hc.standing
    rwa [List.append_assoc] at this
  · rw [List.map_cons, hself, hc.sectors]
  · intro t ht
    exact (hc.same t (List.mem_append_left _ ht)).trans (hready.sectorOf_hang t ht)
  · intro t ht hi
    rcases List.mem_cons.mp ht with rfl | ht
    · -- the zeros stay: the sector is not taken a second time, and it is not an index block
      have hs_new : s ∉ new := by
        intro hmem
        have hfree := hg.fresh.free s hmem
        have htaken := (taken_zeroed h.lawful (h.lawful.lt_sectors (h.lawful.nextFree?_free hs)) s).mpr
          (Or.inl rfl)
        rw [show (hung p d t s).freeMap.taken s.toNat = true from htaken] at hfree
        cases hfree
      rw [hself]
      refine (hg.frame s hs_new ?_).trans hready.hang_self
      intro u hu hui
      rcases List.mem_append.mp hu with hu | hu
      · rw [show sectorOf (hung p d t s).block (setRoot d t s) u = _ from hready.sectorOf_hang u hu]
        exact (hready.ne hu).symm
      · rw [List.mem_singleton.mp hu, hi] at hui
        cases hui
    · exact hc.zero t ht hi

/-- **What a growth comes to.** -/
theorem grows_spec (hg : Grows p d l ending p') (h : Hung p d done) (hl : Fillable done l) :
    Growth p p' d done (p.freeMap.takeEach l.length) ∧
      Outcome p p' d done l (p.freeMap.takeEach l.length) ending := by
  induction hg generalizing done with
  | @full p d =>
    refine ⟨⟨Spent.refl p, fun _ _ _ _ _ => rfl, fun _ _ _ => rfl⟩, ?_⟩
    exact ⟨(List.append_nil done).symm ▸ h, rfl, fun _ _ => rfl, nofun, rfl, rfl, rfl⟩
  | exhausted hnone =>
    rw [FreeMap.takeEach_of_none hnone]
    exact ⟨⟨Spent.refl _, fun _ _ _ _ _ => rfl, fun _ _ _ => rfl⟩, rfl, Nat.succ_pos _⟩
  | @next p p' d spot rest s ending hsome _ ih =>
    obtain ⟨hgrowth, houtcome⟩ := ih (h.next hl hsome) hl.2
    rw [List.length_cons, FreeMap.takeEach_of_some hsome]
    refine ⟨hgrowth.cons h hl hsome, ?_⟩
    cases ending with
    | ok d' => exact Completed.cons h hl hsome hgrowth houtcome
    | error cause => exact ⟨houtcome.1, Nat.succ_lt_succ houtcome.2⟩

end InodeStore.Inode
