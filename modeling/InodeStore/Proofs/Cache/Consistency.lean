import InodeStore.Proofs.Cache.Directory
import Mathlib.Data.Set.Function

/-!
# `Proofs.Cache.Consistency` — lists, table and frames of a cache in one party's hands

A party goes about with a `Directory`: it asks for sectors and holds their frames, asks for more meanwhile,
changes what it holds, lets go, flushes and resets, in whatever order and nesting. A `Desk` is a directory with
the frames that are held, and `Move` is one such thing that ends well; a request that is refused for want of a
frame may be survived, too.

What each move keeps is `Fits`, said of the frames that count as used, so that it can be said of a queue that is
half taken apart. At every desk that the party gets to it comes to `Consistent`: the frames are split between
the queue and the free ones, the table is one to one between its sectors and the queue, and nothing is on its
way out. So a look never meets a sector on its way to the device, and an access is over after one pass.

## Contents
- `Consistent`, `Fits`, and what changes of the directory keep it.
- `Desk`, `Move`, `Kept`; `Move.kept`, and `consistent_throughout` for all that can be reached.
- `run_moves`: what is done for a request is such moves.
-/

namespace InodeStore.Cache.Directory

variable {δ : Type} {n : Nat} {dir : Directory δ n} {s t : SectorId} {i j : Fin n} {used : List (Fin n)}

/-! ## What fits together -/

/-- The queue and the free frames, the table, and what the frames say of themselves go together. -/
structure Consistent (dir : Directory δ n) : Prop where
  /-- Every frame is listed once, as one in use or as a free one. -/
  split : (dir.cache.recency ++ dir.cache.free).Perm (List.finRange n)
  /-- The table is one to one between the sectors in it and the frames in use. -/
  bijection : Set.BijOn (fun s => dir.table[s]?) {s | s ∈ dir.table} (some '' {i | i ∈ dir.cache.recency})
  /-- The frame of a sector carries it and has its content. -/
  entry : ∀ {s i}, dir.table[s]? = some i →
    (dir.cache.frame i).sector = some s ∧ (dir.cache.frame i).valid = true
  /-- A free frame has no sector, no content, and nothing for the device. -/
  free : ∀ i ∈ dir.cache.free, (dir.cache.frame i).sector = none ∧ (dir.cache.frame i).valid = false ∧
    (dir.cache.frame i).dirty = false
  /-- Nothing is on its way out. -/
  settled : dir.cache.evicting = []

/-- The same, where the frames of a list are the ones in use. -/
structure Fits (used : List (Fin n)) (dir : Directory δ n) : Prop where
  split : (used ++ dir.cache.free).Perm (List.finRange n)
  /-- The table has the frames in use under the sectors that they carry. -/
  listed : ∀ {s i}, dir.table[s]? = some i ↔ i ∈ used ∧ (dir.cache.frame i).sector = some s
  /-- A frame in use carries a sector and has its content. -/
  filled : ∀ i ∈ used, (∃ s, (dir.cache.frame i).sector = some s) ∧ (dir.cache.frame i).valid = true
  free : ∀ i ∈ dir.cache.free, (dir.cache.frame i).sector = none ∧ (dir.cache.frame i).valid = false ∧
    (dir.cache.frame i).dirty = false
  settled : dir.cache.evicting = []

namespace Fits

theorem consistent (h : dir.Fits dir.cache.recency) : dir.Consistent where
  split := h.split
  bijection := by
    refine ⟨?_, ?_, ?_⟩
    · intro s hs
      obtain ⟨i, hi⟩ := Option.isSome_iff_exists.mp (Std.TreeMap.mem_iff_isSome_getElem?.mp hs)
      exact ⟨i, (h.listed.mp hi).1, hi.symm⟩
    · -- two sectors with one frame are the one that the frame carries
      intro s hs t _ hst
      obtain ⟨i, hi⟩ := Option.isSome_iff_exists.mp (Std.TreeMap.mem_iff_isSome_getElem?.mp hs)
      have hst : dir.table[s]? = dir.table[t]? := hst
      exact Option.some.inj ((h.listed.mp hi).2.symm.trans (h.listed.mp (hst ▸ hi)).2)
    · rintro _ ⟨i, hi, rfl⟩
      obtain ⟨⟨s, hs⟩, -⟩ := h.filled i hi
      have hlisted := h.listed.mpr ⟨hi, hs⟩
      exact ⟨s, Std.TreeMap.mem_iff_isSome_getElem?.mpr (hlisted ▸ rfl), hlisted⟩
  entry hi := by
    obtain ⟨hused, hs⟩ := h.listed.mp hi
    exact ⟨hs, (h.filled _ hused).2⟩
  free := h.free
  settled := h.settled

theorem blank (d : δ) : (Directory.blank n d).Fits [] where
  split := List.Perm.refl _
  listed := by simp [Directory.blank]
  filled i hi := by cases hi
  free i _ := by
    show ((Cache.blank n d).frame i).sector = _ ∧ ((Cache.blank n d).frame i).valid = _ ∧
      ((Cache.blank n d).frame i).dirty = _
    rw [frame_blank]
    exact ⟨rfl, rfl, rfl⟩
  settled := rfl

/-- The order of the frames in use does not matter. -/
theorem perm {used' : List (Fin n)} (h : dir.Fits used) (hperm : used'.Perm used) : dir.Fits used' where
  split := (hperm.append_right _).trans h.split
  listed := by
    intro s i
    rw [hperm.mem_iff]
    exact h.listed
  filled i hi := h.filled i (hperm.mem_iff.mp hi)
  free := h.free
  settled := h.settled

theorem nodup (h : dir.Fits used) : (used ++ dir.cache.free).Nodup :=
  h.split.nodup_iff.mpr (List.nodup_finRange n)

/-- A frame in use is not a free one. -/
theorem not_mem_free (h : dir.Fits used) (hi : i ∈ used) : i ∉ dir.cache.free :=
  fun hfree => (List.nodup_append.mp h.nodup).2.2 i hi i hfree rfl

theorem mem_or (h : dir.Fits used) (i : Fin n) : i ∈ used ∨ i ∈ dir.cache.free :=
  List.mem_append.mp (h.split.mem_iff.mpr (List.mem_finRange i))

/-- What matters of the frames is which sectors they carry, and that free ones stay as they are. -/
theorem congr (h : dir.Fits used) {cache : Cache δ n} (hfree : cache.free = dir.cache.free)
    (hsettled : cache.evicting = []) (hsector : ∀ j, (cache.frame j).sector = (dir.cache.frame j).sector)
    (hvalid : ∀ j, (cache.frame j).valid = (dir.cache.frame j).valid)
    (hclean : ∀ j ∈ dir.cache.free, (cache.frame j).dirty = false) : Fits used { dir with cache } where
  split := hfree ▸ h.split
  listed := by
    intro s i
    rw [hsector]
    exact h.listed
  filled j hj := by
    rw [hsector, hvalid]
    exact h.filled j hj
  free j hj := by
    have hj : j ∈ dir.cache.free := hfree ▸ hj
    rw [hsector, hvalid]
    exact ⟨(h.free j hj).1, (h.free j hj).2.1, hclean j hj⟩
  settled := hsettled

/-- A frame in use may be changed if it keeps its sector and its content. -/
theorem mapFrame (h : dir.Fits used) (hi : i ∈ used) {change : Frame → Frame}
    (hsector : ∀ frame, (change frame).sector = frame.sector)
    (hvalid : ∀ frame, (change frame).valid = frame.valid) :
    Fits used { dir with cache := dir.cache.mapFrame i change } := by
  refine h.congr rfl h.settled (mapFrame_keeps Frame.sector (hsector _)) (mapFrame_keeps Frame.valid (hvalid _)) ?_
  intro j hj
  have hji : j ≠ i := by
    rintro rfl
    exact h.not_mem_free hi hj
  rw [frame_mapFrame_of_ne _ _ hji]
  exact (h.free j hj).2.2

/-! ### Access -/

/-- The table is right about every sector. -/
theorem agrees (h : dir.Fits dir.cache.recency) : dir.Agrees := by
  intro s
  cases hfind : dir.cache.frameOf? s with
  | some i => exact h.listed.mpr (carries_of_frameOf? hfind)
  | none =>
    cases hentry : dir.table[s]? with
    | none => rfl
    | some i => exact absurd (h.listed.mp hentry) (not_carries_of_frameOf? hfind i)

end Fits

/-- A frame's sector is the one that is struck out with it. -/
theorem getElem?_struck (dir : Directory δ n) (i : Fin n) (s : SectorId) :
    (dir.struck i)[s]? = if (dir.cache.frame i).sector = some s then none else dir.table[s]? := by
  unfold struck
  cases (dir.cache.frame i).sector with
  | none => rfl
  | some old => simp [Std.TreeMap.getElem?_erase]

namespace Fits

/-- A frame that is struck out is not listed any more, and the others are. -/
theorem struck_iff (h : dir.Fits used) :
    (dir.struck i)[s]? = some j ↔ j ≠ i ∧ j ∈ used ∧ (dir.cache.frame j).sector = some s := by
  rw [getElem?_struck]
  by_cases hi : (dir.cache.frame i).sector = some s
  · -- the frame is the only one that carries its sector
    rw [if_pos hi]
    refine ⟨nofun, fun ⟨hji, hj, hs⟩ => absurd ?_ hji⟩
    rcases h.mem_or i with hused | hfree
    · exact Option.some.inj ((h.listed.mpr ⟨hj, hs⟩).symm.trans (h.listed.mpr ⟨hused, hi⟩))
    · rw [(h.free i hfree).1] at hi
      cases hi
  · rw [if_neg hi, h.listed]
    refine ⟨fun ⟨hj, hs⟩ => ⟨?_, hj, hs⟩, fun ⟨_, hj, hs⟩ => ⟨hj, hs⟩⟩
    rintro rfl
    exact hi hs

/-- A frame that is given to another sector is listed under that one. -/
theorem loaded {fill : Fill} {taken : Cache δ n} [BlockDevice δ] (h : dir.Fits dir.cache.recency)
    (hc : dir.cache.Fitted) (hmiss : dir.cache.frameOf? s = none) (hl : Loaded dir.cache fill s i taken) :
    Fits taken.recency ⟨taken, (dir.struck i).insert s i⟩ := by
  obtain ⟨recency, hclaims, hrecency⟩ := hl.lists
  obtain ⟨b, mid, -, -, hframe⟩ := hl.filled
  refine ⟨hrecency ▸ hclaims.perm.trans h.split, ?_, ?_, ?_, hl.evicting⟩
  · intro t j
    show ((dir.struck i).insert s i)[t]? = some j ↔ taken.Carries j t
    rw [Std.TreeMap.getElem?_insert]
    by_cases hts : t = s
    · subst hts
      simp only [Std.ReflCmp.compare_self, if_true, Option.some.injEq]
      refine ⟨fun hij => hij ▸ hl.carries, fun hj => ?_⟩
      rcases hl.carries_cases hj with ⟨rfl, -⟩ | ⟨-, hj⟩
      · rfl
      · exact absurd hj (not_carries_of_frameOf? hmiss j)
    · rw [if_neg (by rw [Std.LawfulEqCmp.compare_eq_iff_eq]; exact Ne.symm hts), h.struck_iff]
      refine ⟨fun ⟨hji, hj⟩ => hl.carries_of_ne hj hji, fun hj => ?_⟩
      rcases hl.carries_cases hj with ⟨-, rfl⟩ | ⟨hji, hj⟩
      · exact absurd rfl hts
      · exact ⟨hji, hj⟩
  · intro j hj
    show (∃ s, (taken.frame j).sector = some s) ∧ (taken.frame j).valid = true
    rcases List.mem_cons.mp (hrecency ▸ hj) with rfl | hj
    · rw [hframe]
      exact ⟨⟨s, rfl⟩, rfl⟩
    · rw [hl.other j fun hji => (hclaims.not_mem hc).1 (hji ▸ hj)]
      exact h.filled j (hclaims.sublist.subset hj)
  · intro j hj
    show (taken.frame j).sector = none ∧ (taken.frame j).valid = false ∧ (taken.frame j).dirty = false
    rw [hl.other j fun hji => (hclaims.not_mem hc).2 (hji ▸ hj)]
    exact h.free j (hclaims.free_subset hj)

/-! ### Emptying -/

/-- A frame that is put back, or taken from its sector, is in its place again. -/
theorem forgetFrame {queue : List (Fin n)} (h : dir.Fits (i :: queue ++ dir.cache.recency)) :
    (dir.forgetFrame i).Fits (queue ++ (dir.forgetFrame i).cache.recency) := by
  cases hi : dir.cache.keeps i with
  | true =>
    have hstep : dir.forgetFrame i = { dir with cache := { dir.cache with recency := i :: dir.cache.recency } } :=
      if_pos hi
    rw [hstep]
    have hsame : dir.Fits (queue ++ i :: dir.cache.recency) := h.perm List.perm_middle
    exact ⟨hsame.split, hsame.listed, hsame.filled, hsame.free, hsame.settled⟩
  | false =>
    have hstep : dir.forgetFrame i =
        { cache := { dir.cache.mapFrame i dropped with free := i :: dir.cache.free }
          table := dir.struck i } := if_neg (by rw [hi]; exact Bool.false_ne_true)
    rw [hstep]
    have hclean : (dir.cache.frame i).dirty = false := (Bool.or_eq_false_iff.mp hi).2
    obtain ⟨hnot, -⟩ := List.nodup_cons.mp h.nodup
    have hne : ∀ {j}, j ∈ queue ++ dir.cache.recency → j ≠ i := by
      rintro j hj rfl
      exact hnot (List.mem_append_left _ hj)
    have hsplit := h.split
    refine ⟨List.perm_middle.trans hsplit, ?_, ?_, ?_, h.settled⟩
    · intro s j
      show (dir.struck i)[s]? = some j ↔ _ ∧ ((dir.cache.mapFrame i dropped).frame j).sector = some s
      rw [h.struck_iff, frame_mapFrame]
      constructor
      · rintro ⟨hji, hj, hs⟩
        rw [if_neg hji]
        exact ⟨(List.mem_cons.mp hj).resolve_left hji, hs⟩
      · rintro ⟨hj, hs⟩
        rw [if_neg (hne hj)] at hs
        exact ⟨hne hj, List.mem_cons_of_mem _ hj, hs⟩
    · intro j hj
      show (∃ s, ((dir.cache.mapFrame i dropped).frame j).sector = some s) ∧
        ((dir.cache.mapFrame i dropped).frame j).valid = true
      rw [frame_mapFrame_of_ne _ _ (hne hj)]
      exact h.filled j (List.mem_cons_of_mem _ hj)
    · intro j hj
      show ((dir.cache.mapFrame i dropped).frame j).sector = none ∧
        ((dir.cache.mapFrame i dropped).frame j).valid = false ∧
        ((dir.cache.mapFrame i dropped).frame j).dirty = false
      rw [frame_mapFrame]
      split
      · exact ⟨rfl, rfl, hclean⟩
      · next hji => exact h.free j ((List.mem_cons.mp hj).resolve_left hji)

/-- **Taking a queue apart** keeps everything in its place from frame to frame. -/
theorem foldl_forgetFrame (queue : List (Fin n)) (h : dir.Fits (queue ++ dir.cache.recency)) :
    (queue.foldl Directory.forgetFrame dir).Fits (queue.foldl Directory.forgetFrame dir).cache.recency := by
  induction queue generalizing dir with
  | nil => exact h
  | cons i rest ih => exact ih h.forgetFrame

theorem takenApart (h : dir.Fits dir.cache.recency) : dir.takenApart.Fits dir.takenApart.cache.recency := by
  refine foldl_forgetFrame _ ?_
  have hqueue : (dir.cache.recency.reverse ++ []).Perm dir.cache.recency := by
    rw [List.append_nil]
    exact List.reverse_perm _
  have hsame := h.perm hqueue
  exact ⟨hsame.split, hsame.listed, hsame.filled, hsame.free, hsame.settled⟩

end Fits

/-! ## One party at work -/

/-- A directory in the hands of one party, and the frames that it holds. -/
structure Desk (δ : Type) (n : Nat) where
  dir : Directory δ n
  held : List (Fin n)

/-- Before the party begins. -/
def Desk.start (n : Nat) (d : δ) : Desk δ n := ⟨Directory.blank n d, []⟩

/-- What the party knows of the directory: everything is in its place, and a frame is pinned as often as it is
    held. -/
structure Desk.Kept (p : Desk δ n) : Prop where
  fits : p.dir.Fits p.dir.cache.recency
  pins : ∀ j, (p.dir.cache.frame j).pins = p.held.count j
  inUse : ∀ j ∈ p.held, j ∈ p.dir.cache.recency

theorem Desk.start_kept (d : δ) : (Desk.start n d).Kept :=
  ⟨Fits.blank d, blank_unpinned d, fun _ hj => by cases hj⟩

/-- A frame that is not in use is not held. -/
theorem Desk.Kept.fitted {p : Desk δ n} (h : p.Kept) : p.dir.cache.Fitted where
  nodup := h.fits.nodup
  covers := h.fits.mem_or
  used i hi := (h.fits.filled i hi).1
  unique hi hj := Option.some.inj ((h.fits.listed.mpr hi).symm.trans (h.fits.listed.mpr hj))
  unused i hi := by
    refine ⟨(h.fits.free i hi).2.2, ?_⟩
    rw [h.pins, List.count_eq_zero]
    exact fun hheld => h.fits.not_mem_free (h.inUse i hheld) hi
  evicting := h.fits.settled

variable [BlockDevice δ]

/-- One thing that the party does. It may ask for any sector, hold as many as it likes, and go on after a look
    was refused because every frame is pinned. -/
inductive Move : Desk δ n → Desk δ n → Prop where
  | ask {p : Desk δ n} {fill : Fill} {s : SectorId} {passes : Nat} {i : Fin n} {dir : Directory δ n}
      {log : List Event} (hrun : acquire fill s passes p.dir = ⟨.ok (some i), dir, log⟩) :
      Move p ⟨dir, i :: p.held⟩
  | refused {p : Desk δ n} {s : SectorId} {e : Fault} {dir : Directory δ n} {log : List Event}
      (hrun : seek s p.dir = ⟨.error e, dir, log⟩) : Move p ⟨dir, p.held⟩
  | amend {p : Desk δ n} {i : Fin n} (hheld : i ∈ p.held) (change : Block → Block) :
      Move p ⟨(lift (amendFrame i change) p.dir).state, p.held⟩
  | leave {p : Desk δ n} {i : Fin n} (hheld : i ∈ p.held) :
      Move p ⟨{ p.dir with cache := p.dir.cache.unpin i }, p.held.erase i⟩
  | flush {p : Desk δ n} {dir : Directory δ n} {log : List Event}
      (hrun : lift Cache.flush p.dir = ⟨.ok (), dir, log⟩) : Move p ⟨dir, p.held⟩
  | reset {p : Desk δ n} {dir : Directory δ n} {log : List Event}
      (hrun : reset p.dir = ⟨.ok (), dir, log⟩) : Move p ⟨dir, p.held⟩

/-- The party gets from one desk to another. -/
abbrev Moves : Desk δ n → Desk δ n → Prop := Relation.ReflTransGen Move

namespace Desk.Kept

variable {p : Desk δ n}

/-- A sector that was asked for is held in its frame. -/
theorem ask {fill : Fill} {passes : Nat} {log : List Event} (h : p.Kept)
    (hrun : acquire fill s passes p.dir = ⟨.ok (some i), dir, log⟩) : Kept ⟨dir, i :: p.held⟩ := by
  have hc := h.fitted
  cases passes with
  | zero => cases hrun
  | succ passes =>
    rw [acquire_agrees h.fits.agrees hc.evicting] at hrun
    rcases hacquire : Cache.acquire fill s p.dir.cache with ⟨_ | j, taken, log'⟩
    · rw [hacquire] at hrun
      cases hrun
    · rw [hacquire] at hrun
      cases hrun
      have hpins : ∀ j, (taken.frame j).pins = (i :: p.held).count j := by
        intro j
        have htook := acquire_took hc hacquire
        by_cases hj : j = i
        · rw [hj, htook.pins, h.pins, List.count_cons_self]
        · rw [htook.other j hj, h.pins, List.count_cons_of_ne (Ne.symm hj)]
      have hentered := entered_of_ok hc.evicting hacquire
      rcases acquire_ok hc.evicting hacquire with ⟨hit, rfl⟩ | ⟨hmiss, hl⟩
      · have hi : i ∈ p.dir.cache.recency := (carries_of_frameOf? hit).1
        rw [hit, if_neg nofun] at hentered
        rw [hentered]
        have hperm : (p.dir.cache.found i).recency.Perm p.dir.cache.recency := (List.perm_cons_erase hi).symm
        refine ⟨(h.fits.perm hperm).congr rfl hc.evicting (fun _ => sector_found) ?_ ?_, hpins, ?_⟩
        · exact fun j => field_found Frame.valid fun _ _ => rfl
        · intro j hj
          rw [dirty_found]
          exact (h.fits.free j hj).2.2
        · intro j hj
          rcases List.mem_cons.mp hj with rfl | hj
          · exact hperm.mem_iff.mpr hi
          · exact hperm.mem_iff.mpr (h.inUse j hj)
      · rw [hmiss, if_pos rfl] at hentered
        rw [hentered]
        refine ⟨h.fits.loaded hc hmiss hl, hpins, ?_⟩
        obtain ⟨recency, hclaims, hrecency⟩ := hl.lists
        intro j hj
        show j ∈ taken.recency
        rw [hrecency]
        rcases List.mem_cons.mp hj with rfl | hj
        · exact List.mem_cons_self
        · -- a frame that is held is not the one that was given away
          by_cases hji : j = i
          · exact hji ▸ List.mem_cons_self
          · exact List.mem_cons_of_mem _ (hclaims.mem_of_ne (h.inUse j hj) hji)

omit [BlockDevice δ] in
/-- A look that is refused is counted, and that is all. -/
theorem refused {e : Fault} {log : List Event} (h : p.Kept) (hrun : seek s p.dir = ⟨.error e, dir, log⟩) :
    Kept ⟨dir, p.held⟩ := by
  have hout := h.fits.settled
  rw [seek_agrees h.fits.agrees] at hrun
  cases hfind : p.dir.cache.frameOf? s with
  | some i =>
    rw [seek_of_hit hfind] at hrun
    cases hrun
  | none =>
    cases hclaim : Cache.claim? { p.dir.cache with accesses := p.dir.cache.accesses + 1 } with
    | some claimed =>
      obtain ⟨log', hseek⟩ := seek_of_claim hfind hout hclaim
      rw [hseek] at hrun
      cases hrun
    | none =>
      rw [seek_of_exhausted hfind hout hclaim] at hrun
      cases hrun
      refine ⟨?_, h.pins, h.inUse⟩
      exact h.fits.congr rfl hout (fun _ => rfl) (fun _ => rfl) fun j hj => (h.fits.free j hj).2.2

omit [BlockDevice δ] in
theorem amend (h : p.Kept) (hi : i ∈ p.held) (change : Block → Block) :
    Kept ⟨(lift (amendFrame i change) p.dir).state, p.held⟩ where
  fits := by
    have hfits : Fits p.dir.cache.recency { p.dir with cache := p.dir.cache.mapFrame i fun frame =>
        { frame with data := change frame.data, dirty := true } } :=
      h.fits.mapFrame (h.inUse i hi) (fun _ => rfl) fun _ => rfl
    exact hfits
  pins j := (mapFrame_keeps Frame.pins rfl j).trans (h.pins j)
  inUse := h.inUse

omit [BlockDevice δ] in
/-- Whoever lets go takes back one pin. -/
theorem leave (h : p.Kept) (hi : i ∈ p.held) :
    Kept ⟨{ p.dir with cache := p.dir.cache.unpin i }, p.held.erase i⟩ where
  fits := h.fits.mapFrame (h.inUse i hi) (fun _ => rfl) fun _ => rfl
  pins j := by
    show ((p.dir.cache.mapFrame i _).frame j).pins = _
    rw [frame_mapFrame, List.count_erase]
    by_cases hj : j = i
    · subst hj
      simp [h.pins]
    · rw [if_neg hj, h.pins]
      simp [Ne.symm hj]
  inUse j hj := h.inUse j (List.mem_of_mem_erase hj)

theorem flush {log : List Event} (h : p.Kept) (hrun : lift Cache.flush p.dir = ⟨.ok (), dir, log⟩) :
    Kept ⟨dir, p.held⟩ := by
  unfold lift at hrun
  rcases hflush : Cache.flush p.dir.cache with ⟨_ | ⟨⟩, flushed, log'⟩
  · rw [hflush] at hrun
    cases hrun
  · rw [hflush] at hrun
    cases hrun
    have hcleaned := flush_ok h.fitted hflush
    have hfits : Fits p.dir.cache.recency { p.dir with cache := flushed } := by
      refine h.fits.congr hcleaned.free (hcleaned.evicting.trans h.fits.settled) ?_ ?_ ?_
      · exact fun j => by rw [hcleaned.frame]
      · exact fun j => by rw [hcleaned.frame]
      · intro j hj
        rw [hcleaned.frame, (h.fits.free j hj).2.2, Bool.false_and]
    refine ⟨?_, fun j => ?_, fun j hj => ?_⟩
    · exact hcleaned.recency.symm ▸ hfits
    · show (flushed.frame j).pins = _
      rw [hcleaned.frame, h.pins]
    · exact hcleaned.recency.symm ▸ h.inUse j hj

omit [BlockDevice δ] in
/-- Frames that are held stay in use when the cache is emptied. -/
theorem forget {log : List Event} (h : p.Kept) (hrun : Directory.forget p.dir = ⟨.ok (), dir, log⟩) :
    Kept ⟨dir, p.held⟩ := by
  obtain ⟨emptied, log', hforget, hforgotten⟩ := forget_eq h.fits.nodup
  have hagrees := forget_agrees p.dir
  rw [hrun, hforget] at hagrees
  obtain rfl : dir = ⟨emptied, p.dir.takenApart.table⟩ := (Reply.mk.inj hagrees).2.1
  have hfits : Fits emptied.recency ⟨emptied, p.dir.takenApart.table⟩ := by
    have := h.fits.takenApart
    cases hrun
    exact ⟨this.split, this.listed, this.filled, this.free, this.settled⟩
  refine ⟨hfits, fun j => ((hforgotten.frame h.fits.mem_or j).1).trans (h.pins j), ?_⟩
  intro j hj
  refine hforgotten.recency.mpr ⟨h.inUse j hj, ?_⟩
  have hpins : 0 < (p.dir.cache.frame j).pins := by
    rw [h.pins]
    exact List.count_pos_iff.mpr hj
  unfold keeps
  rw [bne_iff_ne.mpr (Nat.ne_of_gt hpins), Bool.true_or]

end Desk.Kept

/-- **A step:** whatever the party does, everything is in its place afterwards. -/
theorem Move.kept {p q : Desk δ n} (hmove : Move p q) (h : p.Kept) : q.Kept := by
  cases hmove with
  | ask hrun => exact h.ask hrun
  | refused hrun => exact h.refused hrun
  | amend hheld change => exact h.amend hheld change
  | leave hheld => exact h.leave hheld
  | flush hrun => exact h.flush hrun
  | reset hrun =>
    have hrun : (lift Cache.flush >>= fun _ => Directory.forget) p.dir = _ := hrun
    rw [Action.bind_def] at hrun
    rcases hflush : lift Cache.flush p.dir with ⟨_ | ⟨⟩, flushed, log⟩
    · rw [hflush] at hrun
      cases hrun
    · rw [hflush] at hrun
      cases hrun
      exact (h.flush hflush).forget rfl

/-- **A run:** so it is at every desk that the party gets to. -/
theorem Moves.kept {d : δ} {p : Desk δ n} (hmoves : Moves (Desk.start n d) p) : p.Kept := by
  induction hmoves with
  | refl => exact Desk.start_kept d
  | tail _ hmove ih => exact hmove.kept ih

/-! ## The operations of the cache -/

/-- The party can get to this cache with just what it holds. -/
def Desk.Gets (p : Desk δ n) (cache : Cache δ n) : Prop := ∃ table, Moves p ⟨⟨cache, table⟩, p.held⟩

namespace Desk

variable {p : Desk δ n} {taken used cache : Cache δ n} {log : List Event}

/-- An access is a move. -/
theorem Kept.move_of_acquire {fill : Fill} (h : p.Kept)
    (hrun : Cache.acquire fill s p.dir.cache = ⟨.ok i, taken, log⟩) :
    ∃ table, Move p ⟨⟨taken, table⟩, i :: p.held⟩ := by
  have hagrees := acquire_agrees h.fits.agrees h.fits.settled fill s 0
  rw [hrun] at hagrees
  exact ⟨_, .ask hagrees⟩

/-- Asking for a sector, some work, and letting go of it again. -/
theorem Kept.gets_of_ask {fill : Fill} (h : p.Kept)
    (hrun : Cache.acquire fill s p.dir.cache = ⟨.ok i, taken, log⟩)
    (hwork : ∀ table, Kept ⟨⟨taken, table⟩, i :: p.held⟩ → Gets ⟨⟨taken, table⟩, i :: p.held⟩ used) :
    p.Gets (used.unpin i) := by
  obtain ⟨table, hask⟩ := h.move_of_acquire hrun
  obtain ⟨table', hmoves⟩ := hwork table (hask.kept h)
  have hleave := Move.leave (p := ⟨⟨used, table'⟩, i :: p.held⟩) (i := i) List.mem_cons_self
  rw [List.erase_cons_head] at hleave
  exact ⟨table', (Relation.ReflTransGen.head hask hmoves).tail hleave⟩

theorem Gets.kept (h : p.Kept) (hgets : p.Gets cache) :
    ∃ table, Moves p ⟨⟨cache, table⟩, p.held⟩ ∧ Kept ⟨⟨cache, table⟩, p.held⟩ := by
  obtain ⟨table, hmoves⟩ := hgets
  refine ⟨table, hmoves, ?_⟩
  generalize (⟨⟨cache, table⟩, p.held⟩ : Desk δ n) = q at hmoves
  induction hmoves with
  | refl => exact h
  | tail _ hmove ih => exact hmove.kept ih

end Desk

mutual

/-- A request that is answered is such moves, whatever the party holds. -/
theorem run_moves {p : Desk δ n} {base : CacheStats} {r : Request} {answer : Response × CacheStats}
    {cache : Cache δ n} {log : List Event} (h : p.Kept)
    (hrun : r.run base p.dir.cache = ⟨.ok answer, cache, log⟩) : p.Gets cache := by
  match r, Request.ran_of_run hrun with
  | .read s, .read i taken hacquire => exact h.gets_of_ask hacquire fun table _ => ⟨table, .refl⟩
  | .write s b, .write i taken hacquire =>
    exact h.gets_of_ask hacquire fun table _ => ⟨table, .single (.amend List.mem_cons_self fun _ => b)⟩
  | .map s inner, .map i taken hacquire hinner =>
    exact h.gets_of_ask hacquire fun table hkept => runAll_moves (p := ⟨⟨taken, table⟩, i :: p.held⟩) hkept hinner
  | .update s change inner, .update i taken hacquire hinner =>
    refine h.gets_of_ask hacquire fun table hkept => ?_
    -- the frame is dirty before the requests are made, and is changed after them
    have hbegin := Move.amend (p := ⟨⟨taken, table⟩, i :: p.held⟩) List.mem_cons_self id
    obtain ⟨table', hmoves⟩ := runAll_moves (hbegin.kept hkept) hinner
    exact ⟨table', (Relation.ReflTransGen.head hbegin hmoves).tail (.amend List.mem_cons_self change)⟩
  | .flush, .flush hflush =>
    have hlift : lift Cache.flush p.dir = ⟨.ok (), ⟨cache, p.dir.table⟩, (Cache.flush p.dir.cache).log⟩ := by
      unfold lift
      rw [hflush]
    exact ⟨p.dir.table, .single (.flush hlift)⟩
  | .reset, .reset hreset =>
    obtain ⟨table, hagrees⟩ := reset_agrees p.dir
    rw [hreset] at hagrees
    exact ⟨table, .single (.reset hagrees)⟩
  | .inspect, .inspect | .sample, .sample | .sinceSample, .sinceSample _ => exact ⟨p.dir.table, .refl⟩

/-- Requests that are answered one after the other are such moves. -/
theorem runAll_moves {p : Desk δ n} {base : CacheStats} {rs : List Request}
    {answers : List Response × CacheStats} {cache : Cache δ n} {log : List Event} (h : p.Kept)
    (hrun : Request.runAll base rs p.dir.cache = ⟨.ok answers, cache, log⟩) : p.Gets cache := by
  match rs with
  | [] =>
    cases hrun
    exact ⟨p.dir.table, .refl⟩
  | r :: rest =>
    obtain ⟨answer, mid, answers, log₁, log₂, hfirst, hrest, rfl⟩ := Request.runAll_ok hrun
    obtain ⟨table, hmoves, hkept⟩ := (run_moves h hfirst).kept h
    obtain ⟨table', hmoves'⟩ := runAll_moves (p := ⟨⟨mid, table⟩, p.held⟩) hkept hrest
    exact ⟨table', hmoves.trans hmoves'⟩

end

/-- **Lists, table and frames are consistent** wherever one party gets to with the cache, also while it holds
    frames. No look meets a sector on its way to the device, so an access is over after one pass; it ends as the
    access of the cache does, which has no loop. And whatever requests the cache goes on to answer, they lead to
    another such place. -/
theorem consistent_throughout {d : δ} {p : Desk δ n} (hmoves : Moves (Desk.start n d) p) :
    p.dir.Consistent ∧
      (∀ s i, (seek s p.dir).result ≠ .ok (.busy i)) ∧
      (∀ fill s passes, acquire fill s (passes + 1) p.dir = pass fill s p.dir ∧
        (pass fill s p.dir).result = (Cache.acquire fill s p.dir.cache).result.map some ∧
        (pass fill s p.dir).state.cache = (Cache.acquire fill s p.dir.cache).state ∧
        (pass fill s p.dir).log = (Cache.acquire fill s p.dir.cache).log) ∧
      ∀ {base rs answers cache log}, Request.runAll base rs p.dir.cache = ⟨.ok answers, cache, log⟩ →
        ∃ table, Moves p ⟨⟨cache, table⟩, p.held⟩ := by
  have h := hmoves.kept
  have hagrees := h.fits.agrees
  have hout := h.fits.settled
  refine ⟨h.fits.consistent, ?_, ?_, fun hrun => runAll_moves h hrun⟩
  · intro s i
    rw [seek_agrees hagrees]
    exact seek_not_busy hout s i
  · intro fill s passes
    have hpass := pass_agrees hagrees hout fill s
    refine ⟨acquire_of_pass hpass passes, ?_, ?_, ?_⟩
    · rw [hpass]
    · rw [hpass]
    · rw [hpass]

/-- One frame for two sectors: sector 0 was written and let go. -/
def soiledDesk : Desk RamDisk 1 :=
  let taken := (acquire .overwrite 0 1 (Directory.blank 1 (RamDisk.blank 2))).state
  let soiled := (lift (amendFrame 0 fun _ => Block.zero) taken).state
  ⟨{ soiled with cache := soiled.cache.unpin 0 }, []⟩

/-- Sector 1 was asked for then, and is held in the frame that sector 0 had to leave. -/
def evictedDesk : Desk RamDisk 1 := ⟨(acquire .readThrough 1 1 soiledDesk.dir).state, [0]⟩

/-- An access that is known to end well is a move. -/
theorem Move.ask_of_result {p : Desk δ n} (fill : Fill) (s : SectorId) (passes : Nat) (i : Fin n)
    (h : (acquire fill s passes p.dir).result = .ok (some i)) :
    Move p ⟨(acquire fill s passes p.dir).state, i :: p.held⟩ := by
  have hrun : acquire fill s passes p.dir =
      ⟨.ok (some i), (acquire fill s passes p.dir).state, (acquire fill s passes p.dir).log⟩ := by rw [← h]
  exact .ask hrun

theorem soiledDesk_reached : Moves (Desk.start 1 (RamDisk.blank 2)) soiledDesk := by
  have hask : Move (Desk.start 1 (RamDisk.blank 2)) _ :=
    .ask_of_result .overwrite 0 1 0 rfl
  exact ((Relation.ReflTransGen.single hask).tail (.amend List.mem_cons_self fun _ => Block.zero)).tail
    (.leave List.mem_cons_self)

theorem evictedDesk_reached : Moves (Desk.start 1 (RamDisk.blank 2)) evictedDesk :=
  soiledDesk_reached.tail (.ask_of_result .readThrough 1 1 0 rfl)

/-- The frame is the new sector's in the table, too, and the one that left is not in it. -/
theorem consistent_throughout_evicted : evictedDesk.dir.Consistent ∧
    evictedDesk.dir.table[(1 : SectorId)]? = some 0 ∧ evictedDesk.dir.table[(0 : SectorId)]? = none :=
  ⟨(consistent_throughout evictedDesk_reached).1, rfl, rfl⟩

end InodeStore.Cache.Directory
