import InodeStore.Proofs.Cache.Shelf

/-!
# `Proofs.Cache.Inclusion` — a larger cache costs no more

Two shelves are used alike, one of `c` lines and one of `c'`, with `c ≤ c'`. `Within` is what stays true of
them: the sectors of the smaller one are the first `c` of the larger one, and what is dirty in the smaller
one is dirty in the larger one.

The larger shelf has more that is dirty, and writes it at other times, so the writes cannot be compared
one by one. What a shelf has spent (`Shelf.spent`) counts a write as soon as a line becomes dirty. Pushing
a line off the end or flushing changes nothing about it, and a line becomes dirty in the larger shelf only
when it does so in the smaller one as well.

## Contents
- **One shelf.** `Shelf.spent` and what requests do to it.
- **Two shelves.** `Within`, kept by every request (`Within.shelve`).
- **Two caches.** `runAll_within` and `larger_cache_cheaper`.
-/

namespace InodeStore.Cache

/-! ## Lists without duplicates -/

section Lists

variable {α : Type} [BEq α] [LawfulBEq α]

/-- What is left of the first `c` entries without `x` are the first ones of those that are not `x`. -/
theorem take_filter_take {x : α} : ∀ {l : List α}, l.Nodup → ∀ k,
    ((l.take (k + 1)).filter (· != x)).take k = (l.filter (· != x)).take k := by
  intro l hl k
  induction l generalizing k with
  | nil => rfl
  | cons y rest ih =>
    obtain ⟨hy, hrest⟩ := List.nodup_cons.mp hl
    rw [List.take_succ_cons]
    by_cases h : y = x
    · -- the entry that is left out is the first one, and nothing more is
      subst h
      have hall : ∀ z ∈ rest, (z != y) = true := fun z hz => bne_iff_ne.mpr fun he => hy (he ▸ hz)
      rw [List.filter_cons_of_neg (by simp), List.filter_cons_of_neg (by simp),
        List.filter_eq_self.mpr fun z hz => hall z (List.mem_of_mem_take hz),
        List.filter_eq_self.mpr hall, List.take_take, Nat.min_self]
    · rw [List.filter_cons_of_pos (by simpa using h), List.filter_cons_of_pos (by simpa using h)]
      cases k with
      | zero => rfl
      | succ k => rw [List.take_succ_cons, List.take_succ_cons, ih hrest]

end Lists

/-! ## One shelf -/

namespace Shelf

variable {shelf : Shelf} {n : Nat} {fill : Fill} {s : SectorId} {line line' : Line}

/-- The sectors, the most recently used first. -/
def sectors (shelf : Shelf) : List (Option SectorId) := shelf.lines.map Line.sector

/-- The writes that were made, and those that are due. -/
def spent (shelf : Shelf) : Nat := shelf.writes + shelf.dirtyCount

/-- A sector has one line. -/
theorem line_eq (h : shelf.sectors.Nodup) (hl : line ∈ shelf.lines) (hl' : line' ∈ shelf.lines)
    (hs : line.sector = line'.sector) : line = line' :=
  List.inj_on_of_nodup_map h hl hl' hs

theorem mem_of_line? (h : shelf.line? s = some line) : line ∈ shelf.lines ∧ line.sector = some s := by
  unfold line? at h
  exact ⟨List.mem_of_find?_eq_some h, by simpa using List.find?_some h⟩

/-- The line of a sector is there if any line has the sector. -/
theorem line?_eq_some (h : shelf.sectors.Nodup) (hl : line ∈ shelf.lines)
    (hs : line.sector = some s) : shelf.line? s = some line := by
  cases hfind : shelf.line? s with
  | none =>
    have := List.find?_eq_none.mp hfind line hl
    rw [hs] at this
    exact absurd (beq_self_eq_true _) this
  | some first =>
    obtain ⟨hmem, hfirst⟩ := mem_of_line? hfind
    rw [line_eq h hmem hl (hfirst.trans hs.symm)]

theorem line?_isSome_iff : (shelf.line? s).isSome = true ↔ some s ∈ shelf.sectors := by
  unfold line? sectors
  rw [List.find?_isSome, List.mem_map]
  simp only [beq_iff_eq]

theorem sectors_others : (shelf.others s).map Line.sector = shelf.sectors.filter (· != some s) := by
  unfold others sectors
  rw [List.filter_map]
  rfl

/-- The sectors of a shelf after an access. -/
theorem sectors_acquire : (shelf.acquire n fill s).sectors =
    some s :: (shelf.sectors.filter (· != some s)).take (n - 1) := by
  rw [← sectors_others, ← List.map_take]
  rfl

/-- What is dirty is the line of the sector, or among the others. -/
theorem dirtyCount_split (h : shelf.sectors.Nodup) : shelf.dirtyCount =
    (if ((shelf.line? s).map Line.dirty).getD false then 1 else 0) + (shelf.others s).countP Line.dirty := by
  obtain ⟨lines, hits, reads, writes⟩ := shelf
  unfold dirtyCount line? others
  unfold sectors at h
  dsimp only at h ⊢
  induction lines with
  | nil => rfl
  | cons line rest ih =>
    rw [List.map_cons, List.nodup_cons] at h
    rw [List.countP_cons, List.find?_cons, List.filter_cons]
    by_cases hs : line.sector = some s
    · have hrest : ∀ other ∈ rest, (other.sector != some s) = true := fun other hother =>
        bne_iff_ne.mpr fun he => h.1 (List.mem_map.mpr ⟨other, hother, he.trans hs.symm⟩)
      rw [hs, List.filter_eq_self.mpr hrest]
      simp [Nat.add_comm]
    · rw [ih h.2, beq_eq_false_iff_ne.mpr hs, bne_iff_ne.mpr hs, if_pos rfl, List.countP_cons]
      dsimp only
      omega

/-- A line that falls off the end is written, if it is dirty, and is not due any more. -/
theorem spent_acquire (h : shelf.sectors.Nodup) : (shelf.acquire n fill s).spent = shelf.spent := by
  have hsplit := dirtyCount_split (s := s) h
  have htake : (shelf.others s).countP Line.dirty =
      ((shelf.others s).take (n - 1)).countP Line.dirty +
        ((shelf.others s).drop (n - 1)).countP Line.dirty := by
    rw [← List.countP_append, List.take_append_drop]
  unfold spent
  rw [hsplit, htake]
  unfold acquire dirtyCount
  rw [List.countP_cons]
  dsimp only
  omega

theorem sectors_soil : shelf.soil.sectors = shelf.sectors := by
  unfold soil sectors
  cases shelf.lines with
  | nil => rfl
  | cons first rest => rfl

theorem soil_of_nil (h : shelf.lines = []) : shelf.soil = shelf := by
  obtain ⟨lines, hits, reads, writes⟩ := shelf
  obtain rfl : lines = [] := h
  rfl

/-- A line that becomes dirty is a write that is due. -/
theorem spent_soil {rest : List Line} (h : shelf.lines = line :: rest) :
    shelf.soil.spent = shelf.spent + if line.dirty then 0 else 1 := by
  unfold soil spent dirtyCount
  dsimp only
  rw [h, List.modifyHead_cons, List.countP_cons, List.countP_cons]
  cases line.dirty with
  | true => rfl
  | false => rfl

/-- After a flush nothing is dirty, and nothing more was spent. -/
theorem spent_flush : shelf.flush.spent = shelf.spent ∧ shelf.flush.dirtyCount = 0 := by
  have hclean : shelf.flush.dirtyCount = 0 := by
    refine List.countP_eq_zero.mpr fun line hline => ?_
    obtain ⟨old, -, rfl⟩ := List.mem_map.mp hline
    simp
  refine ⟨?_, hclean⟩
  unfold spent
  rw [hclean]
  rfl

end Shelf

/-! ## Two shelves -/

/-- What is true of a shelf of `c` lines and a larger one that was used alike. -/
structure Within (c : Nat) (small large : Shelf) : Prop where
  nodup : large.sectors.Nodup
  sectors : small.sectors = large.sectors.take c
  /-- What is dirty in the smaller shelf is dirty in the larger one. -/
  dirty : ∀ line ∈ small.lines, line.dirty = true → line ∈ large.lines
  hits : small.hits ≤ large.hits
  reads : large.reads ≤ small.reads
  spent : large.spent ≤ small.spent

namespace Within

variable {c n : Nat} {small large : Shelf} {fill : Fill} {s : SectorId} {line : Line}

theorem nodup_small (h : Within c small large) : small.sectors.Nodup :=
  h.sectors ▸ h.nodup.take

theorem sectors_subset (h : Within c small large) : small.sectors ⊆ large.sectors :=
  h.sectors ▸ List.take_subset c _

/-- The smaller shelf has no more that is dirty. -/
theorem dirtyCount_le (h : Within c small large) : small.dirtyCount ≤ large.dirtyCount := by
  unfold Shelf.dirtyCount
  rw [List.countP_eq_length_filter, List.countP_eq_length_filter]
  have hnodup : small.lines.Nodup := List.Nodup.of_map _ h.nodup_small
  refine (List.subperm_of_subset (hnodup.filter _) fun line hline => ?_).length_le
  obtain ⟨hmem, hdirty⟩ := List.mem_filter.mp hline
  exact List.mem_filter.mpr ⟨h.dirty line hmem hdirty, hdirty⟩

/-- The larger shelf has made no more writes. -/
theorem writes (h : Within c small large) : large.writes ≤ small.writes := by
  have hspent := h.spent
  have hdirty := h.dirtyCount_le
  unfold Shelf.spent at hspent
  omega

/-- A hit of the smaller shelf is one of the larger shelf. -/
theorem hit (h : Within c small large) (hs : (small.line? s).isSome = true) :
    (large.line? s).isSome = true :=
  Shelf.line?_isSome_iff.mpr (h.sectors_subset (Shelf.line?_isSome_iff.mp hs))

/-- The line of a sector that is dirty in the smaller shelf is the one of the larger shelf. -/
theorem line?_dirty (h : Within c small large)
    (hs : ((small.line? s).map Line.dirty).getD false = true) : large.line? s = some ⟨some s, true⟩ := by
  cases hline : small.line? s with
  | none => rw [hline] at hs; cases hs
  | some line =>
    rw [hline] at hs
    obtain ⟨hmem, hsector⟩ := Shelf.mem_of_line? hline
    have hdirty : line.dirty = true := hs
    have hsame : line = ⟨some s, true⟩ := by
      rw [← hsector, ← hdirty]
    rw [Shelf.line?_eq_some h.nodup (h.dirty line hmem hdirty) hsector, hsame]

/-- The sectors of the larger shelf go on starting with those of the smaller one. -/
theorem sectors_acquire (h : Within c small large) (hc : 0 < c) (hn : c ≤ n) :
    (small.acquire c fill s).sectors = (large.acquire n fill s).sectors.take c := by
  obtain ⟨k, rfl⟩ : ∃ k, c = k + 1 := ⟨c - 1, by omega⟩
  have hmin : min k (n - 1) = k := by omega
  rw [Shelf.sectors_acquire, Shelf.sectors_acquire, h.sectors, List.take_succ_cons, List.take_take, hmin]
  exact congrArg (some s :: ·) (take_filter_take h.nodup k)

/-- **An access** keeps the smaller shelf within the larger one. -/
theorem acquire (h : Within c small large) (hc : 0 < c) (hn : c ≤ n) (fill : Fill) (s : SectorId) :
    Within c (small.acquire c fill s) (large.acquire n fill s) where
  nodup := by
    rw [Shelf.sectors_acquire, List.nodup_cons]
    refine ⟨fun hmem => ?_, (h.nodup.filter _).take⟩
    have := List.mem_of_mem_take hmem
    simp at this
  sectors := h.sectors_acquire hc hn
  dirty line hline hdirty := by
    rcases List.mem_cons.mp hline with rfl | hmem
    · -- the line in front is dirty if it was
      have hlarge := h.line?_dirty hdirty
      refine List.mem_cons.mpr (Or.inl ?_)
      rw [hlarge]
      exact congrArg (Line.mk _) hdirty
    · -- any other line is dirty in the larger shelf, where its sector has not fallen off
      obtain ⟨hold, hne⟩ := List.mem_filter.mp (List.mem_of_mem_take hmem)
      have hlarge : line ∈ large.others s := List.mem_filter.mpr ⟨h.dirty line hold hdirty, hne⟩
      have hkept : line.sector ∈ (large.acquire n fill s).sectors := by
        refine List.mem_of_mem_take (i := c) ?_
        rw [← h.sectors_acquire hc hn]
        exact List.mem_map_of_mem hline
      rw [Shelf.sectors_acquire, ← Shelf.sectors_others, List.mem_cons, ← List.map_take] at hkept
      rcases hkept with he | hkept
      · exact absurd he (bne_iff_ne.mp hne)
      · obtain ⟨other, hother, hsector⟩ := List.mem_map.mp hkept
        have hmem : other ∈ large.lines := (List.mem_filter.mp (List.mem_of_mem_take hother)).1
        rw [← Shelf.line_eq h.nodup hmem (h.dirty line hold hdirty) hsector]
        exact List.mem_cons_of_mem _ hother
  hits := by
    have hhits := h.hits
    unfold Shelf.acquire
    dsimp only
    split
    · next hs => rw [if_pos (h.hit hs)]; omega
    · omega
  reads := by
    have hreads := h.reads
    unfold Shelf.acquire
    dsimp only
    split
    · next hs =>
      have hmiss : (small.line? s).isNone = true := by
        cases hsmall : small.line? s with
        | none => rfl
        | some line =>
          have hlarge := h.hit (s := s) (by rw [hsmall]; rfl)
          rw [Option.isNone_iff_eq_none.mp hs.1] at hlarge
          cases hlarge
      rw [if_pos ⟨hmiss, hs.2⟩]
      omega
    · omega
  spent := by
    rw [Shelf.spent_acquire h.nodup, Shelf.spent_acquire h.nodup_small]
    exact h.spent

/-- A line that is changed becomes dirty in both shelves, if it was not dirty in the larger one before. -/
theorem soil (h : Within c small large) (hc : 0 < c) : Within c small.soil large.soil := by
  cases hlarge : large.lines with
  | nil =>
    have hsectors : small.sectors = [] := by
      rw [h.sectors, Shelf.sectors, hlarge, List.map_nil, List.take_nil]
    have hsmall : small.lines = [] := List.map_eq_nil_iff.mp hsectors
    rw [Shelf.soil_of_nil hsmall, Shelf.soil_of_nil hlarge]
    exact h
  | cons first rest =>
    -- the lines in front have the same sector
    obtain ⟨k, rfl⟩ : ∃ k, c = k + 1 := ⟨c - 1, by omega⟩
    have hsectors : small.lines.map Line.sector = first.sector :: (rest.map Line.sector).take k := by
      have := h.sectors
      rwa [Shelf.sectors, Shelf.sectors, hlarge, List.map_cons, List.take_succ_cons] at this
    obtain ⟨head, tail, hsmall, hhead, -⟩ := List.map_eq_cons_iff.mp hsectors
    have hfirst : head.dirty = true → head = first := fun hdirty =>
      Shelf.line_eq h.nodup (h.dirty head (hsmall ▸ List.mem_cons_self) hdirty)
        (hlarge ▸ List.mem_cons_self) hhead
    refine ⟨?_, ?_, ?_, h.hits, h.reads, ?_⟩
    · rw [Shelf.sectors_soil]
      exact h.nodup
    · rw [Shelf.sectors_soil, Shelf.sectors_soil]
      exact h.sectors
    · intro line hline hdirty
      unfold Shelf.soil at hline ⊢
      dsimp only at hline ⊢
      rw [hsmall, List.modifyHead_cons] at hline
      rw [hlarge, List.modifyHead_cons]
      rcases List.mem_cons.mp hline with rfl | hmem
      · rw [hhead]
        exact List.mem_cons_self
      · have hnodup := h.nodup_small
        rw [Shelf.sectors, hsmall, List.map_cons, List.nodup_cons] at hnodup
        have hold := h.dirty line (hsmall ▸ List.mem_cons_of_mem _ hmem) hdirty
        rw [hlarge] at hold
        rcases List.mem_cons.mp hold with rfl | hrest
        · exact absurd (hhead ▸ List.mem_map_of_mem hmem) hnodup.1
        · exact List.mem_cons_of_mem _ hrest
    · rw [Shelf.spent_soil hlarge, Shelf.spent_soil hsmall]
      have hspent := h.spent
      cases hdirty : head.dirty with
      | true => rw [← hfirst hdirty, hdirty]; exact hspent
      | false =>
        cases first.dirty with
        | true => exact Nat.le_add_right_of_le hspent
        | false => exact Nat.succ_le_succ hspent

/-- **A flush** keeps the smaller shelf within the larger one. -/
theorem flush (h : Within c small large) : Within c small.flush large.flush where
  nodup := by
    have hsame : large.flush.sectors = large.sectors := List.map_map
    exact hsame ▸ h.nodup
  sectors := by
    have hsmall : small.flush.sectors = small.sectors := List.map_map
    have hlarge : large.flush.sectors = large.sectors := List.map_map
    rw [hsmall, hlarge, h.sectors]
  dirty line hline hdirty := by
    obtain ⟨old, -, rfl⟩ := List.mem_map.mp hline
    cases hdirty
  hits := h.hits
  reads := h.reads
  spent := by
    rw [Shelf.spent_flush.1, Shelf.spent_flush.1]
    exact h.spent

/-- Empty shelves are within each other. -/
theorem empty (h : Within c small large) : Within c small.empty large.empty where
  nodup := List.nodup_nil
  sectors := (List.take_nil).symm
  dirty _ hline := absurd hline List.not_mem_nil
  hits := Nat.le_refl 0
  reads := h.reads
  spent := Nat.add_le_add_right h.writes 0

/-- **Every request** keeps the smaller shelf within the larger one. -/
theorem shelve (h : Within c small large) (hc : 0 < c) (hn : c ≤ n) (request : Request) :
    Within c (request.shelve c small) (request.shelve n large) := by
  cases request with
  | read s => exact h.acquire hc hn _ s
  | write s b => exact (h.acquire hc hn _ s).soil hc
  | map s inner => exact h.acquire hc hn _ s
  | update s change inner => exact (h.acquire hc hn _ s).soil hc
  | flush => exact h.flush
  | reset => exact h.flush.empty
  | inspect | sample | sinceSample => exact h

end Within

/-! ## Two caches -/

section Caches

variable {c n count : Nat} {small : Cache RamDisk c} {large : Cache RamDisk n} {a : SectorArray}

/-- A request that is not nested fits any cache. -/
theorem Request.Flat.fits {request : Request} (h : request.Flat count) (hn : 0 < n) :
    request.Fits count n [] := by
  match request, h with
  | .read s, hs | .write s _, hs => exact ⟨hs, List.not_mem_nil, hn⟩
  | .map s inner, ⟨hinner, hs⟩ | .update s _ inner, ⟨hinner, hs⟩ =>
    subst hinner
    exact ⟨⟨hs, List.not_mem_nil, hn⟩, trivial⟩
  | .flush, _ | .reset, _ => rfl

/-- Requests that are not nested are answered alike by a cache and a larger one, and keep its shelf within
    that of the larger one. -/
theorem runAll_within (hc : 0 < c) (hn : c ≤ n) (base : CacheStats) (requests : List Request)
    (hflat : ∀ request ∈ requests, request.Flat count) (hsmall : small.Coherent a)
    (hlarge : large.Coherent a) (hp : small.Unpinned) (hp' : large.Unpinned)
    (hcount : BlockDevice.sectorCount small.device = count)
    (hcount' : BlockDevice.sectorCount large.device = count) (h : Within c small.shelf large.shelf) :
    ∃ small' large' log log' answers,
      Request.runAll base requests small = ⟨.ok (answers, base), small', log⟩ ∧
      Request.runAll base requests large = ⟨.ok (answers, base), large', log'⟩ ∧
      Within c small'.shelf large'.shelf := by
  induction requests generalizing small large a with
  | nil => exact ⟨small, large, [], [], [], rfl, rfl, h⟩
  | cons request rest ih =>
    obtain ⟨hfirst, hrest⟩ := List.forall_mem_cons.mp hflat
    have hshelf := run_shelf hsmall hp base hc (hcount ▸ hfirst)
    have hshelf' := run_shelf hlarge hp' base (by omega) (hcount' ▸ hfirst)
    obtain ⟨small₁, log₁, hrun, hsmall₁, hsame⟩ :=
      run_coherent base request (hfirst.fits hc) hsmall hp.pinnedBy hcount
    obtain ⟨large₁, log₁', hrun', hlarge₁, hsame'⟩ :=
      run_coherent base request (hfirst.fits (by omega)) hlarge hp'.pinnedBy hcount'
    rw [hrun] at hshelf
    rw [hrun'] at hshelf'
    have h₁ : Within c small₁.shelf large₁.shelf := by
      rw [hshelf, hshelf']
      exact h.shelve hc hn request
    obtain ⟨small₂, large₂, log₂, log₂', answers, hruns, hruns', h₂⟩ :=
      ih hrest hsmall₁ hlarge₁ (hsame.unpinned hp) (hsame'.unpinned hp') (hsame.count.trans hcount)
        (hsame'.count.trans hcount') h₁
    refine ⟨small₂, large₂, log₁ ++ (log₂ ++ []), log₁' ++ (log₂' ++ []),
      (request.apply a).1 :: answers, ?_, ?_, h₂⟩
    · simp only [Request.runAll, Action.bind_def, hrun, hruns, Action.pure_def]
    · simp only [Request.runAll, Action.bind_def, hrun', hruns', Action.pure_def]

end Caches

/-- **A larger cache costs no more.** Requests that are not nested are made of a cache of `c` frames in
    front of a RAM disk and of one of at least as many. After each of them both have given the same answers,
    what is in the smaller cache is in the larger one, the larger one has had no fewer hits since the last
    reset, and its disk no more reads and no more writes. -/
theorem larger_cache_cheaper (disk : RamDisk) (base : CacheStats) {c n : Nat} (hc : 0 < c) (hn : c ≤ n)
    (requests : List Request)
    (hflat : ∀ request ∈ requests, request.Flat (BlockDevice.sectorCount disk)) :
    ∀ done, done <+: requests →
      let small := Request.runAll base done (blank c disk)
      let large := Request.runAll base done (blank n disk)
      (∃ answers, small.result = .ok (answers, base) ∧ large.result = .ok (answers, base)) ∧
      (∀ s, small.state.isCached s = true → large.state.isCached s = true) ∧
      small.state.hits ≤ large.state.hits ∧
      large.state.device.reads ≤ small.state.device.reads ∧
      large.state.device.writes ≤ small.state.device.writes := by
  intro done hdone small large
  have hblank : Within c (blank c disk).shelf (blank n disk).shelf :=
    ⟨List.nodup_nil, List.take_nil.symm, fun _ hline => absurd hline List.not_mem_nil, Nat.le_refl _,
      Nat.le_refl _, Nat.le_refl _⟩
  have hd : LawfulDevice.Sound disk := trivial
  obtain ⟨small', large', log, log', answers, hrun, hrun', h⟩ :=
    runAll_within hc hn base done (fun request hmem => hflat request (hdone.subset hmem))
      (blank_coherent hd) (blank_coherent hd) (blank_unpinned disk) (blank_unpinned disk) rfl rfl hblank
  have hsmall : small = ⟨.ok (answers, base), small', log⟩ := hrun
  have hlarge : large = ⟨.ok (answers, base), large', log'⟩ := hrun'
  rw [hsmall, hlarge]
  refine ⟨⟨answers, rfl, rfl⟩, fun s hs => ?_, h.hits, h.reads, h.writes⟩
  rw [isCached_iff] at hs ⊢
  exact h.sectors_subset hs

/-- Two frames against one, where sectors are pushed out dirty, flushed and reset. -/
theorem larger_cache_cheaper_two :
    let requests : List Request :=
      [.write 0 Block.zero, .read 1, .update 0 (·.splice 4 #[5]) [], .map 1 [], .flush,
        .write 3 Block.zero, .read 0, .reset, .update 3 (·.splice 0 #[7]) []]
    (∀ request ∈ requests, request.Flat 4) ∧
      (∃ answers, (Request.runAll {} requests (blank 1 (RamDisk.blank 4))).result = .ok (answers, {}) ∧
        (Request.runAll {} requests (blank 2 (RamDisk.blank 4))).result = .ok (answers, {})) ∧
      (Request.runAll {} requests (blank 2 (RamDisk.blank 4))).state.device.writes ≤
        (Request.runAll {} requests (blank 1 (RamDisk.blank 4))).state.device.writes := by
  intro requests
  have hcount : BlockDevice.sectorCount (RamDisk.blank 4) = 4 := Array.size_replicate
  have hflat : ∀ request ∈ requests, request.Flat 4 := by
    simp [requests, Request.Flat]
  have hlarger : 1 ≤ 2 := by decide
  obtain ⟨hanswers, -, -, -, hwrites⟩ := larger_cache_cheaper (RamDisk.blank 4) {} Nat.zero_lt_one
    hlarger requests (hcount ▸ hflat) requests (List.prefix_refl _)
  exact ⟨hflat, hanswers, hwrites⟩

end InodeStore.Cache
