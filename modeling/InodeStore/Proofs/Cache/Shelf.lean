import InodeStore.Proofs.Cache.Outcome
import InodeStore.Proofs.Cache.Transparency

/-!
# `Proofs.Cache.Shelf` — the order of the sectors in a cache

What a cache costs depends on nothing but the order in which its sectors were used and on which of them
are dirty. A `Shelf` is that order, with the counters. `Shelf.acquire` is what an access does to it: the
line of the sector goes to the front, and where there is no room the last line falls off, which is one
write if it is dirty. While no frame is pinned, the operations of a cache in front of a RAM disk do to its
shelf what those of `Shelf` do (`run_shelf`), and frames and blocks do not occur any more.

## Contents
- `Line`, `lines`, `Shelf`, `shelf`.
- **Shelves.** `Shelf.acquire`, `Shelf.soil`, `Shelf.flush`, `Shelf.empty`, and `Request.shelve`.
- **Caches.** `acquire_shelf`, `flush_shelf`, `reset_shelf`, `run_shelf`.
-/

namespace InodeStore.Cache

/-! ## Shelves -/

/-- A frame in use: the sector it carries, and whether it has newer content of it than the device. -/
structure Line where
  sector : Option SectorId
  dirty : Bool
  deriving DecidableEq

/-- What a cache has in it, the most recently used line first, and what that has cost. -/
structure Shelf where
  lines : List Line
  /-- Hits since the counters were last set to zero. -/
  hits : Nat
  /-- Sectors read off the device. -/
  reads : Nat
  /-- Sectors written to the device. -/
  writes : Nat

namespace Shelf

/-- The number of dirty lines. -/
def dirtyCount (shelf : Shelf) : Nat := shelf.lines.countP Line.dirty

/-- The line of a sector. -/
def line? (shelf : Shelf) (s : SectorId) : Option Line :=
  shelf.lines.find? fun line => line.sector == some s

/-- The lines of the other sectors. -/
def others (shelf : Shelf) (s : SectorId) : List Line :=
  shelf.lines.filter fun line => line.sector != some s

/-- A sector is asked for on a shelf of `n` lines. -/
def acquire (n : Nat) (fill : Fill) (s : SectorId) (shelf : Shelf) : Shelf where
  lines := ⟨some s, ((shelf.line? s).map Line.dirty).getD false⟩ :: (shelf.others s).take (n - 1)
  hits := shelf.hits + if (shelf.line? s).isSome then 1 else 0
  reads := shelf.reads + if (shelf.line? s).isNone ∧ fill = .readThrough then 1 else 0
  writes := shelf.writes + ((shelf.others s).drop (n - 1)).countP Line.dirty

/-- The content of the line used last is changed. -/
def soil (shelf : Shelf) : Shelf :=
  { shelf with lines := shelf.lines.modifyHead fun line => { line with dirty := true } }

/-- A line is dirty once. -/
theorem soil_soil (shelf : Shelf) : shelf.soil.soil = shelf.soil := by
  unfold soil
  rw [List.modifyHead_modifyHead]
  rfl

/-- Every dirty line is written. -/
def flush (shelf : Shelf) : Shelf :=
  { shelf with
    lines := shelf.lines.map fun line => { line with dirty := false }
    writes := shelf.writes + shelf.dirtyCount }

/-- Every line is taken away, and the hits are counted anew. -/
def empty (shelf : Shelf) : Shelf := { shelf with lines := [], hits := 0 }

end Shelf

namespace Request

/-- A request for a sector of a device with `count` of them, or for the whole cache, with no other request
    made meanwhile. -/
def Flat (count : Nat) : Request → Prop
  | .read s | .write s _ => s.toNat < count
  | .map s inner | .update s _ inner => inner = [] ∧ s.toNat < count
  | .flush | .reset => True
  | .inspect | .sample | .sinceSample => False

/-- What a request does to a shelf of `n` lines. -/
def shelve (n : Nat) : Request → Shelf → Shelf
  | .read s, shelf | .map s _, shelf => shelf.acquire n .readThrough s
  | .write s _, shelf => (shelf.acquire n .overwrite s).soil
  | .update s _ _, shelf => (shelf.acquire n .readThrough s).soil
  | .flush, shelf => shelf.flush
  | .reset, shelf => shelf.flush.empty
  | _, shelf => shelf

end Request

/-! ## The shelf of a cache -/

section Lines

variable {δ : Type} {n : Nat} {cache : Cache δ n} {i : Fin n} {s : SectorId}

/-- A frame as a line. -/
def line (cache : Cache δ n) (i : Fin n) : Line := ⟨(cache.frame i).sector, (cache.frame i).dirty⟩

/-- The frames in use as lines, the most recently used first. -/
def lines (cache : Cache δ n) : List Line := cache.recency.map cache.line

theorem line_mapFrame_of_ne {j : Fin n} (change : Frame → Frame) (h : j ≠ i) :
    (cache.mapFrame i change).line j = cache.line j := by
  unfold line
  rw [frame_mapFrame_of_ne _ _ h]

/-- A change that leaves sector and dirt alone is not to be seen. -/
theorem lines_mapFrame {change : Frame → Frame}
    (hsector : (change (cache.frame i)).sector = (cache.frame i).sector)
    (hdirty : (change (cache.frame i)).dirty = (cache.frame i).dirty) :
    (cache.mapFrame i change).lines = cache.lines := by
  refine List.map_congr_left fun j _ => ?_
  by_cases h : j = i
  · unfold line
    rw [h, frame_mapFrame_self, hsector, hdirty]
  · exact line_mapFrame_of_ne change h

/-- A sector is in the cache if there is a line of it. -/
theorem isCached_iff : cache.isCached s = true ↔ some s ∈ cache.lines.map Line.sector := by
  unfold isCached frameOf? lines
  rw [List.find?_isSome, List.map_map, List.mem_map]
  simp only [beq_iff_eq]
  rfl

theorem dirtyCount_lines : cache.lines.countP Line.dirty = cache.dirtyCount := List.countP_map

end Lines

/-- The shelf of a cache. -/
def shelf {n : Nat} (cache : Cache RamDisk n) : Shelf :=
  ⟨cache.lines, cache.hits, cache.device.reads, cache.device.writes⟩

section Sound

variable {δ : Type} {n : Nat} [BlockDevice δ] [LawfulDevice δ] {cache : Cache δ n} {s : SectorId}
  {i : Fin n}

/-- The line of a sector is that of its frame. -/
theorem Sound.others_eq (hc : cache.Sound) (hi : cache.Carries i s) :
    (cache.lines.filter fun line => line.sector != some s) = (cache.recency.erase i).map cache.line := by
  rw [(List.nodup_append.mp hc.nodup).1.erase_eq_filter, lines, List.filter_map]
  congr 1
  refine List.filter_congr fun j hj => ?_
  show ((cache.frame j).sector != some s) = (j != i)
  by_cases h : j = i
  · rw [h, hi.2, bne_self_eq_false, bne_self_eq_false]
  · rw [bne_iff_ne.mpr h, bne_iff_ne.mpr fun he => h (hc.unique ⟨hj, he⟩ hi)]

omit [BlockDevice δ] [LawfulDevice δ] in
/-- Without a frame for the sector, all lines are of others. -/
theorem others_of_miss (hmiss : cache.frameOf? s = none) :
    (cache.lines.filter fun line => line.sector != some s) = cache.lines := by
  refine List.filter_eq_self.mpr fun line hline => ?_
  obtain ⟨j, hj, rfl⟩ := List.mem_map.mp hline
  exact bne_iff_ne.mpr fun he => not_carries_of_frameOf? hmiss j ⟨hj, he⟩

omit [BlockDevice δ] [LawfulDevice δ] in
theorem line?_eq : (cache.lines.find? fun line => line.sector == some s) =
    (cache.frameOf? s).map cache.line := by
  unfold lines frameOf?
  rw [List.find?_map]
  rfl

/-- What is claimed where no frame is pinned: a free frame, or else the last one of the order. -/
theorem Sound.claim?_unpinned (hc : cache.Sound) (hp : cache.Unpinned) {claimed : Cache δ n}
    (h : cache.claim? = some (i, claimed)) :
    claimed.recency = cache.recency.take (n - 1) ∧ claimed.hits = cache.hits ∧
      ((cache.recency.drop (n - 1)).map cache.line).countP Line.dirty =
        if (cache.frame i).dirty then 1 else 0 := by
  have hlength := hc.fitted.length_eq
  unfold claim? at h
  cases hfree : cache.free with
  | cons j rest =>
    rw [hfree] at h hlength
    cases h
    -- a free frame is clean, and there is room for one more
    have hroom : cache.recency.length ≤ n - 1 := by
      rw [List.length_cons] at hlength
      omega
    rw [List.take_of_length_le hroom, List.drop_of_length_le hroom,
      (hc.unused i (hfree ▸ List.mem_cons_self)).2.2.1]
    exact ⟨rfl, rfl, rfl⟩
  | nil =>
    rw [hfree] at h hlength
    have hall : (fun i => (cache.frame i).pins == 0) = fun _ => true :=
      funext fun i => beq_iff_eq.mpr (hp i)
    simp only [hall] at h
    cases hlast : cache.recency.reverse with
    | nil => rw [hlast] at h; cases h
    | cons j rest =>
      rw [hlast] at h
      cases h
      have hsplit : cache.recency = rest.reverse ++ [i] := by
        rw [← List.reverse_reverse cache.recency, hlast, List.reverse_cons]
      have hnodup : (rest.reverse ++ [i]).Nodup := hsplit ▸ (List.nodup_append.mp hc.nodup).1
      have hni : i ∉ rest.reverse := fun hmem =>
        (List.nodup_append.mp hnodup).2.2 i hmem i (List.mem_singleton_self i) rfl
      have hn : n - 1 = rest.reverse.length := by
        rw [hsplit, List.length_append, List.length_singleton, List.length_nil] at hlength
        omega
      refine ⟨?_, rfl, ?_⟩
      · show cache.recency.erase i = _
        rw [hsplit, List.erase_append_right _ hni, List.erase_cons_head, hn, List.take_left,
          List.append_nil]
      · rw [hsplit, hn, List.drop_left]
        show [cache.line i].countP Line.dirty = _
        rw [List.countP_singleton]
        rfl

end Sound

/-! ## Operations on a RAM disk -/

section Disk

variable {n : Nat} {cache : Cache RamDisk n} {a : SectorArray} {s : SectorId} {i : Fin n} {fill : Fill}

/-- The shelf of a cache with the sector in it: its line goes to the front. -/
theorem shelf_acquire_of_hit (hc : cache.Sound) (hit : cache.frameOf? s = some i) :
    cache.shelf.acquire n fill s =
      ⟨cache.line i :: (cache.recency.erase i).map cache.line, cache.hits + 1, cache.device.reads,
        cache.device.writes⟩ := by
  have hi : cache.Carries i s := carries_of_frameOf? hit
  have hline : cache.shelf.line? s = some (cache.line i) := line?_eq.trans (by rw [hit]; rfl)
  have hothers : cache.shelf.others s = (cache.recency.erase i).map cache.line := hc.others_eq hi
  have hroom : ((cache.recency.erase i).map cache.line).length ≤ n - 1 := by
    have := hc.fitted.length_eq
    rw [List.length_map, List.length_erase_of_mem hi.1]
    omega
  unfold Shelf.acquire
  rw [hline, hothers, List.take_of_length_le hroom, List.drop_of_length_le hroom]
  simp [shelf, hi.2, line]

/-- The shelf of a cache without the sector: a new line is put in front, and the last one may fall off. -/
theorem shelf_acquire_of_miss (hmiss : cache.frameOf? s = none) :
    cache.shelf.acquire n fill s =
      ⟨⟨some s, false⟩ :: cache.lines.take (n - 1), cache.hits,
        cache.device.reads + if fill = .readThrough then 1 else 0,
        cache.device.writes + (cache.lines.drop (n - 1)).countP Line.dirty⟩ := by
  have hline : cache.shelf.line? s = none := line?_eq.trans (by rw [hmiss]; rfl)
  have hothers : cache.shelf.others s = cache.lines := others_of_miss hmiss
  unfold Shelf.acquire
  rw [hline, hothers]
  simp [shelf]

/-- Blocks that are written to a RAM disk are as many writes. -/
theorem Puts.meter {blocks : List (SectorId × Block)} {d d' : RamDisk} (h : Puts blocks d d') :
    d'.reads = d.reads ∧ d'.writes = d.writes + blocks.length := by
  induction blocks generalizing d with
  | nil =>
    obtain rfl : d' = d := h
    exact ⟨rfl, rfl⟩
  | cons entry rest ih =>
    obtain ⟨mid, hwrite, hrest⟩ := h
    obtain ⟨hreads, hwrites⟩ := ih hrest
    have hwrite : RamDisk.write entry.1 entry.2 d = (.ok (), mid) := hwrite
    unfold RamDisk.write at hwrite
    split at hwrite
    · cases hwrite
      refine ⟨hreads, hwrites.trans ?_⟩
      show d.writes + 1 + rest.length = d.writes + (rest.length + 1)
      omega
    · cases hwrite

/-- A frame that is filled from a RAM disk is one read. -/
theorem Gets.meter {b : Block} {d d' : RamDisk} (h : Gets fill s b d d') :
    d'.writes = d.writes ∧ d'.reads = d.reads + if fill = .readThrough then 1 else 0 := by
  cases fill with
  | overwrite =>
    obtain rfl : d' = d := h
    exact ⟨rfl, rfl⟩
  | readThrough =>
    have hread : RamDisk.read s d = (.ok b, d') := h
    unfold RamDisk.read at hread
    split at hread
    · cases hread
      exact ⟨rfl, rfl⟩
    · cases hread

theorem spill_meter {old : SectorId} {cache' : Cache RamDisk n} {log : List Event}
    (h : spill i old cache = ⟨.ok (), cache', log⟩) :
    cache'.hits = cache.hits ∧ cache'.device.reads = cache.device.reads ∧
      cache'.device.writes = cache.device.writes + 1 := by
  obtain ⟨d, hwrite, rfl⟩ := spill_ok h
  have hput : Puts [(old, (cache.frame i).data)] cache.device d := ⟨d, hwrite, rfl⟩
  exact ⟨rfl, hput.meter⟩

/-- A frame that is filled is one read, unless its content comes from the caller. -/
theorem fetch_meter {cache' : Cache RamDisk n} {log : List Event}
    (h : fetch i s fill cache = ⟨.ok (), cache', log⟩) :
    cache'.hits = cache.hits ∧ cache'.device.writes = cache.device.writes ∧
      cache'.device.reads = cache.device.reads + if fill = .readThrough then 1 else 0 := by
  obtain ⟨b, d, hget, -, -, heq⟩ := fetch_ok h
  have hdevice : cache'.device = d := congrArg Cache.device heq
  exact ⟨(congrArg Cache.hits heq).trans rfl, hdevice ▸ hget.meter⟩

/-- A frame that was given to the sector and filled is the first line of the cache. -/
theorem lines_of_filled {filled : Cache RamDisk n} (hnew : i ∉ cache.recency.take (n - 1))
    (hrecency : filled.recency = i :: cache.recency.take (n - 1))
    (hother : ∀ j, j ≠ i → filled.frame j = cache.frame j)
    (hsector : (filled.frame i).sector = some s) (hdirty : (filled.frame i).dirty = false) :
    filled.lines = ⟨some s, false⟩ :: cache.lines.take (n - 1) := by
  unfold lines
  rw [hrecency, List.map_cons, ← List.map_take]
  congr 1
  · unfold line
    rw [hsector, hdirty]
  · refine List.map_congr_left fun j hj => ?_
    unfold line
    rw [hother j fun h => hnew (h ▸ hj)]

/-- A sector in the cache is found there, and its frame is the one used last from then on. -/
theorem acquire_hit_shelf (hc : cache.Sound) (fill : Fill) (hit : cache.frameOf? s = some i) :
    ∃ taken, acquire fill s cache = ⟨.ok i, taken, []⟩ ∧ taken.recency.head? = some i ∧
      taken.shelf = cache.shelf.acquire n fill s := by
  let touched : Cache RamDisk n :=
    { cache with
      recency := i :: cache.recency.erase i
      accesses := cache.accesses + 1
      hits := cache.hits + 1 }
  refine ⟨touched.pin i, ?_, rfl, ?_⟩
  · unfold acquire
    rw [Action.bind_def]
    simp only [seek, hit]
    rfl
  · have hlines : (touched.pin i).lines = touched.lines := lines_mapFrame rfl rfl
    rw [shelf_acquire_of_hit hc hit, shelf, hlines]
    rfl

/-- A claimed frame was filled: it is the first in the order, and what was in it cost a write if it was
    dirty. -/
structure Filled (cache claimed : Cache RamDisk n) (fill : Fill) (s : SectorId) (i : Fin n)
    (filled : Cache RamDisk n) : Prop extends Replaced cache s i filled where
  latest : filled.recency = i :: claimed.recency
  settled : (filled.frame i).dirty = false
  hits : filled.hits = claimed.hits
  reads : filled.device.reads = cache.device.reads + if fill = .readThrough then 1 else 0
  writes : filled.device.writes = cache.device.writes + if (cache.frame i).dirty then 1 else 0

/-- An access that displaces no changed data fills the frame at once. -/
theorem acquire_clean_filled {claimed : Cache RamDisk n} {log : List Event} (hc : cache.Sound)
    (hs : s.toNat < BlockDevice.sectorCount cache.device) (hdirty : (cache.frame i).dirty = false)
    (hclaimed : Claimed cache i claimed)
    (hseek : seek s cache = ⟨.ok (.miss i none), handOver claimed i s [], log⟩) :
    ∃ filled log, acquire fill s cache = ⟨.ok i, filled, log⟩ ∧ Filled cache claimed fill s i filled := by
  have hgiven : Replaced cache s i (handOver claimed i s []) := hclaimed.handOver_replaced hc.device []
  obtain ⟨filled, hfetch, hfill, -, b, hframe, -⟩ :=
    fetch_eq (i := i) (s := s) fill hgiven.device (hgiven.count ▸ hs)
  obtain ⟨hhits, hwrites, hreads⟩ := fetch_meter hfetch
  have hdevice : (handOver claimed i s []).device = cache.device := hclaimed.device
  refine ⟨filled, _, acquire_of_clean_miss hseek hfetch,
    hgiven.transfer hfill (by rw [hframe]) (by rw [hframe]), hfill.recency, by rw [hframe], hhits, ?_, ?_⟩
  · rw [hreads, hdevice]
  · rw [hwrites, hdevice, hdirty]
    rfl

/-- An access that displaces changed data writes them first. -/
theorem acquire_dirty_filled {claimed : Cache RamDisk n} {old : SectorId} {log : List Event}
    (hc : cache.Sound) (hs : s.toNat < BlockDevice.sectorCount cache.device)
    (hdirty : (cache.frame i).dirty = true)
    (hrange : old.toNat < BlockDevice.sectorCount cache.device) (hclaimed : Claimed cache i claimed)
    (hseek : seek s cache = ⟨.ok (.miss i (some old)), handOver claimed i s [(old, i)], log⟩) :
    ∃ filled log, acquire fill s cache = ⟨.ok i, filled, log⟩ ∧ Filled cache claimed fill s i filled := by
  have hgiven : Replaced cache s i (handOver claimed i s [(old, i)]) :=
    hclaimed.handOver_replaced hc.device [(old, i)]
  obtain ⟨spilt, hspill, hout, hspilt, -⟩ :=
    spill_eq (i := i) hgiven.device (hgiven.count ▸ hrange)
  have hsettled : Replaced cache s i
      { spilt with evicting := spilt.evicting.eraseP fun entry => entry.1 == old } :=
    (hgiven.transfer hout (by rw [hspilt]) (by rw [hspilt])).settle _
  obtain ⟨filled, hfetch, hfill, -, b, hframe, -⟩ :=
    fetch_eq (i := i) (s := s) fill hsettled.device (hsettled.count ▸ hs)
  obtain ⟨hhits, hreads, hwrites⟩ := spill_meter hspill
  obtain ⟨hhits', hwrites', hreads'⟩ := fetch_meter hfetch
  have hdevice : (handOver claimed i s [(old, i)]).device = cache.device := hclaimed.device
  refine ⟨filled, _, acquire_of_dirty_miss hseek hspill hfetch,
    hsettled.transfer hfill (by rw [hframe]) (by rw [hframe]), hfill.recency.trans hout.recency,
    by rw [hframe], hhits'.trans hhits, ?_, ?_⟩
  · rw [hreads', ← hdevice]
    exact congrArg (· + _) hreads
  · rw [hwrites', hdirty, ← hdevice]
    exact hwrites

/-- A sector that is not in the cache is given a frame, and what was used longest ago makes room. -/
theorem acquire_miss_shelf (hc : cache.Sound) (hp : cache.Unpinned) (fill : Fill) (hn : 0 < n)
    (hs : s.toNat < BlockDevice.sectorCount cache.device) (hmiss : cache.frameOf? s = none) :
    ∃ i taken log, acquire fill s cache = ⟨.ok i, taken, log⟩ ∧ taken.recency.head? = some i ∧
      taken.shelf = cache.shelf.acquire n fill s := by
  obtain ⟨i, claimed, log, hclaimed, hclaim, hseek⟩ := seek_miss hc hmiss ⟨⟨0, hn⟩, hp _⟩
  have hfilled : ∃ filled log, acquire fill s cache = ⟨.ok i, filled, log⟩ ∧
      Filled cache claimed fill s i filled := by
    cases hdirty : (cache.frame i).dirty with
    | false =>
      have hleaving : cache.leaving i = none := by rw [leaving, hdirty]; rfl
      rw [hleaving] at hseek
      exact acquire_clean_filled hc hs hdirty hclaimed hseek
    | true =>
      obtain ⟨-, old, hold, hrange⟩ := hc.used i (hc.mem_recency (Or.inl hdirty))
      have hleaving : cache.leaving i = some old := by rw [leaving, hdirty]; exact hold
      rw [hleaving] at hseek
      exact acquire_dirty_filled hc hs hdirty hrange hclaimed hseek
  obtain ⟨filled, log', hrun, h⟩ := hfilled
  have hcounted : ({ cache with accesses := cache.accesses + 1 } : Cache RamDisk n).Sound :=
    hc.congr (List.Perm.refl _) rfl rfl hc.device rfl (fun _ => rfl) (fun _ => rfl) fun _ _ => rfl
  obtain ⟨hrecency, hhits, hdropped⟩ := hcounted.claim?_unpinned hp hclaim
  have hlist : filled.recency = i :: cache.recency.take (n - 1) :=
    h.latest.trans (congrArg (i :: ·) hrecency)
  have hnew : i ∉ cache.recency.take (n - 1) := by
    have hnodup := hclaimed.lists.nodup_iff.mpr hc.nodup
    rw [hrecency] at hnodup
    exact (List.nodup_cons.mp (List.nodup_append.mp hnodup).1).1
  have hlost : (cache.lines.drop (n - 1)).countP Line.dirty = if (cache.frame i).dirty then 1 else 0 := by
    rw [lines, ← List.map_drop]
    exact hdropped
  refine ⟨i, filled, log', hrun, by rw [hlist, List.head?_cons], ?_⟩
  rw [shelf_acquire_of_miss hmiss, hlost, shelf, h.hits.trans hhits, h.reads, h.writes,
    lines_of_filled hnew hlist h.other h.sector h.settled]

/-- **An access** does to the shelf what it does to a shelf by itself. -/
theorem acquire_shelf (hc : cache.Coherent a) (hp : cache.Unpinned) (fill : Fill) (hn : 0 < n)
    (hs : s.toNat < BlockDevice.sectorCount cache.device) :
    ∃ i taken log, acquire fill s cache = ⟨.ok i, taken, log⟩ ∧ Acquired cache a fill s i taken ∧
      taken.recency.head? = some i ∧ taken.shelf = cache.shelf.acquire n fill s := by
  have hshelf : ∃ i taken log, acquire fill s cache = ⟨.ok i, taken, log⟩ ∧
      taken.recency.head? = some i ∧ taken.shelf = cache.shelf.acquire n fill s := by
    cases hit : cache.frameOf? s with
    | some i =>
      obtain ⟨taken, hrun, h⟩ := acquire_hit_shelf hc.toSound fill hit
      exact ⟨i, taken, [], hrun, h⟩
    | none => exact acquire_miss_shelf hc.toSound hp fill hn hs hit
  obtain ⟨i, taken, log, hrun, h⟩ := hshelf
  exact ⟨i, taken, log, hrun, acquired_of_eq hc hs ⟨⟨0, hn⟩, hp _⟩ hrun, h⟩

/-- Who pins a frame is not to be seen. -/
theorem shelf_unpin : (cache.unpin i).shelf = cache.shelf := by
  unfold shelf
  rw [unpin, lines_mapFrame rfl rfl]
  rfl

/-- A change of the frame used last makes the first line dirty. -/
theorem shelf_amend (change : Block → Block) (hnodup : cache.recency.Nodup)
    (hlatest : cache.recency.head? = some i) :
    (amendFrame i change cache).state.shelf = cache.shelf.soil := by
  obtain ⟨rest, hrest⟩ : ∃ rest, cache.recency = i :: rest := by
    cases hlist : cache.recency with
    | nil => rw [hlist] at hlatest; cases hlatest
    | cons j rest =>
      rw [hlist] at hlatest
      exact ⟨rest, by rw [Option.some.inj hlatest]⟩
  have hother : i ∉ rest := (List.nodup_cons.mp (hrest ▸ hnodup)).1
  rw [amendFrame_eq]
  have hlines : (cache.mapFrame i fun frame => { frame with data := change frame.data, dirty := true }).lines =
      cache.lines.modifyHead fun line => { line with dirty := true } := by
    unfold lines
    rw [show (cache.mapFrame i _).recency = i :: rest from hrest, hrest, List.map_cons, List.map_cons,
      List.modifyHead_cons]
    congr 1
    · unfold line
      rw [frame_mapFrame_self]
    · exact List.map_congr_left fun j hj => line_mapFrame_of_ne _ fun h => hother (h ▸ hj)
  unfold shelf Shelf.soil
  rw [hlines]
  rfl

/-- Frames in use have as many blocks for the device as there are dirty ones among them. -/
theorem length_flatMap_due {frames : List (Fin n)} (hc : cache.Fitted) (hframes : frames ⊆ cache.recency) :
    (frames.flatMap cache.due).length = frames.countP fun i => (cache.frame i).dirty := by
  induction frames with
  | nil => rfl
  | cons i rest ih =>
    obtain ⟨hi, hrest⟩ := List.cons_subset.mp hframes
    rw [List.flatMap_cons, List.length_append, ih hrest, List.countP_cons, Nat.add_comm]
    cases hdirty : (cache.frame i).dirty with
    | false => rw [due_of_clean hdirty]; rfl
    | true =>
      obtain ⟨s, hs⟩ := hc.used i hi
      rw [due_of_dirty hdirty hs]
      rfl

/-- **A flush** does to the shelf what it does to a shelf by itself. -/
theorem flush_shelf (hc : cache.Coherent a) : (flush cache).state.shelf = cache.shelf.flush := by
  obtain ⟨flushed, log, hrun, -⟩ := flush_coherent hc
  have hcleaned := flush_ok hc.toSound.fitted hrun
  obtain ⟨hreads, hwrites⟩ := hcleaned.device.meter
  have hhits : flushed.hits = cache.hits := congrArg CacheStats.hits hcleaned.stats
  have hlines : flushed.lines = cache.lines.map fun line => { line with dirty := false } := by
    unfold lines
    rw [hcleaned.recency, List.map_map]
    refine List.map_congr_left fun j hj => ?_
    show flushed.line j = _
    unfold line
    rw [hcleaned.frame]
    simp [hj]
  have hcount : (cache.recency.reverse.flatMap cache.due).length = cache.shelf.dirtyCount := by
    rw [length_flatMap_due hc.toSound.fitted fun _ => List.mem_reverse.mp, List.countP_reverse]
    exact dirtyCount_lines.symm
  rw [show flush cache = _ from hrun, shelf, hlines, hhits, hreads, hwrites, hcount]
  rfl

/-- **A reset** is a flush after which there are no lines. -/
theorem reset_shelf (hc : cache.Coherent a) (hp : cache.Unpinned) :
    (reset cache).state.shelf = cache.shelf.flush.empty := by
  obtain ⟨flushed, log, hrun, hflushed, -, -, hframe⟩ := flush_coherent hc
  have hshelf : flushed.shelf = cache.shelf.flush := by
    rw [← flush_shelf hc, hrun]
  obtain ⟨emptied, log', hforget, h⟩ := forget_eq hflushed.nodup
  have hhits : emptied.hits = 0 := by
    rw [← show (forget flushed).state = emptied from congrArg Reply.state hforget]
    rfl
  -- nothing is pinned, and the flush has left nothing dirty
  have hnone : emptied.recency = [] := by
    refine List.eq_nil_iff_forall_not_mem.mpr fun j hj => ?_
    have hkeeps := (h.recency.mp hj).2
    rw [keeps, hframe, hp j] at hkeeps
    cases hkeeps
  have hreset : (reset cache).state = emptied := by
    unfold reset
    simp only [Action.bind_def, hrun, hforget]
  rw [hreset, ← hshelf, shelf, lines, hnone, hhits, h.device]
  rfl

/-! ## Requests -/

/-- **A request** does to the shelf of a cache what it does to a shelf by itself. -/
theorem run_shelf (hc : cache.Coherent a) (hp : cache.Unpinned) (base : CacheStats) (hn : 0 < n)
    {request : Request} (hflat : request.Flat (BlockDevice.sectorCount cache.device)) :
    (request.run base cache).state.shelf = request.shelve n cache.shelf := by
  match request, hflat with
  | .read s, hs =>
    obtain ⟨i, taken, log, hrun, -, -, hshelf⟩ := acquire_shelf hc hp .readThrough hn hs
    rw [(Request.Ran.read i taken hrun).state_eq]
    exact shelf_unpin.trans hshelf
  | .write s b, hs =>
    obtain ⟨i, taken, log, hrun, h, hlatest, hshelf⟩ := acquire_shelf hc hp .overwrite hn hs
    rw [(Request.Ran.write i taken hrun).state_eq, shelf_unpin]
    exact (shelf_amend (fun _ => b) (List.nodup_append.mp h.coherent.nodup).1 hlatest).trans
      (congrArg Shelf.soil hshelf)
  | .map s [], ⟨_, hs⟩ =>
    obtain ⟨i, taken, log, hrun, -, -, hshelf⟩ := acquire_shelf hc hp .readThrough hn hs
    rw [(Request.Ran.map i taken hrun Request.runAll_nil).state_eq]
    exact shelf_unpin.trans hshelf
  | .update s change [], ⟨_, hs⟩ =>
    obtain ⟨i, taken, log, hrun, h, hlatest, hshelf⟩ := acquire_shelf hc hp .readThrough hn hs
    have hnodup : taken.recency.Nodup := (List.nodup_append.mp h.coherent.nodup).1
    let touched := (amendFrame i id taken).state
    have htouched : touched.shelf = taken.shelf.soil := shelf_amend id hnodup hlatest
    have hchanged : (amendFrame i change touched).state.shelf = touched.shelf.soil :=
      shelf_amend change hnodup hlatest
    rw [(Request.Ran.update i taken hrun Request.runAll_nil).state_eq, shelf_unpin]
    refine hchanged.trans ?_
    rw [htouched, Shelf.soil_soil, hshelf]
    rfl
  | .flush, _ =>
    obtain ⟨flushed, log, hrun, -⟩ := flush_coherent hc
    rw [(Request.Ran.flush hrun).state_eq, ← show (flush cache).state = flushed from congrArg Reply.state hrun]
    exact flush_shelf hc
  | .reset, _ =>
    obtain ⟨emptied, log, hrun, -⟩ := reset_coherent hc
    rw [(Request.Ran.reset hrun).state_eq, ← show (reset cache).state = emptied from congrArg Reply.state hrun]
    exact reset_shelf hc hp

end Disk

end InodeStore.Cache
