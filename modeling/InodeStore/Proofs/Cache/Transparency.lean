import InodeStore.Proofs.Cache.Requests

/-!
# `Proofs.Cache.Transparency` — a cache cannot be told from an array of blocks

`Request.apply` is what a plain array of blocks answers to a request, and `Request.run` is what the cache
answers. They agree (`runAll_coherent`) on requests that `Fit`: every sector is one of the device and not
one whose frame is held at that time, frames are held no deeper than the cache has frames, and neither
flush nor reset is asked for while one is held. This is an induction over the request trees; what it
carries is that the cache is coherent and that the pinned frames are those of the sectors held
(`PinnedBy`).

`Visits` lists every point between two operations, also those inside of a request. What the device holds
at such a point is the other half of `cache_transparent`.
-/

namespace InodeStore.Cache

/-! ## An array of blocks -/

namespace Request

mutual

/-- What an array of blocks answers to a request, and the array afterwards. -/
def apply : Request → SectorArray → Response × SectorArray
  | .read s, a => (.content (a s), a)
  | .write s b, a => (.done, Function.update a s b)
  | .map s inner, a =>
    let (responses, a') := applyAll inner a
    (.nested (a s) responses, a')
  | .update s change inner, a =>
    let (responses, a') := applyAll inner a
    (.nested (change (a' s)) responses, Function.update a' s (change (a' s)))
  | _, a => (.done, a)

/-- What an array of blocks answers to requests made one after the other. -/
def applyAll : List Request → SectorArray → List Response × SectorArray
  | [], a => ([], a)
  | request :: rest, a =>
    let (response, a') := apply request a
    let (responses, a'') := applyAll rest a'
    (response :: responses, a'')

end

mutual

/-- A request for sectors of a device with `count` of them, to a cache of `n` frames, while the frames of
    the sectors `held` are held. -/
def Fits (count n : Nat) (held : List SectorId) : Request → Prop
  | .read s => s.toNat < count ∧ s ∉ held ∧ held.length < n
  | .write s _ => s.toNat < count ∧ s ∉ held ∧ held.length < n
  | .map s inner => (s.toNat < count ∧ s ∉ held ∧ held.length < n) ∧ FitAll count n (s :: held) inner
  | .update s _ inner =>
    (s.toNat < count ∧ s ∉ held ∧ held.length < n) ∧ FitAll count n (s :: held) inner
  | .flush => held = []
  | .reset => held = []
  | .inspect => False
  | .sample => False
  | .sinceSample => False

/-- Requests that fit, one after the other. -/
def FitAll (count n : Nat) (held : List SectorId) : List Request → Prop
  | [] => True
  | request :: rest => Fits count n held request ∧ FitAll count n held rest

end

end Request

section Transparency

variable {δ : Type} {n : Nat} [BlockDevice δ]

/-! ## Points between operations -/

/-- A cache and the array it should stand for. -/
structure Point (δ : Type) (n : Nat) where
  cache : Cache δ n
  array : SectorArray

/-- The requests, made at the first point, pass through the second one between two operations. -/
inductive Visits (base : CacheStats) : List Request → Point δ n → Point δ n → Prop where
  /-- Before the first request, or after the last one. -/
  | here (requests : List Request) (p : Point δ n) : Visits base requests p p
  /-- After the first request. -/
  | later {request : Request} {rest : List Request} {p q : Point δ n}
      (h : Visits base rest ⟨(request.run base p.cache).state, (request.apply p.array).2⟩ q) :
      Visits base (request :: rest) p q
  /-- While a sector is looked at. -/
  | inMap {s : SectorId} {inner rest : List Request} {p q : Point δ n} {i : Fin n} {held : Cache δ n}
      {log : List Event} (hacquire : acquire .readThrough s p.cache = ⟨.ok i, held, log⟩)
      (h : Visits base inner ⟨held, p.array⟩ q) : Visits base (.map s inner :: rest) p q
  /-- While a sector is held that is about to be changed. -/
  | inUpdate {s : SectorId} {change : Block → Block} {inner rest : List Request} {p q : Point δ n}
      {i : Fin n} {held : Cache δ n} {log : List Event}
      (hacquire : acquire .readThrough s p.cache = ⟨.ok i, held, log⟩)
      (h : Visits base inner ⟨(amendFrame i id held).state, p.array⟩ q) :
      Visits base (.update s change inner :: rest) p q

/-! ## Frames that are held -/

/-- The pinned frames carry sectors of the list. -/
def PinnedBy (cache : Cache δ n) (held : List SectorId) : Prop :=
  ∀ j, 0 < (cache.frame j).pins → ∃ s ∈ held, (cache.frame j).sector = some s

variable [LawfulDevice δ] {cache : Cache δ n} {a : SectorArray} {s : SectorId} {i : Fin n}
  {held : List SectorId} {count : Nat} {base : CacheStats}

omit [BlockDevice δ] [LawfulDevice δ] in
theorem Unpinned.pinnedBy (h : cache.Unpinned) : cache.PinnedBy held := fun j hj =>
  absurd (h j) (Nat.ne_of_gt hj)

omit [BlockDevice δ] [LawfulDevice δ] in
/-- Where no sector is held no frame is pinned. -/
theorem PinnedBy.unpinned (hp : cache.PinnedBy []) : cache.Unpinned := by
  intro j
  apply Nat.eq_zero_of_not_pos
  intro hj
  obtain ⟨s, hs, -⟩ := hp j hj
  cases hs

omit [LawfulDevice δ] in
theorem Undisturbed.pinnedBy {cache' : Cache δ n} (h : cache.Undisturbed cache')
    (hp : cache.PinnedBy held) : cache'.PinnedBy held := by
  intro j hj
  rw [h.pins] at hj
  rw [h.held j hj]
  exact hp j hj

/-- As long as fewer sectors are held than there are frames, some frame is not pinned. -/
theorem PinnedBy.room (hp : cache.PinnedBy held) (hc : cache.Sound) (hroom : held.length < n) :
    ∃ j, (cache.frame j).pins = 0 := by
  by_contra hall
  have hpinned : ∀ j, 0 < (cache.frame j).pins := fun j =>
    Nat.pos_of_ne_zero fun h => hall ⟨j, h⟩
  choose sector hmem hsector using fun j => hp j (hpinned j)
  -- pinned frames carry different sectors, so there are no more of them than sectors held
  have hinj : Function.Injective fun j => (⟨sector j, hmem j⟩ : { s // s ∈ held }) := by
    intro j k hjk
    have hs : sector j = sector k := congrArg Subtype.val hjk
    exact hc.unique ⟨hc.mem_recency (Or.inr (hpinned j)), hsector j⟩
      ⟨hc.mem_recency (Or.inr (hpinned k)), hs ▸ hsector k⟩
  have hle := Fintype.card_le_of_injective _ hinj
  rw [Fintype.card_fin] at hle
  have hcard : Fintype.card { s // s ∈ held } ≤ held.length := by
    rw [Fintype.card_of_subtype held.toFinset (fun s => List.mem_toFinset)]
    exact List.toFinset_card_le held
  omega

omit [BlockDevice δ] [LawfulDevice δ] in
/-- A sector that is not held is carried by no pinned frame. -/
theorem PinnedBy.free (hp : cache.PinnedBy held) (hs : s ∉ held) :
    ∀ j, 0 < (cache.frame j).pins → (cache.frame j).sector ≠ some s := by
  intro j hj he
  obtain ⟨t, ht, hsector⟩ := hp j hj
  exact hs (Option.some.inj (hsector.symm.trans he) ▸ ht)

/-- A frame that was acquired is held from then on. -/
theorem Acquired.pinnedBy {fill : Fill} {held' : Cache δ n} (h : Acquired cache a fill s i held')
    (hp : cache.PinnedBy held) : held'.PinnedBy (s :: held) := by
  intro j hj
  by_cases hji : j = i
  · exact ⟨s, List.mem_cons_self, hji ▸ h.carries.2⟩
  · rw [h.pins, if_neg hji] at hj
    obtain ⟨t, ht, hsector⟩ := hp j hj
    exact ⟨t, List.mem_cons_of_mem _ ht, h.held j hj hji ▸ hsector⟩

omit [BlockDevice δ] [LawfulDevice δ] in
theorem amendFrame_eq (i : Fin n) (change : Block → Block) (cache : Cache δ n) :
    Cache.amendFrame i change cache =
      ⟨.ok (), cache.mapFrame i fun frame =>
        { frame with data := change frame.data, dirty := true }, []⟩ := rfl

/-- A frame that was acquired may be made dirty before it is changed. -/
theorem Acquired.touch {taken : Cache δ n} (h : Acquired cache a .readThrough s i taken) :
    Acquired cache a .readThrough s i (Cache.amendFrame i id taken).state where
  coherent := by
    have hcoherent : taken.Coherent a := h.coherent
    have hdata : id (taken.frame i).data = a s := hcoherent.data h.carries nofun
    have htouched := hcoherent.amend (Or.inl rfl) h.carries hdata
    rwa [Function.update_eq_self] at htouched
  carries := (carries_mapFrame (i := i) rfl).mpr h.carries
  pins j := (mapFrame_keeps Frame.pins rfl j).trans (h.pins j)
  held j hj hji := by
    rw [amendFrame_eq, frame_mapFrame_of_ne _ _ hji]
    exact h.held j hj hji
  home := h.home
  count := h.count

/-! ## The answers -/

mutual

/-- The cache answers a request as the array does. -/
theorem run_coherent {cache : Cache δ n} {a : SectorArray} {held : List SectorId} (base : CacheStats)
    (r : Request) (hr : r.Fits count n held) (hc : cache.Coherent a) (hp : cache.PinnedBy held)
    (hcount : BlockDevice.sectorCount cache.device = count) :
    ∃ cache' log, r.run base cache = ⟨.ok ((r.apply a).1, base), cache', log⟩ ∧
      cache'.Coherent (r.apply a).2 ∧ cache.Undisturbed cache' := by
  -- inner requests run while the frame is held: their sectors are others, and a frame is left for them
  match r with
  | .read s =>
    obtain ⟨hs, hfree, hroom⟩ := hr
    obtain ⟨cache', log, hview, h⟩ :=
      view_coherent hc (hcount ▸ hs) (hp.room hc.toSound hroom) (hp.free hfree)
    refine ⟨cache', log ++ [], ?_, h⟩
    simp only [Request.run, Action.bind_def, hview, Action.pure_def]
    rfl
  | .write s b =>
    obtain ⟨hs, hfree, hroom⟩ := hr
    obtain ⟨cache', log, hstore, h⟩ :=
      store_coherent hc b (hcount ▸ hs) (hp.room hc.toSound hroom) (hp.free hfree)
    refine ⟨cache', log ++ [], ?_, h⟩
    simp only [Request.run, Action.bind_def, hstore, Action.pure_def]
    rfl
  | .map s inner =>
    obtain ⟨⟨hs, hfree, hroom⟩, hinner⟩ := hr
    obtain ⟨i, taken, log, hacquire, h⟩ :=
      acquire_coherent hc .readThrough (hcount ▸ hs) (hp.room hc.toSound hroom)
    have hcoherent : taken.Coherent a := h.coherent
    obtain ⟨used, log', hinner, hused, hsame⟩ :=
      runAll_coherent base inner hinner hcoherent (h.pinnedBy hp) (h.count.trans hcount)
    obtain ⟨log'', hrun⟩ := (Request.Ran.map i taken hacquire hinner).run_eq
    rw [hcoherent.data h.carries nofun] at hrun
    exact ⟨used.unpin i, log'', hrun, h.letGo hsame hused (hp.free hfree)⟩
  | .update s change inner =>
    obtain ⟨⟨hs, hfree, hroom⟩, hinner⟩ := hr
    obtain ⟨i, taken, log, hacquire, h⟩ :=
      acquire_coherent hc .readThrough (hcount ▸ hs) (hp.room hc.toSound hroom)
    have h : Acquired cache a .readThrough s i (amendFrame i id taken).state := h.touch
    obtain ⟨used, log', hinner, hused, hsame⟩ :=
      runAll_coherent base inner hinner h.coherent (h.pinnedBy hp) (h.count.trans hcount)
    have hdata : (used.frame i).data = (Request.applyAll inner a).2 s :=
      hused.data (h.carries_used hsame hused.toSound) nofun
    obtain ⟨changed, hamend, hframe, hdone⟩ :=
      h.amendFrame change hsame hused (Or.inl rfl) (congrArg change hdata) (hp.free hfree)
    have hran : Request.Ran base cache (.update s change inner) _ _ := .update i taken hacquire hinner
    obtain ⟨log'', hrun⟩ := hran.run_eq
    rw [hamend, hframe] at hrun
    exact ⟨changed.unpin i, log'', hrun, hdone⟩
  | .flush =>
    obtain rfl : held = [] := hr
    obtain ⟨cache', log, hrun, hcoherent, -, hcount', hframe⟩ := flush_coherent hc
    obtain ⟨log', hrun⟩ := (Request.Ran.flush hrun).run_eq
    exact ⟨cache', log', hrun, hcoherent, hp.unpinned.undisturbed (fun j => hframe j ▸ rfl) hcount'⟩
  | .reset =>
    obtain rfl : held = [] := hr
    obtain ⟨cache', log, hrun, hcoherent, hcount', hpins, -⟩ := reset_coherent hc
    obtain ⟨log', hrun⟩ := (Request.Ran.reset hrun).run_eq
    exact ⟨cache', log', hrun, hcoherent, hp.unpinned.undisturbed hpins hcount'⟩

/-- The cache answers requests made one after the other as the array does. -/
theorem runAll_coherent {cache : Cache δ n} {a : SectorArray} {held : List SectorId}
    (base : CacheStats) (rs : List Request) (hr : Request.FitAll count n held rs)
    (hc : cache.Coherent a) (hp : cache.PinnedBy held)
    (hcount : BlockDevice.sectorCount cache.device = count) :
    ∃ cache' log, Request.runAll base rs cache = ⟨.ok ((Request.applyAll rs a).1, base), cache', log⟩ ∧
      cache'.Coherent (Request.applyAll rs a).2 ∧ cache.Undisturbed cache' := by
  match rs with
  | [] => exact ⟨cache, [], rfl, hc, Undisturbed.refl _⟩
  | r :: rest =>
    obtain ⟨hfirst, hrest⟩ := hr
    obtain ⟨cache₁, log, hrun, hc₁, h₁⟩ := run_coherent base r hfirst hc hp hcount
    obtain ⟨cache₂, log', hrun', hc₂, h₂⟩ :=
      runAll_coherent base rest hrest hc₁ (h₁.pinnedBy hp) (h₁.count.trans hcount)
    refine ⟨cache₂, log ++ (log' ++ []), ?_, hc₂, h₁.trans h₂⟩
    simp only [Request.runAll, Action.bind_def, hrun, hrun', Action.pure_def]
    rfl

end

/-! ## The device at every point -/

/-- At every point between two operations the cache stands for the array. -/
theorem visits_coherent {requests : List Request} {p q : Point δ n} (h : Visits base requests p q) :
    ∀ {held}, Request.FitAll count n held requests → p.cache.Coherent p.array →
      p.cache.PinnedBy held → BlockDevice.sectorCount p.cache.device = count →
      q.cache.Coherent q.array ∧ BlockDevice.sectorCount q.cache.device = count := by
  induction h with
  | here _ _ => exact fun _ hc _ hcount => ⟨hc, hcount⟩
  | @later request rest p q _ ih =>
    intro held hfit hc hp hcount
    obtain ⟨cache', log, hrun, hc', hsame⟩ := run_coherent base request hfit.1 hc hp hcount
    rw [hrun] at ih
    exact ih hfit.2 hc' (hsame.pinnedBy hp) (hsame.count.trans hcount)
  | @inMap s inner rest p q i taken log hacquire _ ih =>
    intro held hfit hc hp hcount
    obtain ⟨⟨hs, -, hroom⟩, hinner⟩ := hfit.1
    have h := acquired_of_eq hc (hcount ▸ hs) (hp.room hc.toSound hroom) hacquire
    exact ih hinner h.coherent (h.pinnedBy hp) (h.count.trans hcount)
  | @inUpdate s change inner rest p q i taken log hacquire _ ih =>
    intro held hfit hc hp hcount
    obtain ⟨⟨hs, -, hroom⟩, hinner⟩ := hfit.1
    have h := acquired_of_eq hc (hcount ▸ hs) (hp.room hc.toSound hroom) hacquire
    exact ih hinner h.touch.coherent (h.touch.pinnedBy hp) (h.count.trans hcount)

/-- The device has every block of the array. -/
def Settled (count : Nat) (d : δ) (a : SectorArray) : Prop :=
  ∀ s : SectorId, s.toNat < count → LawfulDevice.block d s = a s

/-- **A cache cannot be told from an array of blocks.** Requests that fit are answered as by the array
    that starts as the content of the device. At every point between two operations, also inside of a
    request, the device has the block of every sector that is not dirty, and after a flush, a reset or
    the end of the cache it has all of them. -/
theorem cache_transparent (d : δ) (hd : LawfulDevice.Sound d) (n : Nat) (base : CacheStats)
    (requests : List Request) (hfit : Request.FitAll (BlockDevice.sectorCount d) n [] requests) :
    let reply := Request.runAll base requests (blank n d)
    let expected := Request.applyAll requests (LawfulDevice.block d)
    reply.result = .ok (expected.1, base) ∧
    (∀ q : Point δ n, Visits base requests ⟨blank n d, LawfulDevice.block d⟩ q →
      ∀ s : SectorId, s.toNat < BlockDevice.sectorCount d → q.cache.isDirty s = false →
        LawfulDevice.block q.cache.device s = q.array s) ∧
    ((flush reply.state).result = .ok () ∧
      Settled (BlockDevice.sectorCount d) (flush reply.state).state.device expected.2) ∧
    ((reset reply.state).result = .ok () ∧
      Settled (BlockDevice.sectorCount d) (reset reply.state).state.device expected.2) ∧
    ((discard reply.state).result = .ok () ∧
      Settled (BlockDevice.sectorCount d) (discard reply.state).state expected.2) := by
  intro reply expected
  have hblank : (blank n d).Coherent (LawfulDevice.block d) := blank_coherent hd
  have hnone : (blank n d).PinnedBy [] := (blank_unpinned d).pinnedBy
  obtain ⟨cache, log, hrun, hcoherent, hsame⟩ :=
    runAll_coherent base requests hfit hblank hnone rfl
  have hreply : reply = ⟨.ok (expected.1, base), cache, log⟩ := hrun
  obtain ⟨flushed, log₁, hflush, hflushed, -, hcount₁, hclean₁⟩ := flush_coherent hcoherent
  obtain ⟨emptied, log₂, hreset, hemptied, hcount₂, -, hclean₂⟩ := reset_coherent hcoherent
  have hsettled : Settled (BlockDevice.sectorCount d) flushed.device expected.2 := fun s hs =>
    hflushed.block_eq (fun j => hclean₁ j ▸ rfl) (by rwa [hcount₁, hsame.count])
  rw [hreply]
  refine ⟨rfl, ?_, ?_, ?_, ?_⟩
  · intro q hq s hs hdirty
    obtain ⟨hc, hcount⟩ := visits_coherent hq hfit hblank hnone rfl
    exact hc.clean (hcount ▸ hs) nofun (hc.isDirty_eq_false_iff.mp hdirty)
  · rw [show flush cache = _ from hflush]
    exact ⟨rfl, hsettled⟩
  · rw [show reset cache = _ from hreset]
    exact ⟨rfl, fun s hs => hemptied.block_eq hclean₂ (by rwa [hcount₂, hsame.count])⟩
  · unfold discard
    rw [show flush cache = _ from hflush]
    exact ⟨rfl, hsettled⟩

end Transparency

/-- Two frames are enough for requests inside of a request, and some of the frames that are taken are
    dirty. -/
theorem cache_transparent_nested :
    let requests : List Request :=
      [.write 0 Block.zero, .update 1 (·.splice 0 #[3]) [.read 0], .map 2 [.read 1], .flush,
        .update 0 (·.splice 4 #[5]) [.write 3 Block.zero], .reset, .read 0]
    let reply := Request.runAll {} requests (blank 2 (RamDisk.blank 4))
    let expected := Request.applyAll requests (LawfulDevice.block (RamDisk.blank 4))
    Request.FitAll 4 2 [] requests ∧ reply.result = .ok (expected.1, {}) ∧
      Settled 4 (discard reply.state).state expected.2 := by
  intro requests reply expected
  have hcount : BlockDevice.sectorCount (RamDisk.blank 4) = 4 := Array.size_replicate
  have hfit : Request.FitAll 4 2 [] requests := by
    simp [requests, Request.FitAll, Request.Fits]
  obtain ⟨hanswers, -, -, -, hdiscard⟩ :=
    cache_transparent (RamDisk.blank 4) trivial 2 {} requests (hcount ▸ hfit)
  exact ⟨hfit, hanswers, hcount ▸ hdiscard.2⟩

end InodeStore.Cache
