import InodeStore.Proofs.Cache.Inclusion
import InodeStore.Proofs.Cache.Outcome

/-!
# `Proofs.Cache.Recency` — the cache keeps the sectors used last

While nobody holds a frame, the cache is told by its history: the sectors that were asked for since the last
reset, the last one first. Without repetitions, the history begins with the sectors in the cache, in their
order, and these are as many as there are frames, or all of them (`Recent`). So whether an access is a hit is
told by the history (`Recalled`): the sector is in it, and since then fewer other sectors were asked for than
there are frames.

## Contents
- **Histories.** `Request.follow`, `history`, `Recalled`, `hitCount`.
- **An access.** `acquire_sectors`: the sector goes to the front, and the last one may fall off.
- **Requests.** `run_recent` for one, and `recency_exact` for any number.
-/

namespace InodeStore.Cache

/-! ## Lists without repetitions -/

section Lists

variable {α : Type} [BEq α] [LawfulBEq α]

/-- It does not matter whether entries are left out before or after repetitions are. -/
theorem eraseDups_filter (p : α → Bool) (l : List α) : (l.filter p).eraseDups = l.eraseDups.filter p := by
  match l with
  | [] => rfl
  | x :: rest =>
    have ih := eraseDups_filter p (rest.filter fun y => !y == x)
    rw [List.eraseDups_cons]
    cases hx : p x with
    | true =>
      rw [List.filter_cons_of_pos hx, List.filter_cons_of_pos hx, List.eraseDups_cons, ← ih,
        List.filter_filter, List.filter_filter]
      congr 2
      refine List.filter_congr fun y _ => ?_
      rw [Bool.and_comm]
    | false =>
      have hrest : (rest.filter fun y => !y == x).filter p = rest.filter p := by
        rw [List.filter_filter]
        refine List.filter_congr fun y _ => ?_
        by_cases hyx : y = x
        · rw [hyx, hx, Bool.false_and]
        · simp [hyx]
      rw [List.filter_cons_of_neg (by simp [hx]), List.filter_cons_of_neg (by simp [hx]), ← ih, hrest]
termination_by l.length
decreasing_by exact Nat.lt_succ_of_le (List.length_filter_le _ _)

theorem nodup_eraseDups (l : List α) : l.eraseDups.Nodup := by
  match l with
  | [] => exact List.nodup_nil
  | x :: rest =>
    rw [List.eraseDups_cons, List.nodup_cons, List.mem_eraseDups]
    exact ⟨by simp, nodup_eraseDups _⟩
termination_by l.length
decreasing_by exact Nat.lt_succ_of_le (List.length_filter_le _ _)

/-- An entry is among the first `n` different ones if fewer different ones come before it. -/
theorem mem_take_eraseDups {x : α} {l : List α} {n : Nat} :
    x ∈ l.eraseDups.take n ↔ x ∈ l ∧ (l.takeWhile (· != x)).eraseDups.length < n := by
  by_cases hx : x ∈ l
  · obtain ⟨before, after, rfl, hbefore⟩ := List.eq_append_cons_of_mem hx
    have hwhile : (before ++ x :: after).takeWhile (· != x) = before := by
      have hall : ∀ y ∈ before, (y != x) = true := by
        rintro y hy
        refine bne_iff_ne.mpr ?_
        rintro rfl
        exact hbefore hy
      rw [List.takeWhile_append_of_pos hall, List.takeWhile_cons_of_neg (by simp), List.append_nil]
    have hsplit : ∃ rest, (before ++ x :: after).eraseDups = before.eraseDups ++ x :: rest := by
      rw [List.eraseDups_append, List.removeAll, List.filter_cons_of_pos (by simpa using hbefore),
        List.eraseDups_cons]
      exact ⟨_, rfl⟩
    obtain ⟨rest, hsplit⟩ := hsplit
    have hfirst : x ∉ before.eraseDups.take n := fun hmem =>
      hbefore (List.mem_eraseDups.mp (List.mem_of_mem_take hmem))
    rw [hwhile, hsplit, List.take_append, List.mem_append]
    constructor
    · rintro (hmem | hmem)
      · exact absurd hmem hfirst
      · refine ⟨hx, ?_⟩
        by_contra hle
        rw [Nat.sub_eq_zero_of_le (Nat.le_of_not_lt hle)] at hmem
        cases hmem
    · rintro ⟨-, hlt⟩
      obtain ⟨k, hk⟩ : ∃ k, n - before.eraseDups.length = k + 1 :=
        ⟨n - before.eraseDups.length - 1, by omega⟩
      rw [hk, List.take_succ_cons]
      exact Or.inr List.mem_cons_self
  · refine ⟨fun hmem => ?_, fun h => absurd h.1 hx⟩
    exact absurd (List.mem_eraseDups.mp (List.mem_of_mem_take hmem)) hx

end Lists

/-- Where every entry has an image, the first images are those of the first entries. -/
theorem filterMap_take {α β : Type} {f : α → Option β} {l : List α} (h : ∀ x ∈ l, ∃ y, f x = some y)
    (k : Nat) : (l.take k).filterMap f = (l.filterMap f).take k := by
  induction l generalizing k with
  | nil => simp
  | cons x rest ih =>
    obtain ⟨y, hy⟩ := h x List.mem_cons_self
    cases k with
    | zero => rfl
    | succ k =>
      rw [List.take_succ_cons, List.filterMap_cons_some hy, List.filterMap_cons_some hy, List.take_succ_cons,
        ih fun z hz => h z (List.mem_cons_of_mem _ hz)]

/-! ## Histories -/

namespace Request

/-- The sector that is asked for. -/
def sector? : Request → Option SectorId
  | .read s | .write s _ | .map s _ | .update s _ _ => some s
  | _ => none

/-- The sectors asked for since the last reset, the last one first, once the request was made. -/
def follow (history : List SectorId) : Request → List SectorId
  | .reset => []
  | request => request.sector?.toList ++ history

/-- A request that is made while no sector is held, or a question about the cache. -/
def Unnested (count : Nat) (request : Request) : Prop :=
  request.Flat count ∨ request = .inspect ∨ request = .sample

end Request

/-- The sectors asked for since the last reset, the last one first. -/
def history (requests : List Request) : List SectorId := requests.foldl Request.follow []

/-- A sector was asked for since the last reset, and since then fewer different sectors than there are
    frames. -/
def Recalled (n : Nat) (history : List SectorId) (s : SectorId) : Prop :=
  s ∈ history ∧ (history.takeWhile (· != s)).eraseDups.length < n

instance (n : Nat) (history : List SectorId) (s : SectorId) : Decidable (Recalled n history s) :=
  inferInstanceAs (Decidable (_ ∧ _))

/-- How many entries of a history were recalled when they were made. -/
def hitCount (n : Nat) : List SectorId → Nat
  | [] => 0
  | s :: earlier => hitCount n earlier + if Recalled n earlier s then 1 else 0

/-! ## An access -/

section Access

variable {δ : Type} {n : Nat} {cache cache' : Cache δ n} {s : SectorId} {i : Fin n}

/-- What stays in use where no frame is pinned: all but the one used longest ago, if there is no room. -/
theorem Claims.eq_take {recency free : List (Fin n)} (h : Claims cache i recency free)
    (hc : cache.Fitted) (hp : cache.Unpinned) : recency = cache.recency.take (n - 1) := by
  have hlength := hc.length_eq
  cases h with
  | fresh hfree =>
    rw [hfree, List.length_cons] at hlength
    rw [List.take_of_length_le (by omega)]
  | taken hfree hlast =>
    -- nothing is passed over, so the frame given away is the last one in use
    have hall : (fun j => (cache.frame j).pins == 0) = fun _ => true :=
      funext fun j => beq_iff_eq.mpr (hp j)
    rw [hall] at hlast
    cases hreverse : cache.recency.reverse with
    | nil =>
      rw [hreverse] at hlast
      cases hlast
    | cons j rest =>
      rw [hreverse] at hlast
      obtain rfl : j = i := Option.some.inj hlast
      have hsplit : cache.recency = rest.reverse ++ [j] := by
        rw [← List.reverse_reverse cache.recency, hreverse, List.reverse_cons]
      have hnew : j ∉ rest.reverse := by
        have hnodup := hsplit ▸ hc.recency_nodup
        exact fun hmem => (List.nodup_append.mp hnodup).2.2 j hmem j (List.mem_singleton_self j) rfl
      have hroom : n - 1 = rest.reverse.length := by
        rw [hfree, hsplit, List.length_append, List.length_singleton, List.length_nil] at hlength
        omega
      rw [hsplit, List.erase_append_right _ hnew, List.erase_cons_head, hroom, List.take_left,
        List.append_nil]

/-- There are no more sectors than frames in use. -/
theorem sectors_length_le : cache.sectors.length ≤ cache.recency.length := List.length_filterMap_le _ _

variable [BlockDevice δ]

/-- **An access** brings its sector to the front. Where there is no room for it, the sector used longest ago
    leaves the cache. -/
theorem acquire_sectors {fill : Fill} {taken : Cache δ n} {log : List Event} (hc : cache.Fitted)
    (hp : cache.Unpinned) (hrun : acquire fill s cache = ⟨.ok i, taken, log⟩) :
    taken.sectors = s :: (cache.sectors.filter (· != s)).take (n - 1) := by
  have hlength := hc.length_eq
  rcases acquire_ok hc.evicting hrun with ⟨hit, rfl⟩ | ⟨hmiss, h⟩
  · have hi : cache.Carries i s := carries_of_frameOf? hit
    have hroom : (cache.sectors.filter (· != s)).length ≤ n - 1 := by
      have hle := cache.sectors_length_le
      rw [← hc.sectors_nodup.erase_eq_filter, List.length_erase_of_mem (mem_sectors.mpr ⟨i, hi⟩)]
      omega
    rw [List.take_of_length_le hroom, hc.sectors_found hi, hc.sectors_nodup.erase_eq_filter]
  · obtain ⟨recency, hclaims, hrecency⟩ := h.lists
    have hothers : cache.sectors.filter (· != s) = cache.sectors := by
      refine List.filter_eq_self.mpr fun t ht => bne_iff_ne.mpr ?_
      rintro rfl
      obtain ⟨j, hj⟩ := mem_sectors.mp ht
      exact not_carries_of_frameOf? hmiss j hj
    rw [hothers, h.sectors_eq hc hclaims hrecency, hclaims.eq_take hc hp, filterMap_take hc.used]
    rfl

end Access

/-! ## Requests -/

section Requests

variable {δ : Type} {n : Nat} {cache cache' : Cache δ n} {s : SectorId} {i : Fin n}
  {past : List SectorId}

/-- The cache is what a history has left: the sectors asked for last, in their order, and the counters. -/
structure Recent (past : List SectorId) (cache : Cache δ n) : Prop where
  sectors : cache.sectors = past.eraseDups.take n
  accesses : cache.accesses = past.length
  hits : cache.hits = hitCount n past

/-- The sectors in the cache are those that would be recalled. -/
theorem Recent.isCached_iff (h : Recent past cache) : cache.isCached s = true ↔ Recalled n past s := by
  rw [isCached_iff_mem, h.sectors, mem_take_eraseDups]
  rfl

theorem blank_recent (d : δ) : Recent [] (blank n d) := ⟨List.take_nil.symm, rfl, rfl⟩

/-- The frames carry the same sectors in the same order, and the counters are the same. -/
structure Arranged (cache cache' : Cache δ n) : Prop where
  recency : cache'.recency = cache.recency
  sector : ∀ j, (cache'.frame j).sector = (cache.frame j).sector
  stats : cache'.stats = cache.stats

theorem Arranged.mapFrame (h : Arranged cache cache') {change : Frame → Frame}
    (hsector : ∀ frame, (change frame).sector = frame.sector) :
    Arranged cache (cache'.mapFrame i change) where
  recency := h.recency
  sector j := by
    rw [frame_mapFrame]
    split
    · next hj => rw [hsector, ← hj, h.sector]
    · exact h.sector j
  stats := h.stats

theorem Arranged.unpin (h : Arranged cache cache') (i : Fin n) : Arranged cache (cache'.unpin i) :=
  h.mapFrame fun _ => rfl

theorem Arranged.amend (h : Arranged cache cache') (i : Fin n) (change : Block → Block) :
    Arranged cache (amendFrame i change cache').state := by
  show Arranged cache (cache'.mapFrame i fun frame =>
    { frame with data := change frame.data, dirty := true })
  exact h.mapFrame fun _ => rfl

theorem Recent.congr (h : Recent past cache) (ha : Arranged cache cache') : Recent past cache' where
  sectors := by
    have hsector : (fun j => (cache'.frame j).sector) = fun j => (cache.frame j).sector :=
      funext ha.sector
    rw [← h.sectors, Cache.sectors, Cache.sectors, ha.recency, hsector]
  accesses := (congrArg CacheStats.accesses ha.stats).trans h.accesses
  hits := (congrArg CacheStats.hits ha.stats).trans h.hits

variable [BlockDevice δ]

/-- **An access** adds its sector to the history. -/
theorem acquire_recent {fill : Fill} {taken : Cache δ n} {log : List Event} (hc : cache.Fitted)
    (hp : cache.Unpinned) (h : Recent past cache) (hn : 0 < n)
    (hrun : acquire fill s cache = ⟨.ok i, taken, log⟩) :
    Recent (s :: past) taken ∧ taken.accesses = cache.accesses + 1 ∧
      taken.hits = cache.hits + if Recalled n past s then 1 else 0 := by
  have hcounters : taken.accesses = cache.accesses + 1 ∧
      taken.hits = cache.hits + if Recalled n past s then 1 else 0 := by
    rcases acquire_ok hc.evicting hrun with ⟨hit, rfl⟩ | ⟨hmiss, hl⟩
    · have hcached : cache.isCached s = true := by rw [isCached, hit]; rfl
      rw [if_pos (h.isCached_iff.mp hcached)]
      exact ⟨rfl, rfl⟩
    · have hfresh : ¬ Recalled n past s := fun hr => by
        have hcached := h.isCached_iff.mpr hr
        rw [isCached, hmiss] at hcached
        cases hcached
      rw [if_neg hfresh]
      exact ⟨hl.accesses, hl.hits⟩
  refine ⟨⟨?_, ?_, ?_⟩, hcounters⟩
  · -- the frame for the sector is one of them, so there is room for one less of the others
    obtain ⟨k, rfl⟩ : ∃ k, n = k + 1 := ⟨n - 1, by omega⟩
    rw [acquire_sectors hc hp hrun, h.sectors, Nat.add_sub_cancel, take_filter_take (nodup_eraseDups past),
      ← eraseDups_filter, List.eraseDups_cons, List.take_succ_cons]
    rfl
  · rw [hcounters.1, h.accesses, List.length_cons]
  · rw [hcounters.2, h.hits]
    rfl

variable [LawfulDevice δ] {a : SectorArray} {count : Nat}

/-- Requests that are not nested are answered, and no frame is pinned afterwards. -/
theorem run_unnested (hc : cache.Coherent a) (hp : cache.Unpinned) (hn : 0 < n) (base : CacheStats)
    {request : Request} (h : request.Unnested (BlockDevice.sectorCount cache.device)) :
    ∃ answer cache' log a', request.run base cache = ⟨.ok answer, cache', log⟩ ∧ cache'.Coherent a' ∧
      cache'.Unpinned ∧ BlockDevice.sectorCount cache'.device = BlockDevice.sectorCount cache.device := by
  rcases h with hflat | rfl | rfl
  · obtain ⟨cache', log, hrun, hc', hsame⟩ := run_coherent base request (hflat.fits hn) hc hp.pinnedBy rfl
    exact ⟨_, cache', log, _, hrun, hc', hsame.unpinned hp, hsame.count⟩
  · exact ⟨_, cache, _, a, rfl, hc, hp, rfl⟩
  · exact ⟨_, cache, _, a, rfl, hc, hp, rfl⟩

/-- A request for a sector gets a frame for it. What it does then is not to be seen in the order. -/
theorem run_arranged (hc : cache.Coherent a) (hp : cache.Unpinned) (hn : 0 < n) (base : CacheStats)
    {request : Request} (h : request.Flat (BlockDevice.sectorCount cache.device))
    (hs : request.sector? = some s) :
    ∃ fill i taken log, acquire fill s cache = ⟨.ok i, taken, log⟩ ∧
      Arranged taken (request.run base cache).state := by
  have hroom : ∃ j, (cache.frame j).pins = 0 := ⟨⟨0, hn⟩, hp _⟩
  have hrefl (taken : Cache δ n) : Arranged taken taken := ⟨rfl, fun _ => rfl, rfl⟩
  match request, h with
  | .read t, ht =>
    obtain rfl : t = s := Option.some.inj hs
    obtain ⟨i, taken, log, hrun, -⟩ := acquire_coherent hc .readThrough ht hroom
    refine ⟨.readThrough, i, taken, log, hrun, ?_⟩
    rw [(Request.Ran.read i taken hrun).state_eq]
    exact (hrefl taken).unpin i
  | .write t b, ht =>
    obtain rfl : t = s := Option.some.inj hs
    obtain ⟨i, taken, log, hrun, -⟩ := acquire_coherent hc .overwrite ht hroom
    refine ⟨.overwrite, i, taken, log, hrun, ?_⟩
    rw [(Request.Ran.write i taken hrun).state_eq]
    exact ((hrefl taken).amend i fun _ => b).unpin i
  | .map t [], ⟨_, ht⟩ =>
    obtain rfl : t = s := Option.some.inj hs
    obtain ⟨i, taken, log, hrun, -⟩ := acquire_coherent hc .readThrough ht hroom
    refine ⟨.readThrough, i, taken, log, hrun, ?_⟩
    rw [(Request.Ran.map i taken hrun Request.runAll_nil).state_eq]
    exact (hrefl taken).unpin i
  | .update t change [], ⟨_, ht⟩ =>
    obtain rfl : t = s := Option.some.inj hs
    obtain ⟨i, taken, log, hrun, -⟩ := acquire_coherent hc .readThrough ht hroom
    refine ⟨.readThrough, i, taken, log, hrun, ?_⟩
    rw [(Request.Ran.update i taken hrun Request.runAll_nil).state_eq]
    exact (((hrefl taken).amend i id).amend i change).unpin i

/-- **A request** does to the history what `Request.follow` says. -/
theorem run_recent (hc : cache.Coherent a) (hp : cache.Unpinned) (h : Recent past cache) (hn : 0 < n)
    (base : CacheStats) {request : Request}
    (hu : request.Unnested (BlockDevice.sectorCount cache.device)) :
    Recent (request.follow past) (request.run base cache).state := by
  cases hs : request.sector? with
  | some s =>
    have hflat : request.Flat (BlockDevice.sectorCount cache.device) := by
      rcases hu with hflat | rfl | rfl
      · exact hflat
      · cases hs
      · cases hs
    obtain ⟨fill, i, taken, log, hrun, harranged⟩ := run_arranged hc hp hn base hflat hs
    have hfollow : request.follow past = s :: past := by
      cases request with
      | reset => cases hs
      | _ => simp only [Request.follow, hs, Option.toList_some, List.singleton_append]
    rw [hfollow]
    exact (acquire_recent hc.toSound.fitted hp h hn hrun).1.congr harranged
  | none =>
    cases request with
    | read | write | map | update => cases hs
    | inspect | sample => exact h
    | sinceSample => rcases hu with hu | hu | hu <;> cases hu
    | flush =>
      obtain ⟨flushed, log, hrun, -⟩ := flush_coherent hc
      have hcleaned := flush_ok hc.toSound.fitted hrun
      rw [(Request.Ran.flush hrun).state_eq]
      exact ⟨hcleaned.sectors_eq.trans h.sectors,
        (congrArg CacheStats.accesses hcleaned.stats).trans h.accesses,
        (congrArg CacheStats.hits hcleaned.stats).trans h.hits⟩
    | reset =>
      obtain ⟨emptied, log, hrun, -⟩ := reset_coherent hc
      obtain ⟨flushed, -, hemptied⟩ := reset_ok hc.toSound.fitted hp hrun
      rw [(Request.Ran.reset hrun).state_eq]
      refine ⟨?_, congrArg CacheStats.accesses hemptied.stats, congrArg CacheStats.hits hemptied.stats⟩
      rw [hemptied.sectors_eq]
      exact List.take_nil.symm

/-- Requests that are not nested are answered, and the cache is what their history has left. -/
theorem runAll_recent (hn : 0 < n) (base : CacheStats) (requests : List Request)
    (hu : ∀ request ∈ requests, request.Unnested count) (hc : cache.Coherent a) (hp : cache.Unpinned)
    (hcount : BlockDevice.sectorCount cache.device = count) (h : Recent past cache) :
    ∃ answers cache' log a', Request.runAll base requests cache = ⟨.ok answers, cache', log⟩ ∧
      cache'.Coherent a' ∧ cache'.Unpinned ∧ BlockDevice.sectorCount cache'.device = count ∧
      Recent (requests.foldl Request.follow past) cache' := by
  induction requests generalizing cache a past base with
  | nil => exact ⟨([], base), cache, [], a, rfl, hc, hp, hcount, h⟩
  | cons request rest ih =>
    obtain ⟨hfirst, hrest⟩ := List.forall_mem_cons.mp hu
    have hrecent := run_recent hc hp h hn base (hcount ▸ hfirst)
    obtain ⟨answer, first, log₁, a₁, hrun, hc₁, hp₁, hcount₁⟩ :=
      run_unnested hc hp hn base (hcount ▸ hfirst)
    rw [hrun] at hrecent
    obtain ⟨answers, last, log₂, a₂, hruns, hc₂, hp₂, hcount₂, h₂⟩ :=
      ih answer.2 hrest hc₁ hp₁ (hcount₁.trans hcount) hrecent
    refine ⟨(answer.1 :: answers.1, answers.2), last, log₁ ++ (log₂ ++ []), a₂, ?_, hc₂, hp₂, hcount₂, h₂⟩
    simp only [Request.runAll, Action.bind_def, hrun, hruns, Action.pure_def]

end Requests

/-- **The cache keeps the sectors used last.** Requests that are not nested are made of a new cache. They are
    answered, and then the sectors in the cache are those asked for last since the last reset, in that order:
    as many different ones as there are frames, or all of them. The next access is a hit if and only if its
    sector was asked for since the last reset, and since then fewer different sectors than there are frames.
    So the history tells how many accesses and hits were counted. -/
theorem recency_exact {δ : Type} [BlockDevice δ] [LawfulDevice δ] {d : δ} (hd : LawfulDevice.Sound d)
    {n : Nat} (hn : 0 < n) (base : CacheStats) (requests : List Request)
    (hu : ∀ request ∈ requests, request.Unnested (BlockDevice.sectorCount d)) :
    let reply := Request.runAll base requests (blank n d)
    let past := history requests
    (∃ answers, reply.result = .ok answers) ∧
    reply.state.sectors = past.eraseDups.take n ∧
    (∀ s, reply.state.isCached s = true ↔ s ∈ past.eraseDups.take n) ∧
    (∀ base' (request : Request) s, request.Unnested (BlockDevice.sectorCount d) → request.sector? = some s →
      (reply.state.isCached s = true ↔ Recalled n past s) ∧
      (request.run base' reply.state).state.accesses = reply.state.accesses + 1 ∧
      (request.run base' reply.state).state.hits =
        reply.state.hits + if Recalled n past s then 1 else 0) ∧
    reply.state.accesses = past.length ∧ reply.state.hits = hitCount n past := by
  intro reply past
  obtain ⟨answers, cache, log, a, hrun, hc, hp, hcount, h⟩ :=
    runAll_recent hn base requests hu (blank_coherent hd) (blank_unpinned d) rfl (blank_recent d)
  have hreply : reply = ⟨.ok answers, cache, log⟩ := hrun
  rw [hreply]
  refine ⟨⟨answers, rfl⟩, h.sectors, fun s => ?_, ?_, h.accesses, h.hits⟩
  · rw [isCached_iff_mem]
    exact h.sectors ▸ Iff.rfl
  · intro base' request s hu' hs
    have hflat : request.Flat (BlockDevice.sectorCount cache.device) := by
      rcases hu' with hflat | rfl | rfl
      · exact hcount ▸ hflat
      · cases hs
      · cases hs
    obtain ⟨fill, i, taken, log', hacquire, harranged⟩ := run_arranged hc hp hn base' hflat hs
    obtain ⟨-, haccesses, hhits⟩ := acquire_recent hc.toSound.fitted hp h hn hacquire
    exact ⟨h.isCached_iff, (congrArg CacheStats.accesses harranged.stats).trans haccesses,
      (congrArg CacheStats.hits harranged.stats).trans hhits⟩

/-- Two frames: sector 1 is pushed out by sector 2, and sector 2 by sector 1. What was before the reset does
    not count. -/
theorem recency_exact_two :
    let requests : List Request :=
      [.read 3, .reset, .write 0 Block.zero, .read 1, .update 0 (·.splice 4 #[5]) [], .inspect, .read 2, .flush,
        .map 0 [], .sample, .map 1 []]
    (∀ request ∈ requests, request.Unnested 4) ∧ history requests = [1, 0, 2, 0, 1, 0] ∧
      (Request.runAll {} requests (blank 2 (RamDisk.blank 4))).state.sectors = [1, 0] ∧
      (Request.runAll {} requests (blank 2 (RamDisk.blank 4))).state.accesses = 6 ∧
      (Request.runAll {} requests (blank 2 (RamDisk.blank 4))).state.hits = 2 := by
  intro requests
  have hcount : BlockDevice.sectorCount (RamDisk.blank 4) = 4 := Array.size_replicate
  have hu : ∀ request ∈ requests, request.Unnested 4 := by
    simp [requests, Request.Unnested, Request.Flat]
  have hpast : history requests = [1, 0, 2, 0, 1, 0] := by
    simp [requests, history, Request.follow, Request.sector?]
  obtain ⟨-, hsectors, -, -, haccesses, hhits⟩ :=
    recency_exact (d := RamDisk.blank 4) trivial Nat.zero_lt_two {} requests (hcount ▸ hu)
  rw [hpast] at hsectors haccesses hhits
  have hlast : ([1, 0, 2, 0, 1, 0] : List SectorId).eraseDups.take 2 = [1, 0] := by decide +kernel
  have hhit : hitCount 2 [1, 0, 2, 0, 1, 0] = 2 := by decide +kernel
  exact ⟨hu, hpast, hsectors.trans hlast, haccesses, hhits.trans hhit⟩

end InodeStore.Cache
