import InodeStore.Proofs.Cache.Nesting
import Std.Data.TreeMap.Lemmas

/-!
# `Proofs.Cache.Directory` — the cache with a table of its sectors

`Cache` finds a sector by looking through the frames in use. A `Directory` has a table besides, from the
sectors to their frames, and goes by the table. The table is changed piece by piece: a frame that is given to
a sector is struck out under its old one first, and when the cache is emptied its queue is taken apart frame by
frame and put together again from the frames that stay. An access goes round as often as it meets its sector on
the way to the device.

As long as the table tells the same as the frames (`Agrees`) and nothing is on its way out, the directory does
with the cache what `seek`, `acquire`, `forget` and `reset` do with it, and the loop is over after one pass.

## Contents
- `Directory`, `lift`, `struck`, `assign`, `seek`, `pass`, `acquire`, `forget`, `reset`.
- **Access.** `seek_agrees`, `pass_agrees`, `acquire_agrees`.
- **Emptying.** `forget_agrees`, `reset_agrees`.
-/

namespace InodeStore.Cache

/-- A cache, and a table of the sectors in it with their frames. -/
structure Directory (δ : Type) (n : Nat) where
  cache : Cache δ n
  table : Std.TreeMap SectorId (Fin n)

namespace Directory

variable {δ : Type} {n : Nat} {α : Type}

/-- An empty cache has an empty table. -/
def blank (n : Nat) (d : δ) : Directory δ n := ⟨Cache.blank n d, ∅⟩

/-- Work on the cache that has no need of the table. -/
def lift (action : Action (Cache δ n) α) : Action (Directory δ n) α := fun dir =>
  ⟨(action dir.cache).result, { dir with cache := (action dir.cache).state }, (action dir.cache).log⟩

/-! ## Access -/

/-- The table without the sector that a frame has. -/
def struck (dir : Directory δ n) (i : Fin n) : Std.TreeMap SectorId (Fin n) :=
  match (dir.cache.frame i).sector with
  | some old => dir.table.erase old
  | none => dir.table

/-- Give a claimed frame to a sector. -/
def assign (sector : SectorId) (i : Fin n) : Action (Directory δ n) (Sought n) := fun dir =>
  lift (Cache.assign sector i) { dir with table := (dir.struck i).insert sector i }

/-- Look a sector up and find a frame for it if it has none. -/
def seek (sector : SectorId) : Action (Directory δ n) (Sought n) := fun dir =>
  match dir.table[sector]? with
  | some i => ⟨.ok (.hit i), { dir with cache := dir.cache.found i }, []⟩
  | none =>
    match dir.cache.evicting.lookup sector with
    | some i => ⟨.ok (.busy i), dir, []⟩
    | none =>
      let cache := { dir.cache with accesses := dir.cache.accesses + 1 }
      match cache.claim? with
      | some (i, cache) => assign sector i { dir with cache }
      | none => ⟨.error .framesExhausted, { dir with cache }, []⟩

section Loop

variable [BlockDevice δ]

/-- One pass of an access. It comes to nothing where the sector is on its way to the device. -/
def pass (fill : Fill) (sector : SectorId) : Action (Directory δ n) (Option (Fin n)) := do
  match ← seek sector with
  | .hit i => pure (some i)
  | .busy _ => pure none
  | .miss i displaced =>
    let i ← lift <| Action.onFault (unpin i) do
      if let some old := displaced then
        spill i old
        settle old
      fetch i sector fill
      pure i
    pure (some i)

/-- Find or make a frame with the content of a sector in so many passes. -/
def acquire (fill : Fill) (sector : SectorId) : Nat → Action (Directory δ n) (Option (Fin n))
  | 0 => pure none
  | passes + 1 => do
    match ← pass fill sector with
    | some i => pure (some i)
    | none => acquire fill sector passes

end Loop

/-! ## Emptying -/

/-- A frame without its sector. -/
def dropped (frame : Frame) : Frame := { frame with sector := none, valid := false }

/-- Put a frame back into the queue if it is pinned or dirty, or else take it from its sector. -/
def forgetFrame (dir : Directory δ n) (i : Fin n) : Directory δ n :=
  if dir.cache.keeps i then { dir with cache := { dir.cache with recency := i :: dir.cache.recency } }
  else
    { cache := { dir.cache.mapFrame i dropped with free := i :: dir.cache.free }
      table := dir.struck i }

/-- The queue is taken apart, beginning with the frame used longest ago. -/
def takenApart (dir : Directory δ n) : Directory δ n :=
  dir.cache.recency.reverse.foldl forgetFrame { dir with cache := { dir.cache with recency := [] } }

/-- Take every frame from its sector, but for those pinned or dirty, and start counting anew. -/
def forget : Action (Directory δ n) Unit := fun dir =>
  let cache :=
    { dir.takenApart.cache with
      accesses := 0
      hits := 0
      deviceReads := 0
      deviceWrites := 0 }
  ⟨.ok (), ⟨cache, dir.takenApart.table⟩, [.cacheReset cache.recency.length]⟩

/-- Bring every changed sector to the device, empty the cache and start counting anew. -/
def reset [BlockDevice δ] : Action (Directory δ n) Unit := do
  lift Cache.flush
  forget

/-! ## What the operations do to the cache -/

/-- The table tells of each sector what the frames in use tell. -/
def Agrees (dir : Directory δ n) : Prop := ∀ s, dir.table[s]? = dir.cache.frameOf? s

variable {dir dir' : Directory δ n} {s : SectorId} {i : Fin n} {fill : Fill}

/-- The table after a look for a sector that ended in this way. -/
def entered (dir : Directory δ n) (s : SectorId) : Except Fault (Sought n) → Std.TreeMap SectorId (Fin n)
  | .ok (.miss i _) => (dir.struck i).insert s i
  | _ => dir.table

/-- **A look in the table** is one through the frames. -/
theorem seek_agrees (h : dir.Agrees) (s : SectorId) :
    seek s dir = ⟨(Cache.seek s dir.cache).result,
      ⟨(Cache.seek s dir.cache).state, dir.entered s (Cache.seek s dir.cache).result⟩,
      (Cache.seek s dir.cache).log⟩ := by
  unfold seek Cache.seek
  rw [h s]
  cases dir.cache.frameOf? s with
  | some i => rfl
  | none =>
    cases dir.cache.evicting.lookup s with
    | some i => rfl
    | none =>
      cases hclaim : Cache.claim? { dir.cache with accesses := dir.cache.accesses + 1 } with
      | none => simp only [hclaim]; rfl
      | some claimed =>
        -- a frame is claimed with what is in it
        have hframe : claimed.2.frame claimed.1 = dir.cache.frame claimed.1 := by
          rw [(claim?_eq_some hclaim).2]
          rfl
        simp only [hclaim, assign, lift, struck, entered, Cache.assign, hframe]

/-- Where nothing is on its way out no sector is met there. -/
theorem seek_not_busy (hout : dir.cache.evicting = []) (s : SectorId) (i : Fin n) :
    (Cache.seek s dir.cache).result ≠ .ok (.busy i) := by
  unfold Cache.seek
  rw [hout]
  cases dir.cache.frameOf? s with
  | some j => exact nofun
  | none =>
    simp only [List.lookup_nil]
    split
    · exact nofun
    · exact nofun

section Loop

variable [BlockDevice δ]

omit [BlockDevice δ] in
/-- Work on the cache is done as it is without a table. -/
theorem lift_some (action : Action (Cache δ n) α) (dir : Directory δ n) :
    (lift action >>= fun a => pure (some a)) dir = ⟨(action dir.cache).result.map some,
      { dir with cache := (action dir.cache).state }, (action dir.cache).log⟩ := by
  rw [Action.bind_def]
  unfold lift
  rcases action dir.cache with ⟨_ | a, cache, log⟩
  · rfl
  · simp only [Action.pure_def, List.append_nil]
    rfl

/-- **One pass** finds or makes the frame where nothing is on its way out. -/
theorem pass_agrees (h : dir.Agrees) (hout : dir.cache.evicting = []) (fill : Fill) (s : SectorId) :
    pass fill s dir = ⟨(Cache.acquire fill s dir.cache).result.map some,
      ⟨(Cache.acquire fill s dir.cache).state, dir.entered s (Cache.seek s dir.cache).result⟩,
      (Cache.acquire fill s dir.cache).log⟩ := by
  have hbusy := seek_not_busy (s := s) hout
  unfold pass Cache.acquire
  rw [Action.bind_def, Action.bind_def, seek_agrees h]
  rcases hseek : Cache.seek s dir.cache with ⟨_ | (i | i | ⟨i, displaced⟩), sought, log⟩
  · rfl
  · rfl
  · exact absurd (congrArg Reply.result hseek) (hbusy i)
  · cases displaced <;> simp only [lift_some]

/-- A pass that comes to something is the last one. -/
theorem acquire_of_pass {found : Except Fault (Fin n)} {log : List Event}
    (h : pass fill s dir = ⟨found.map some, dir', log⟩) (passes : Nat) :
    acquire fill s (passes + 1) dir = pass fill s dir := by
  unfold acquire
  rw [Action.bind_def, h]
  cases found with
  | error e => rfl
  | ok i =>
    show (⟨.ok (some i), dir', log ++ []⟩ : Reply (Directory δ n) (Option (Fin n))) = _
    rw [List.append_nil]
    rfl

/-- **The loop is over after one pass**, and has done what an access does. -/
theorem acquire_agrees (h : dir.Agrees) (hout : dir.cache.evicting = []) (fill : Fill) (s : SectorId)
    (passes : Nat) : acquire fill s (passes + 1) dir = ⟨(Cache.acquire fill s dir.cache).result.map some,
      ⟨(Cache.acquire fill s dir.cache).state, dir.entered s (Cache.seek s dir.cache).result⟩,
      (Cache.acquire fill s dir.cache).log⟩ := by
  rw [acquire_of_pass (pass_agrees h hout fill s) passes, pass_agrees h hout fill s]

omit [BlockDevice δ] in
/-- What ends well is not undone. -/
theorem onFault_ok {action : Action (Cache δ n) α} {change : Cache δ n → Cache δ n} {a : α}
    {cache cache' : Cache δ n} {log : List Event}
    (h : Action.onFault change action cache = ⟨.ok a, cache', log⟩) : action cache = ⟨.ok a, cache', log⟩ := by
  unfold Action.onFault at h
  rcases hrun : action cache with ⟨_ | b, mid, log'⟩
  · rw [hrun] at h
    cases h
  · rw [hrun] at h
    exact h

/-- The table after an access that ends well: as it was, or with the frame that the sector was given. -/
theorem entered_of_ok {taken : Cache δ n} {log : List Event} (hout : dir.cache.evicting = [])
    (hrun : Cache.acquire fill s dir.cache = ⟨.ok i, taken, log⟩) :
    dir.entered s (Cache.seek s dir.cache).result =
      if dir.cache.frameOf? s = none then (dir.struck i).insert s i else dir.table := by
  cases hfind : dir.cache.frameOf? s with
  | some j =>
    rw [seek_of_hit hfind]
    rfl
  | none =>
    unfold Cache.acquire at hrun
    obtain ⟨sought, given, log₁, log₂, hseek, hrest⟩ := Action.bind_ok hrun
    cases hclaim : Cache.claim? { dir.cache with accesses := dir.cache.accesses + 1 } with
    | none =>
      rw [seek_of_exhausted hfind hout hclaim] at hseek
      cases hseek
    | some claimed =>
      obtain ⟨log₃, hmiss⟩ := seek_of_claim hfind hout hclaim
      rw [hmiss] at hseek ⊢
      cases hseek
      -- the frame that was given is the one that is filled
      have hi : claimed.1 = i := by
        have hrest := onFault_ok hrest
        cases hleaving : dir.cache.leaving claimed.1 with
        | none =>
          rw [hleaving] at hrest
          obtain ⟨⟨⟩, filled, _, _, -, hpure⟩ := Action.bind_ok hrest
          cases hpure
          rfl
        | some old =>
          rw [hleaving] at hrest
          obtain ⟨⟨⟩, spilt, _, _, -, hrest⟩ := Action.bind_ok hrest
          obtain ⟨⟨⟩, settled, _, _, -, hrest⟩ := Action.bind_ok hrest
          obtain ⟨⟨⟩, filled, _, _, -, hpure⟩ := Action.bind_ok hrest
          cases hpure
          rfl
      rw [hi]
      rfl

end Loop

/-! ## What emptying does to the cache -/

/-- Whether a frame stays depends on what nobody changes meanwhile. -/
theorem keeps_forgetFrame (dir : Directory δ n) (i j : Fin n) :
    (dir.forgetFrame i).cache.keeps j = dir.cache.keeps j := by
  cases hi : dir.cache.keeps i with
  | true => rw [forgetFrame, if_pos hi]; rfl
  | false =>
    rw [forgetFrame, if_neg (by rw [hi]; exact Bool.false_ne_true)]
    exact mapFrame_keeps (fun frame => frame.pins != 0 || frame.dirty) rfl j

/-- **A queue that is taken apart.** The frames that stay are put back in their order, and the others are free
    and have no sector. -/
theorem foldl_forgetFrame (queue : List (Fin n)) (dir : Directory δ n) :
    let gone := queue.filter fun i => !dir.cache.keeps i
    let dir' := queue.foldl forgetFrame dir
    dir'.cache = { dir.cache with
      frames := dir'.cache.frames
      recency := (queue.filter dir.cache.keeps).reverse ++ dir.cache.recency
      free := gone.reverse ++ dir.cache.free } ∧
    ∀ j, dir'.cache.frame j = if j ∈ gone then dropped (dir.cache.frame j) else dir.cache.frame j := by
  induction queue generalizing dir with
  | nil => exact ⟨rfl, fun j => rfl⟩
  | cons i rest ih =>
    obtain ⟨hcache, hframe⟩ := ih (dir.forgetFrame i)
    have hkeeps : (dir.forgetFrame i).cache.keeps = dir.cache.keeps := funext (dir.keeps_forgetFrame i)
    simp only [hkeeps] at hcache hframe
    dsimp only [List.foldl_cons]
    cases hi : dir.cache.keeps i with
    | true =>
      have hstep : dir.forgetFrame i =
          { dir with cache := { dir.cache with recency := i :: dir.cache.recency } } := if_pos hi
      rw [hstep] at hcache hframe ⊢
      simp only [List.filter_cons, hi, if_true, Bool.not_true, Bool.false_eq_true, if_false,
        List.reverse_cons, List.append_assoc, List.singleton_append]
      exact ⟨hcache, hframe⟩
    | false =>
      have hstep : dir.forgetFrame i =
          { cache := { dir.cache.mapFrame i dropped with free := i :: dir.cache.free }
            table := dir.struck i } := if_neg (by rw [hi]; exact Bool.false_ne_true)
      rw [hstep] at hcache hframe ⊢
      simp only [List.filter_cons, hi, if_true, Bool.not_false, Bool.false_eq_true, if_false,
        List.reverse_cons, List.append_assoc, List.singleton_append]
      refine ⟨hcache, fun j => (hframe j).trans ?_⟩
      -- a frame that is dropped twice is dropped
      show (if _ then dropped ((dir.cache.mapFrame i dropped).frame j) else
        (dir.cache.mapFrame i dropped).frame j) = _
      rw [frame_mapFrame]
      by_cases hj : j = i
      · subst hj
        simp [dropped]
      · simp [hj]

/-- The frames that go when the cache is emptied. -/
def gone (cache : Cache δ n) : List (Fin n) := cache.recency.filter fun i => !cache.keeps i

/-- What dropping them makes of the cache. -/
def swept (cache : Cache δ n) : Cache δ n := (gone cache).foldl (fun cache i => cache.mapFrame i dropped) cache

theorem swept_eq (cache : Cache δ n) :
    (swept cache).device = cache.device ∧ (swept cache).free = cache.free ∧
      (swept cache).evicting = cache.evicting ∧
      ∀ j, (swept cache).frame j = if j ∈ gone cache then dropped (cache.frame j) else cache.frame j := by
  obtain ⟨hdevice, -, hfree, hevicting, hframe⟩ := foldl_mapFrame (gone cache) dropped (fun _ => rfl) cache
  exact ⟨hdevice, hfree, hevicting, hframe⟩

/-- Taking the queue apart leaves the frames that stay in it, in their order. -/
theorem takenApart_cache (dir : Directory δ n) : dir.takenApart.cache = { dir.cache with
    frames := (swept dir.cache).frames
    recency := dir.cache.recency.filter dir.cache.keeps
    free := gone dir.cache ++ dir.cache.free } := by
  obtain ⟨hcache, hframe⟩ := foldl_forgetFrame dir.cache.recency.reverse
    { dir with cache := { dir.cache with recency := [] } }
  have hkeeps : Cache.keeps { dir.cache with recency := [] } = dir.cache.keeps := rfl
  obtain ⟨-, -, -, hall⟩ := swept_eq dir.cache
  simp only [hkeeps, List.filter_reverse, List.reverse_reverse, List.append_nil, List.mem_reverse] at hcache hframe
  -- the frames are dropped in another order
  have hframes : dir.takenApart.cache.frames = (swept dir.cache).frames :=
    Vector.ext fun k hk => (hframe ⟨k, hk⟩).trans (hall ⟨k, hk⟩).symm
  rw [← hframes]
  exact hcache

/-- What is left after emptying, put in the terms of the frames that go. -/
theorem forget_def (cache : Cache δ n) : Cache.forget cache =
    ⟨.ok (), { swept cache with
      recency := cache.recency.filter cache.keeps
      free := gone cache ++ (swept cache).free
      accesses := 0, hits := 0, deviceReads := 0, deviceWrites := 0 },
      [.cacheReset (cache.recency.filter cache.keeps).length]⟩ := by
  unfold Cache.forget
  rw [List.partition_eq_filter_filter]
  rfl

/-- **Emptying the cache frame by frame** is emptying it. -/
theorem forget_agrees (dir : Directory δ n) : forget dir =
    ⟨.ok (), ⟨(Cache.forget dir.cache).state, dir.takenApart.table⟩, (Cache.forget dir.cache).log⟩ := by
  obtain ⟨hdevice, hfree, hevicting, -⟩ := swept_eq dir.cache
  unfold forget
  rw [takenApart_cache, forget_def]
  dsimp only
  rw [hdevice, hfree, hevicting]

/-- **Emptying the cache** with its table is emptying it. -/
theorem reset_agrees [BlockDevice δ] (dir : Directory δ n) : ∃ table, reset dir =
    ⟨(Cache.reset dir.cache).result, ⟨(Cache.reset dir.cache).state, table⟩, (Cache.reset dir.cache).log⟩ := by
  unfold reset Cache.reset
  rw [Action.bind_def, Action.bind_def]
  unfold lift
  rcases flush dir.cache with ⟨_ | ⟨⟩, flushed, log⟩
  · exact ⟨dir.table, rfl⟩
  · refine ⟨(takenApart { dir with cache := flushed }).table, ?_⟩
    dsimp only
    rw [forget_agrees]
    rfl

end Directory

end InodeStore.Cache
