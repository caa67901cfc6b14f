import InodeStore.Proofs.Cache.Staffing

/-!
# `Proofs.Cache.Stepping` — one step of one thread

`Serving` is the invariant of a cache that several threads work on: its parts are in order, cache and threads
agree, and the cache stands for an array of blocks. Every step that a thread can take keeps it
(`Serving.step`), with one lemma for each kind of step. The array changes in one place only, where a thread
uses the frame it has locked (`Serving.use`), and no step is a fault.
-/

namespace InodeStore.Cache

/-- The content of all sectors once one was used. -/
def Access.apply : Access → SectorArray → SectorArray
  | .view _, a => a
  | .store s block, a => Function.update a s block
  | .update s change, a => Function.update a s (change (a s))

/-- What a use of a sector does to its frame. -/
def Access.work {δ : Type} {n : Nat} (i : Fin n) : Access → Cache δ n → Cache δ n
  | .view _ => id
  | .store _ block => mapFrame i fun frame => { frame with data := block, dirty := true }
  | .update _ change => mapFrame i fun frame => { frame with data := change frame.data, dirty := true }

/-- The content of all sectors after a step in this phase. -/
def Phase.effect {n : Nat} : Phase n → SectorArray → SectorArray
  | .use access _, a => access.apply a
  | _, a => a

/-- Somebody is about to replace the data of the frame. -/
def Replacing {n : Nat} (ph : Nat → Phase n) (i : Fin n) : Prop := ∃ t, (ph t).replaces? = some i

namespace Shared

variable {δ : Type} {n : Nat} {shared : Shared δ n} {i j : Fin n} {locked : Bool}

theorem isLocked_setLock : (shared.setLock i locked).isLocked j =
    if j = i then locked else shared.isLocked j := by
  show (shared.locks.set i.val locked i.isLt)[j.val] = _
  rw [Vector.getElem_set]
  by_cases h : j = i
  · subst h
    simp only [if_true]
  · rw [if_neg fun he => h (Fin.ext he.symm), if_neg h]
    rfl

/-- A thread that has no lock takes one. -/
theorem isLocked_setLock_iff {p q : Phase n} (hp : p.locks? = some i) (hnone : q.locks? = none) :
    (shared.setLock i true).isLocked j = true ↔
      p.locks? = some j ∨ shared.isLocked j = true ∧ q.locks? ≠ some j := by
  rw [isLocked_setLock, hp, hnone]
  by_cases hji : j = i
  · simp [hji]
  · simp [hji, Ne.symm hji]

variable {α : Type}

theorem onCache_eq {action : Action (Cache δ n) α} {result : Except Fault α} {cache' : Cache δ n}
    {log : List Event} (h : action shared.cache = ⟨result, cache', log⟩) :
    onCache action shared = ⟨result, { shared with cache := cache' }, log⟩ := by
  obtain ⟨cache, locks⟩ := shared
  unfold onCache
  dsimp only at h ⊢
  rw [h]

/-- A step that is one action of the cache. -/
theorem onCache_then {action : Action (Cache δ n) Unit} {cache' : Cache δ n} {log : List Event} {b : α}
    (h : action shared.cache = ⟨.ok (), cache', log⟩) :
    (do onCache action; return b : Action (Shared δ n) α) shared =
      ⟨.ok b, { shared with cache := cache' }, log ++ []⟩ := by
  simp only [Action.bind_def, onCache_eq h, Action.pure_def]

/-- The cache and the locks once a thread has let go of a frame. -/
def left (i : Fin n) (shared : Shared δ n) : Shared δ n :=
  ({ shared with cache := shared.cache.unpin i } : Shared δ n).setLock i false

end Shared

section Serving

variable {δ : Type} {n size threads : Nat} [BlockDevice δ] [LawfulDevice δ] {ph : Nat → Phase n}
  {shared shared' : Shared δ n} {a a' : SectorArray} {t u : Nat} {i j : Fin n} {s : SectorId} {p : Phase n}

/-- The invariant of a cache that threads work on. -/
structure Serving (size threads : Nat) (ph : Nat → Phase n) (a : SectorArray) (shared : Shared δ n) :
    Prop where
  orderly : shared.cache.Orderly size
  staffed : Staffed size threads ph shared
  reflects : shared.cache.Reflects size (Replacing ph) a

/-- A step that is no fault and keeps the invariant. -/
def Goes (size threads : Nat) (ph : Nat → Phase n) (t : Nat) (a : SectorArray)
    (reply : Reply (Shared δ n) (Phase n × Option Finding)) : Prop :=
  ∃ p finding shared' log, reply = ⟨.ok (p, finding), shared', log⟩ ∧
    Serving size threads (Function.update ph t p) ((ph t).effect a) shared'

omit [BlockDevice δ] [LawfulDevice δ] in
/-- A thread that replaces nothing may go on to any phase. -/
theorem Replacing.update (h : Replacing ph i) (hnone : (ph t).replaces? = none) :
    Replacing (Function.update ph t p) i := by
  obtain ⟨u, hu⟩ := h
  have hut : u ≠ t := by
    rintro rfl
    rw [hnone] at hu
    cases hu
  exact ⟨u, by rwa [Function.update_of_ne hut]⟩

omit [BlockDevice δ] [LawfulDevice δ] in
theorem pins_pin {cache : Cache δ n} : ((cache.pin i).frame j).pins + 0 =
    (cache.frame j).pins + if some i = some j then 1 else 0 := by
  unfold pin
  by_cases hji : j = i
  · rw [hji, frame_mapFrame_self, if_pos rfl]
  · rw [frame_mapFrame_of_ne _ _ hji, if_neg fun he => hji (Option.some.inj he).symm]

omit [BlockDevice δ] [LawfulDevice δ] in
/-- A step that takes a lock goes on only once the frame is not locked. -/
theorem reply_of_lock {reply : Reply (Shared δ n) (Phase n × Option Finding)}
    (h : Phase.step.lockThen shared i p = some reply) :
    shared.isLocked i = false ∧ reply = ⟨.ok (p, none), shared.setLock i true, []⟩ := by
  unfold Phase.step.lockThen at h
  split at h
  · cases h
  · next hfree => exact ⟨Bool.eq_false_iff.mpr hfree, (Option.some.inj h).symm⟩

/-- Where a step has to do with no lock the frames stay locked as they are. -/
theorem locks_kept {locked : Bool} :
    locked = true ↔ (none : Option (Fin n)) = some j ∨ locked = true ∧ (none : Option (Fin n)) ≠ some j := by
  simp

namespace Serving

/-- A frame that nobody has pinned is replaced by nobody, is filled and is not on its way out. -/
theorem unpinned (h : Serving size threads ph a shared) (hpins : (shared.cache.frame i).pins = 0) :
    ¬ Replacing ph i ∧ (i ∈ shared.cache.recency → (shared.cache.frame i).valid = true) ∧
      ∀ s, (s, i) ∉ shared.cache.evicting := by
  have hnone : ∀ u, (ph u).pins? ≠ some i := fun u hu => by
    have := h.staffed.pinned hu
    omega
  refine ⟨?_, fun hi => ?_, fun s hout => ?_⟩
  · rintro ⟨u, hu⟩
    exact hnone u (Phase.locks?_of_replaces? hu).2
  · refine Bool.eq_true_of_not_eq_false fun hinvalid => ?_
    obtain ⟨u, hu⟩ := h.staffed.filling hi hinvalid
    exact hnone u (Phase.pins?_of_fills? hu)
  · obtain ⟨u, hu⟩ := h.staffed.leaving hout
    exact hnone u (Phase.locks?_of_leaves? hu).2

/-- Only the thread that has locked a frame replaces its data. -/
theorem replaces_of_locks (h : Serving size threads ph a shared) (ht : (ph t).locks? = some i)
    (hi : Replacing ph i) : (ph t).replaces? = some i := by
  obtain ⟨u, hu⟩ := hi
  rwa [h.staffed.alone ht (Phase.locks?_of_replaces? hu).1]

/-- A thread that replaces nothing may go on to any phase. -/
theorem onward (h : Serving size threads ph a shared) {q : Phase n} (hph : ph t = q) (hnone : q.replaces? = none) :
    shared.cache.Reflects size (Replacing (Function.update ph t p)) a :=
  h.reflects.mono fun _ hj => hj.update (hph ▸ hnone)

/-! ## Steps that move no data -/

/-- A step that changes nothing but locks, pins and the order of the frames. -/
theorem move (h : Serving size threads ph a shared) (ht : t < threads) {q : Phase n} (hph : ph t = q)
    (halike : Alike shared.cache shared'.cache)
    (hpins : ∀ i, (shared'.cache.frame i).pins + (if q.pins? = some i then 1 else 0) =
      (shared.cache.frame i).pins + if p.pins? = some i then 1 else 0)
    (hlocked : ∀ i, shared'.isLocked i = true ↔
      p.locks? = some i ∨ shared.isLocked i = true ∧ q.locks? ≠ some i)
    (halone : ∀ i, p.locks? = some i → q.locks? = some i ∨ shared.isLocked i = false)
    (hfills : q.fills? = none) (hleaves : q.leaves? = none) (hfits : p.Fits size shared.cache)
    (hreflects : shared.cache.Reflects size (Replacing (Function.update ph t p)) a') :
    Serving size threads (Function.update ph t p) a' shared' := by
  subst hph
  have hsame : ∀ {q : Phase n}, q.Fits size shared.cache → q.Fits size shared'.cache := by
    intro q hq
    refine hq.mono (fun i _ hi => ?_) (fun i _ _ => ?_) fun entry _ hout => halike.evicting ▸ hout
    · obtain ⟨pins, hframe⟩ := halike.frame i
      exact ⟨halike.recency.mem_iff.mpr hi, by rw [hframe]⟩
    · obtain ⟨pins, hframe⟩ := halike.frame i
      rw [hframe]
      exact ⟨rfl, rfl⟩
  refine ⟨halike.orderly h.orderly, h.staffed.update ht hpins hlocked halone (fun i hi hinvalid => ?_)
    (fun entry hout => ?_) (hsame hfits) (fun u _ => hsame (h.staffed.fits u)), halike.reflects hreflects⟩
  · obtain ⟨pins, hframe⟩ := halike.frame i
    rw [hframe] at hinvalid
    exact Or.inr ⟨halike.recency.mem_iff.mp hi, hinvalid, by rw [hfills]; exact nofun⟩
  · exact Or.inr ⟨halike.evicting ▸ hout, by rw [hleaves]; exact nofun⟩

/-- A frame is locked as soon as nobody else has it locked. -/
theorem lock (h : Serving size threads ph a shared) (ht : t < threads) {q : Phase n} (hph : ph t = q)
    {reply : Reply (Shared δ n) (Phase n × Option Finding)}
    (hstep : Phase.step.lockThen shared i p = some reply) (hpins : p.pins? = q.pins?) (hp : p.locks? = some i)
    (hnone : q.locks? = none) (hfills : q.fills? = none) (hleaves : q.leaves? = none)
    (hreplaces : q.replaces? = none) (heffect : q.effect a = a)
    (hfits : shared.isLocked i = false → p.Fits size shared.cache) : Goes size threads ph t a reply := by
  subst hph
  obtain ⟨hfree, hreply⟩ := reply_of_lock hstep
  refine ⟨p, none, shared.setLock i true, [], hreply, heffect.symm ▸ ?_⟩
  refine h.move ht rfl ⟨List.Perm.refl _, rfl, rfl, rfl, fun j => ⟨_, rfl⟩⟩ (fun j => by rw [hpins]; rfl)
    (fun j => Shared.isLocked_setLock_iff hp hnone) (fun j hj => ?_) hfills hleaves (hfits hfree)
    (h.onward rfl hreplaces)
  rw [hp] at hj
  exact Or.inr (Option.some.inj hj ▸ hfree)

/-- A frame that was locked is unlocked, and unpinned if it was pinned. -/
theorem unlock (h : Serving size threads ph a shared) (ht : t < threads) {q : Phase n} (hph : ph t = q)
    (halike : Alike shared.cache shared'.cache)
    (hpins : ∀ j, (shared'.cache.frame j).pins + (if q.pins? = some j then 1 else 0) =
      (shared.cache.frame j).pins)
    (hlocks : ∀ j, shared'.isLocked j = if j = i then false else shared.isLocked j)
    (hlocked : q.locks? = some i) (hp : p.locks? = none) (hp' : p.pins? = none)
    (hfills : q.fills? = none) (hleaves : q.leaves? = none) (hfits : p.Fits size shared.cache)
    (hreflects : shared.cache.Reflects size (Replacing (Function.update ph t p)) a') :
    Serving size threads (Function.update ph t p) a' shared' := by
  refine h.move ht hph halike (fun j => ?_) (fun j => ?_) (fun j hj => ?_) hfills hleaves hfits hreflects
  · rw [hp']
    exact hpins j
  · rw [hlocks, hp, hlocked]
    by_cases hji : j = i
    · simp [hji]
    · rw [if_neg hji]
      refine ⟨fun hj => Or.inr ⟨hj, fun he => hji (Option.some.inj he).symm⟩, ?_⟩
      rintro (he | ⟨hj, -⟩)
      · cases he
      · exact hj
  · rw [hp] at hj
    cases hj

/-- A step that has no effect on what is shared. -/
theorem idle (h : Serving size threads ph a shared) (ht : t < threads) {q : Phase n} (hph : ph t = q)
    (hpins : p.pins? = q.pins?) (hlocks : p.locks? = none) (hnone : q.locks? = none) (hfills : q.fills? = none)
    (hleaves : q.leaves? = none) (hreplaces : q.replaces? = none)
    (hfits : p.Fits size shared.cache) : Serving size threads (Function.update ph t p) a shared := by
  refine h.move ht hph ⟨List.Perm.refl _, rfl, rfl, rfl, fun j => ⟨_, rfl⟩⟩ (fun j => by rw [hpins])
    (fun j => ?_) (fun j hj => ?_) hfills hleaves hfits (h.onward hph hreplaces)
  · rw [hlocks, hnone]
    simp
  · rw [hlocks] at hj
    cases hj

/-! ## Steps that use the device or a frame's data -/

/-- A step on the frame that the thread has locked and goes on having so. -/
theorem transfer (h : Serving size threads ph a shared) (ht : t < threads) {q : Phase n} (hph : ph t = q)
    (hlocked : q.locks? = some i) (hp : p.locks? = some i) (hpins : p.pins? = q.pins?)
    {cache' : Cache δ n} (htransfer : Transfer i shared.cache cache')
    (hsector : (cache'.frame i).sector = (shared.cache.frame i).sector)
    (hframe : (cache'.frame i).pins = (shared.cache.frame i).pins)
    (hfills : (cache'.frame i).valid = false → p.fills? = some i)
    (hleaves : q.leaves? = p.leaves?) (hfits : p.Fits size cache')
    (horderly : cache'.Orderly size)
    (hreflects : cache'.Reflects size (Replacing (Function.update ph t p)) a') :
    Serving size threads (Function.update ph t p) a' { shared with cache := cache' } := by
  subst hph
  refine ⟨horderly, h.staffed.update ht (fun j => ?_) (fun j => ?_) (fun j hj => ?_)
    (fun j hj hinvalid => ?_) (fun entry hout => ?_) hfits (fun u hu => ?_), hreflects⟩
  · rw [hpins]
    by_cases hji : j = i
    · rw [hji]
      exact congrArg (· + _) hframe
    · exact congrArg (fun frame : Frame => frame.pins + _) (htransfer.other j hji)
  · rw [hp, hlocked]
    show shared.isLocked j = true ↔ _
    by_cases hji : j = i
    · subst hji
      simp [h.staffed.locked.mpr ⟨t, hlocked⟩]
    · simp [Ne.symm hji]
  · rw [hp] at hj
    exact Or.inl (hlocked.trans hj)
  · have hj : j ∈ cache'.recency := hj
    have hinvalid : (cache'.frame j).valid = false := hinvalid
    by_cases hji : j = i
    · exact Or.inl (hji ▸ hfills (hji ▸ hinvalid))
    · rw [htransfer.other j hji] at hinvalid
      refine Or.inr ⟨htransfer.recency ▸ hj, hinvalid, fun he => hji ?_⟩
      exact (Option.some.inj (hlocked.symm.trans (Phase.locks?_of_fills? he))).symm
  · have hout : entry ∈ cache'.evicting := hout
    rw [htransfer.evicting] at hout
    by_cases he : (ph t).leaves? = some entry
    · exact Or.inl (hleaves ▸ he)
    · exact Or.inr ⟨hout, he⟩
  · refine (h.staffed.fits u).mono (fun j _ hj => ?_) (fun j _ hj => ?_) fun entry _ hout => ?_
    · refine ⟨htransfer.recency ▸ hj, ?_⟩
      show (cache'.frame j).sector = _
      by_cases hji : j = i
      · rw [hji, hsector]
      · rw [htransfer.other j hji]
    · have hji : j ≠ i := by
        rintro rfl
        exact hu (h.staffed.alone hj hlocked)
      show (cache'.frame j).valid = _ ∧ (cache'.frame j).dirty = _
      rw [htransfer.other j hji]
      exact ⟨rfl, rfl⟩
    · exact htransfer.evicting ▸ hout

variable {reply : Reply (Shared δ n) (Phase n × Option Finding)} {access : Access} {old : SectorId}

/-- Data that a sector has left in a frame are brought to the device. -/
theorem spill (h : Serving size threads ph a shared) (ht : t < threads)
    (hph : ph t = .spill access i old) (hstep : (ph t).step shared = some reply) :
    Goes size threads ph t a reply := by
  have hfits := h.staffed.fits t
  rw [hph] at hfits hstep
  obtain ⟨hi, hinvalid, hdirty, hout⟩ := hfits
  have hlocks : (ph t).locks? = some i := by rw [hph]; rfl
  obtain ⟨cache', hspill, htransfer, hframe, hblock⟩ := spill_eq (i := i) h.orderly.device
    (h.orderly.count ▸ (h.orderly.out hout).1)
  have hhole : ¬ Replacing ph i := fun hin => by
    have := h.replaces_of_locks hlocks hin
    rw [hph] at this
    cases this
  have hreflects : cache'.Reflects size (Replacing ph) a :=
    h.reflects.written h.orderly htransfer (Or.inr hout) hhole hframe hblock
  have hnew : Phase.Fits size cache' (.settle access i old) :=
    ⟨⟨htransfer.recency ▸ hi.1, by rw [hframe]; exact hi.2⟩, by rw [hframe]; exact hinvalid,
      by rw [hframe], htransfer.evicting ▸ hout⟩
  refine ⟨.settle access i old, none, { shared with cache := cache' }, [] ++ [], ?_, ?_⟩
  · rw [← Option.some.inj hstep]
    exact Shared.onCache_then hspill
  · rw [hph]
    refine h.transfer (p := .settle access i old) ht hph rfl rfl rfl htransfer (by rw [hframe]) (by rw [hframe])
      (fun _ => rfl) rfl hnew ?_ ?_
    · exact h.orderly.transfer htransfer hi.1 (by rw [hframe]) (Or.inl (by rw [hframe]))
    · exact hreflects.mono fun j hj => hj.update (by rw [hph]; rfl)

/-- The frame that was given to a sector is filled. -/
theorem fetch (h : Serving size threads ph a shared) (ht : t < threads) (hph : ph t = .fetch access i)
    (hstep : (ph t).step shared = some reply) : Goes size threads ph t a reply := by
  have hfits := h.staffed.fits t
  rw [hph] at hfits hstep
  obtain ⟨hi, hinvalid⟩ := hfits
  have hlocks : (ph t).locks? = some i := by rw [hph]; rfl
  obtain ⟨cache', hfetch, htransfer, hblock, b, hframe, hb⟩ := fetch_eq (i := i) access.fill
    h.orderly.device (h.orderly.count ▸ h.orderly.inRange hi)
  have hnone : ∀ s, (s, i) ∉ shared.cache.evicting := fun s hout => by
    have := h.staffed.leaves_of_locks hlocks hout
    rw [hph] at this
    cases this
  have hreflects : cache'.Reflects size (Replacing (Function.update ph t (.use access i))) a := by
    refine h.reflects.filled h.orderly htransfer hi hinvalid hnone hframe hblock (fun hout => hb ?_)
      fun j hj => hj.update (by rw [hph]; rfl)
    cases hfill : access.fill with
    | readThrough => rfl
    | overwrite =>
      refine absurd ⟨t, ?_⟩ hout
      rw [Function.update_self]
      exact if_pos hfill
  refine ⟨.use access i, none, { shared with cache := cache' }, [.loaded access.sector i.val] ++ [], ?_, ?_⟩
  · rw [← Option.some.inj hstep]
    exact Shared.onCache_then hfetch
  · rw [hph]
    refine h.transfer (p := .use access i) ht hph rfl rfl rfl htransfer (by rw [hframe]) (by rw [hframe])
      (fun hnot => ?_) rfl ⟨⟨htransfer.recency ▸ hi.1, by rw [hframe]; exact hi.2⟩, by
        rw [hframe]⟩ ?_ hreflects
    · rw [hframe] at hnot
      cases hnot
    · exact h.orderly.transfer htransfer hi.1 (by rw [hframe]) (Or.inr hnone)

/-- A sector is taken off the table of those on their way out. -/
theorem settle (h : Serving size threads ph a shared) (ht : t < threads)
    (hph : ph t = .settle access i old) (hstep : (ph t).step shared = some reply) :
    Goes size threads ph t a reply := by
  have hfits := h.staffed.fits t
  rw [hph] at hfits hstep
  obtain ⟨hi, hinvalid, hdirty, hout⟩ := hfits
  have hlocks : (ph t).locks? = some i := by rw [hph]; rfl
  have hmem : ∀ entry, entry ∈ (shared.cache.settled old).evicting ↔
      entry ∈ shared.cache.evicting ∧ entry.1 ≠ old := fun entry =>
    mem_settled h.orderly.once.1
  refine ⟨.fetch access i, none, { shared with cache := shared.cache.settled old }, [] ++ [], ?_, ?_⟩
  · rw [← Option.some.inj hstep]
    exact Shared.onCache_then rfl
  · rw [hph]
    refine ⟨h.orderly.settled old, h.staffed.update ht (fun j => by rw [hph]; rfl) (fun j => ?_)
      (fun j hj => Or.inl (hlocks.trans hj)) (fun j hj hnot => ?_) (fun entry hentry => ?_) ⟨hi, hinvalid⟩
      (fun u hu => ?_), ?_⟩
    · rw [hlocks]
      show shared.isLocked j = true ↔ some i = some j ∨ _
      by_cases hji : j = i
      · subst hji
        simp [h.staffed.locked.mpr ⟨t, hlocks⟩]
      · simp [Ne.symm hji]
    · by_cases hji : j = i
      · exact Or.inl (congrArg some hji.symm)
      · refine Or.inr ⟨hj, hnot, ?_⟩
        rw [hph]
        exact fun he => hji (Option.some.inj he).symm
    · obtain ⟨hentry, hne⟩ := (hmem entry).mp hentry
      refine Or.inr ⟨hentry, ?_⟩
      rw [hph]
      rintro he
      exact hne (congrArg Prod.fst (Option.some.inj he)).symm
    · refine (h.staffed.fits u).mono (fun j _ hj => ⟨hj, rfl⟩) (fun j _ _ => ⟨rfl, rfl⟩) ?_
      intro entry hleaves hentry
      refine (hmem entry).mpr ⟨hentry, fun he => hu ?_⟩
      -- the sector is on its way out in one frame only, and that frame is locked by this thread
      obtain ⟨s, j⟩ := entry
      obtain rfl : s = old := he
      have hji : j = i := congrArg Prod.snd (List.inj_on_of_nodup_map h.orderly.once.1 hentry hout rfl)
      exact h.staffed.alone (Phase.locks?_of_leaves? hleaves).1 (hji ▸ hlocks)
    · exact (h.reflects.settled h.orderly hout hdirty).mono fun j hj => hj.update (by rw [hph]; rfl)

/-- A thread that has locked its frame lets go of it. -/
theorem leave (h : Serving size threads ph a shared) (ht : t < threads) {q : Phase n} (hph : ph t = q)
    (hlocks : q.locks? = some i) (hpins : q.pins? = some i) (hp : p.locks? = none) (hp' : p.pins? = none)
    (hfills : q.fills? = none) (hleaves : q.leaves? = none) (hfits : p.Fits size shared.cache)
    (hreflects : shared.cache.Reflects size (Replacing (Function.update ph t p)) a') :
    Serving size threads (Function.update ph t p) a' (shared.left i) := by
  refine h.unlock ht hph (alike_mapPins i (· - 1)) (fun j => ?_) (fun j => Shared.isLocked_setLock) hlocks hp
    hp' hfills hleaves hfits hreflects
  have hpinned := h.staffed.pinned (hph ▸ hpins)
  rw [hpins]
  show ((shared.cache.unpin i).frame j).pins + _ = _
  unfold unpin
  by_cases hji : j = i
  · subst hji
    rw [frame_mapFrame_self, if_pos rfl]
    exact Nat.sub_add_cancel hpinned
  · rw [frame_mapFrame_of_ne _ _ hji, if_neg fun he => hji (Option.some.inj he).symm]
    rfl

/-- The data of a locked frame are changed, and the frame is let go. -/
theorem amend (h : Serving size threads ph a shared) (ht : t < threads) (hph : ph t = .use access i)
    {change : Frame → Frame} {b : Block}
    (hsame : (change (shared.cache.frame i)).sector = (shared.cache.frame i).sector ∧
      (change (shared.cache.frame i)).valid = (shared.cache.frame i).valid ∧
      (change (shared.cache.frame i)).pins = (shared.cache.frame i).pins)
    (hdirty : (change (shared.cache.frame i)).dirty = true)
    (hdata : (change (shared.cache.frame i)).data = b) :
    Serving size threads (Function.update ph t .idle) (Function.update a access.sector b)
      (Shared.left i { shared with cache := shared.cache.mapFrame i change }) := by
  have hfits := h.staffed.fits t
  rw [hph] at hfits
  obtain ⟨hi, hvalid⟩ := hfits
  obtain ⟨hsector, hfilled, hpins⟩ := hsame
  have hlocks : (ph t).locks? = some i := by rw [hph]; rfl
  have htransfer : Transfer i shared.cache (shared.cache.mapFrame i change) :=
    Transfer.mapFrame ⟨rfl, rfl, rfl, fun _ _ => rfl, h.orderly.device, rfl⟩ change
  have hreflects : (shared.cache.mapFrame i change).Reflects size
      (Replacing (Function.update ph t .idle)) (Function.update a access.sector b) := by
    refine h.reflects.amend h.orderly (Or.inl ⟨hi, hvalid⟩) hsector hfilled hdata hdirty ?_
    rintro j hj ⟨u, hu⟩
    have hut : u ≠ t := by
      rintro rfl
      rw [hph] at hu
      exact hj (Option.some.inj (Phase.locks?_of_replaces? hu).1).symm
    exact ⟨u, by rwa [Function.update_of_ne hut]⟩
  have hchanged : Serving size threads ph (Function.update a access.sector b)
      { shared with cache := shared.cache.mapFrame i change } := by
    have hself : Function.update ph t (ph t) = ph := Function.update_eq_self t ph
    have hmoved := h.transfer ht rfl hlocks hlocks rfl htransfer (p := ph t) (by rw [frame_mapFrame_self, hsector])
      (by rw [frame_mapFrame_self, hpins]) (fun hnot => ?_) rfl ?_ ?_
      (hreflects.mono fun j hj => ?_)
    · rwa [hself] at hmoved
    · rw [frame_mapFrame_self, hfilled, hvalid] at hnot
      cases hnot
    · rw [hph]
      exact ⟨(carries_mapFrame hsector).mpr hi, by rw [frame_mapFrame_self, hfilled, hvalid]⟩
    · exact h.orderly.transfer htransfer hi.1 (by rw [frame_mapFrame_self, hsector])
        (Or.inl (by rw [frame_mapFrame_self, hfilled]))
    · obtain ⟨u, hu⟩ := hj
      have hut : u ≠ t := by
        rintro rfl
        rw [Function.update_self] at hu
        cases hu
      rw [Function.update_of_ne hut] at hu
      exact ⟨u, by rwa [hself]⟩
  exact hchanged.leave ht hph rfl rfl rfl rfl rfl rfl trivial hreflects

/-- **A use of a sector** takes place in one step: what it does to the frame is done to the array. -/
theorem use (h : Serving size threads ph a shared) (ht : t < threads) (hph : ph t = .use access i)
    (hstep : (ph t).step shared = some reply) : Goes size threads ph t a reply := by
  have hfits := h.staffed.fits t
  rw [hph] at hfits hstep
  obtain ⟨hi, hvalid⟩ := hfits
  have hlocks : (ph t).locks? = some i := by rw [hph]; rfl
  obtain ⟨finding, log, heq⟩ : ∃ finding log, reply = ⟨.ok (.idle, some finding),
      Shared.left i { shared with cache := access.work i shared.cache }, log⟩ := by
    rw [← Option.some.inj hstep]
    cases access <;> exact ⟨_, _, rfl⟩
  refine ⟨.idle, some finding, _, log, heq, ?_⟩
  rw [hph]
  cases access with
  | view s =>
    exact h.leave ht hph rfl rfl rfl rfl rfl rfl trivial (h.onward hph rfl)
  | store s b => exact h.amend ht hph ⟨rfl, rfl, rfl⟩ rfl rfl
  | update s change =>
    have hhole : ¬ Replacing ph i := fun hin => by
      have := h.replaces_of_locks hlocks hin
      rw [hph] at this
      cases this
    have hdata : change (shared.cache.frame i).data = change (a s) :=
      congrArg change (h.reflects.data (Or.inl ⟨hi, hvalid⟩) hhole)
    exact h.amend ht hph ⟨rfl, rfl, rfl⟩ rfl hdata

/-! ## Flush, reset and the count of dirty frames -/

/-- A dirty frame that the thread has locked is brought to the device. -/
theorem writeBack (h : Serving size threads ph a shared) (ht : t < threads) {sweep : Sweep}
    {frames : List (Fin n)} {found : Nat} (hph : ph t = .nextUse sweep i frames found)
    (hdirty : (shared.cache.frame i).dirty = true) :
    ∃ cache' log, Cache.writeBack i shared.cache = ⟨.ok (), cache', log⟩ ∧
      Serving size threads (Function.update ph t (ph t)) a { shared with cache := cache' } := by
  have hi : i ∈ shared.cache.recency := by
    have hfits := h.staffed.fits t
    rw [hph] at hfits
    exact hfits
  have hlocks : (ph t).locks? = some i := by rw [hph]; rfl
  have hvalid : (shared.cache.frame i).valid = true := by
    refine Bool.eq_true_of_not_eq_false fun hnot => ?_
    obtain ⟨u, hu⟩ := h.staffed.filling hi hnot
    rw [← h.staffed.alone hlocks (Phase.locks?_of_fills? hu), hph] at hu
    cases hu
  have hhole : ¬ Replacing ph i := fun hin => by
    have := h.replaces_of_locks hlocks hin
    rw [hph] at this
    cases this
  obtain ⟨s, hs, hrange⟩ := h.orderly.used i hi
  obtain ⟨cache', log, hrun, htransfer, hframe, hblock⟩ :=
    writeBack_eq h.orderly.device hdirty hs (h.orderly.count ▸ hrange)
  have hreflects : cache'.Reflects size (Replacing (Function.update ph t (ph t))) a := by
    rw [Function.update_eq_self]
    exact h.reflects.written h.orderly htransfer (Or.inl ⟨⟨hi, hs⟩, hvalid⟩) hhole hframe hblock
  refine ⟨cache', log, hrun, h.transfer ht rfl hlocks hlocks rfl htransfer (by rw [hframe]) (by rw [hframe])
    (fun hnot => ?_) rfl ?_ ?_ hreflects⟩
  · rw [hframe] at hnot
    rw [hvalid] at hnot
    cases hnot
  · rw [hph]
    show i ∈ cache'.recency
    exact htransfer.recency ▸ hi
  · exact h.orderly.transfer htransfer hi (by rw [hframe]) (Or.inl (by rw [hframe]))

/-- Frames that nobody has pinned are taken from their sectors. -/
theorem forget (h : Serving size threads ph a shared) (ht : t < threads) (hph : ph t = .forget)
    (hstep : (ph t).step shared = some reply) : Goes size threads ph t a reply := by
  rw [hph] at hstep
  obtain ⟨cache', log, hrun, hforgotten⟩ := forget_eq h.orderly.nodup
  have hpinned : ∀ {s i}, (s, i) ∈ shared.cache.evicting → 0 < (shared.cache.frame i).pins := by
    intro s i hout
    obtain ⟨u, hu⟩ := h.staffed.leaving hout
    exact h.staffed.pinned (Phase.locks?_of_leaves? hu).2
  have hkept : ∀ {j}, 0 < (shared.cache.frame j).pins → j ∈ shared.cache.recency →
      j ∈ cache'.recency ∧ cache'.frame j = shared.cache.frame j := by
    intro j hj hused
    have hkeeps : shared.cache.keeps j = true := by
      unfold keeps
      rw [bne_iff_ne.mpr (Nat.ne_of_gt hj), Bool.true_or]
    have hmem : j ∈ cache'.recency := hforgotten.recency.mpr ⟨hused, hkeeps⟩
    exact ⟨hmem, hforgotten.kept (Or.inl hmem)⟩
  have hreply : reply = ⟨.ok (.idle, some .done), { shared with cache := cache' }, log ++ []⟩ := by
    have hrun' := Shared.onCache_then (b := ((.idle, some .done) : Phase n × Option Finding)) hrun
    simp only [Phase.step, Phase.step.run] at hstep
    split at hstep
    · rw [← Option.some.inj hstep]
      exact hrun'
    · cases hstep
  refine ⟨.idle, some .done, { shared with cache := cache' }, _, hreply, ?_⟩
  rw [hph]
  refine ⟨hforgotten.orderly h.orderly hpinned, h.staffed.update ht (fun j => ?_) (fun j => ?_)
    (fun j hj => nomatch hj) (fun j hj hnot => Or.inr ?_) (fun entry hout => Or.inr ?_) trivial
    (fun u _ => ?_), ?_⟩
  · rw [hph]
    exact (hforgotten.frame h.orderly.covers j).1
  · rw [hph]
    exact locks_kept
  · have hj : j ∈ cache'.recency := hj
    have hnot : (cache'.frame j).valid = false := hnot
    rw [hforgotten.kept (Or.inl hj)] at hnot
    exact ⟨(hforgotten.recency.mp hj).1, hnot, by rw [hph]; exact nofun⟩
  · exact ⟨hforgotten.evicting ▸ hout, by rw [hph]; exact nofun⟩
  · refine (h.staffed.fits u).mono (fun j hu hj => ?_) (fun j hu _ => ?_) fun entry _ hout => ?_
    · obtain ⟨hmem, hframe⟩ := hkept (h.staffed.pinned hu) hj
      exact ⟨hmem, congrArg Frame.sector hframe⟩
    · obtain ⟨-, hframe⟩ := hkept (h.staffed.pinned hu) ((h.staffed.fits u).mem_recency hu)
      exact ⟨congrArg Frame.valid hframe, congrArg Frame.dirty hframe⟩
    · exact hforgotten.evicting ▸ hout
  · exact (hforgotten.reflects h.orderly h.reflects hpinned).mono fun j hj =>
      hj.update (by rw [hph]; rfl)

/-! ## A look for a sector -/

/-- The thread that has been given a frame for its sector, once it has locked it. -/
def onMiss (access : Access) (i : Fin n) : Option SectorId → Phase n
  | some old => .spill access i old
  | none => .fetch access i

/-- A frame that nobody has pinned is given to the sector and locked. -/
theorem give (h : Serving size threads ph a shared) (ht : t < threads) (hph : ph t = .seek access)
    {claimed : Cache δ n} (hclaimed : Claimed shared.cache i claimed)
    (hmiss : ∀ j, ¬ shared.cache.Carries j access.sector)
    (hfresh : ∀ j, (access.sector, j) ∉ shared.cache.evicting) (hfree : shared.isLocked i = false) :
    Serving size threads (Function.update ph t (onMiss access i (shared.cache.leaving i))) a
      (Shared.setLock i true { shared with cache := shared.cache.given claimed i access.sector }) := by
  have hs : access.sector.toNat < size := by
    have hfits := h.staffed.fits t
    rw [hph] at hfits
    exact hfits
  obtain ⟨hhole, hvalid, hnone⟩ := h.unpinned hclaimed.unpinned
  let cache' := shared.cache.given claimed i access.sector
  have horderly : cache'.Orderly size := h.orderly.given hclaimed hs hmiss hfresh hnone
  have hreplaced : Replaced shared.cache access.sector i cache' :=
    hclaimed.handOver_replaced h.orderly.device _
  have hframe : cache'.frame i = { shared.cache.frame i with
      sector := some access.sector, valid := false, pins := 1 } := hclaimed.handOver_frame _
  have hcarries : cache'.Carries i access.sector := ⟨hreplaced.first, hreplaced.sector⟩
  have hlocks : (onMiss access i (shared.cache.leaving i)).locks? = some i ∧
      (onMiss access i (shared.cache.leaving i)).pins? = some i ∧
      (onMiss access i (shared.cache.leaving i)).fills? = some i := by
    unfold onMiss
    cases shared.cache.leaving i <;> exact ⟨rfl, rfl, rfl⟩
  obtain ⟨hlocks, hpins, hfills⟩ := hlocks
  refine ⟨horderly, h.staffed.update ht (fun j => ?_) (fun j => ?_) (fun j hj => ?_)
    (fun j hj hinvalid => ?_) (fun entry hout => ?_) ?_ (fun u _ => ?_), ?_⟩
  · rw [hph, hpins]
    show (cache'.frame j).pins + 0 = _
    by_cases hji : j = i
    · rw [hji, hframe, if_pos rfl, hclaimed.unpinned]
    · rw [hreplaced.other j hji, if_neg fun he => hji (Option.some.inj he).symm]
  · exact Shared.isLocked_setLock_iff hlocks (by rw [hph]; rfl)
  · rw [hlocks] at hj
    exact Or.inr (Option.some.inj hj ▸ hfree)
  · have hj : j ∈ cache'.recency := hj
    have hinvalid : (cache'.frame j).valid = false := hinvalid
    by_cases hji : j = i
    · exact Or.inl (hji ▸ hfills)
    · rw [hreplaced.other j hji] at hinvalid
      rcases List.mem_cons.mp (hreplaced.recency hj) with he | hold
      · exact absurd he hji
      · exact Or.inr ⟨hold, hinvalid, by rw [hph]; exact nofun⟩
  · rcases mem_given.mp hout with ⟨hleaving, he⟩ | hold
    · refine Or.inl ?_
      obtain ⟨old, j⟩ := entry
      obtain rfl : j = i := he
      rw [hleaving]
      rfl
    · exact Or.inr ⟨hold, by rw [hph]; exact nofun⟩
  · show (onMiss access i (shared.cache.leaving i)).Fits size cache'
    cases hleaving : shared.cache.leaving i with
    | none => exact ⟨hcarries, by rw [hframe]⟩
    | some old =>
      obtain ⟨-, hdirty⟩ := h.orderly.carries_of_leaving hleaving
      exact ⟨hcarries, by rw [hframe], by rw [hframe]; exact hdirty,
        mem_given.mpr (Or.inl ⟨hleaving, rfl⟩)⟩
  · -- the frames that others have pinned are other ones
    have hother : ∀ j, (ph u).pins? = some j → j ≠ i := by
      rintro j hj rfl
      have := h.staffed.pinned hj
      rw [hclaimed.unpinned] at this
      exact Nat.lt_irrefl 0 this
    refine (h.staffed.fits u).mono (fun j hj hmem => ⟨?_, ?_⟩) (fun j hj _ => ?_) fun entry _ hout => ?_
    · rcases List.mem_append.mp (hreplaced.lists.mem_iff.mpr (List.mem_append_left _ hmem)) with hm | hm
      · exact hm
      · exact absurd (hreplaced.free hm) (h.orderly.not_mem_free hmem)
    · exact congrArg Frame.sector (hreplaced.other j (hother j hj))
    · exact ⟨congrArg Frame.valid (hreplaced.other j (hother j hj)),
        congrArg Frame.dirty (hreplaced.other j (hother j hj))⟩
    · exact mem_given.mpr (Or.inr hout)
  · exact (h.reflects.given h.orderly hclaimed hnone hhole hvalid).mono fun j hj =>
      hj.update (by rw [hph]; rfl)

/-- **A look** finds the sector's frame, or that the sector is on its way out, or is given a frame. There is
    always one to be had: no other thread keeps more than one. -/
theorem seek (h : Serving size threads ph a shared) (ht : t < threads) (hn : threads ≤ n)
    (hph : ph t = .seek access) (hstep : (ph t).step shared = some reply) :
    Goes size threads ph t a reply := by
  have hs : access.sector.toNat < size := by
    have hfits := h.staffed.fits t
    rw [hph] at hfits
    exact hfits
  rw [hph] at hstep
  cases hit : shared.cache.frameOf? access.sector with
  | some i =>
    have hi : shared.cache.Carries i access.sector := carries_of_frameOf? hit
    let touched : Cache δ n :=
      { shared.cache with
        recency := i :: shared.cache.recency.erase i
        accesses := shared.cache.accesses + 1
        hits := shared.cache.hits + 1 }
    have hseek : Cache.seek access.sector shared.cache = ⟨.ok (.hit i), touched.pin i, []⟩ := by
      unfold Cache.seek
      simp only [hit]
      rfl
    have halike : Alike shared.cache (touched.pin i) := by
      refine ⟨(List.perm_cons_erase hi.1).symm, rfl, rfl, rfl, fun j => ?_⟩
      exact (show Alike touched (touched.pin i) from alike_mapPins i (· + 1)).frame j
    have hreply : reply = ⟨.ok (.enter access i, none), { shared with cache := touched.pin i }, []⟩ := by
      simp only [Phase.step, hseek] at hstep
      exact (Option.some.inj hstep).symm
    refine ⟨_, _, _, _, hreply, ?_⟩
    rw [hph]
    exact h.move ht hph halike
      (fun j => show ((touched.pin i).frame j).pins + 0 = (touched.frame j).pins + _ from pins_pin)
      (fun j => locks_kept) (fun j hj => nomatch hj) rfl rfl hi (h.onward hph rfl)
  | none =>
    cases hout : shared.cache.evicting.lookup access.sector with
    | some i =>
      have hseek : Cache.seek access.sector shared.cache = ⟨.ok (.busy i), shared.cache, []⟩ := by
        unfold Cache.seek
        simp only [hit, hout]
      have hreply : reply = ⟨.ok (.wait access i, none), shared, []⟩ := by
        simp only [Phase.step, hseek] at hstep
        exact (Option.some.inj hstep).symm
      refine ⟨_, _, _, _, hreply, ?_⟩
      rw [hph]
      exact h.idle ht hph rfl rfl rfl rfl rfl rfl hs
    | none =>
      have hunused : ∀ i ∈ shared.cache.free, (shared.cache.frame i).pins = 0 := by
        intro i hi
        by_contra hpins
        obtain ⟨u, -, hu⟩ := h.staffed.exists_of_pinned hpins
        exact h.orderly.not_mem_free ((h.staffed.fits u).mem_recency hu) hi
      obtain ⟨i, claimed, log, hclaimed, -, hseek⟩ := seek_claimed hit hout h.orderly.covers hunused
        (h.staffed.room hn ht (by rw [hph]; rfl))
      have hfresh : ∀ j, (access.sector, j) ∉ shared.cache.evicting := fun j hj => by
        have := List.lookup_eq_none_iff.mp hout _ hj
        simp at this
      simp only [Phase.step, hseek] at hstep
      split at hstep
      · cases hstep
      · next hfree =>
        have hfree : shared.isLocked i = false := Bool.eq_false_iff.mpr hfree
        refine ⟨_, _, _, _, (Option.some.inj hstep).symm, ?_⟩
        rw [hph]
        exact h.give ht hph hclaimed (not_carries_of_frameOf? hit) hfresh hfree

/-! ## Any step -/

/-- The next frame of a list is pinned, unless it is not in use any more. -/
theorem next (h : Serving size threads ph a shared) (ht : t < threads) {sweep : Sweep}
    {frames : List (Fin n)} {found : Nat} (hph : ph t = .next sweep frames found)
    (hstep : (ph t).step shared = some reply) : Goes size threads ph t a reply := by
  rw [hph] at hstep
  have hidle : ∀ {q : Phase n}, q.pins? = none → q.locks? = none → q.Fits size shared.cache →
      Serving size threads (Function.update ph t q) a shared := fun hpins hlocks hfits =>
    h.idle ht hph hpins hlocks rfl rfl rfl rfl hfits
  cases frames with
  | nil =>
    obtain ⟨q, finding, hq, hreply⟩ : ∃ q finding, (q = .idle ∨ q = .forget) ∧
        reply = ⟨.ok (q, finding), shared, []⟩ := by
      rw [← Option.some.inj hstep]
      cases sweep with
      | flush => exact ⟨_, _, Or.inl rfl, rfl⟩
      | reset => exact ⟨_, _, Or.inr rfl, rfl⟩
      | countDirty => exact ⟨_, _, Or.inl rfl, rfl⟩
    refine ⟨_, _, _, _, hreply, ?_⟩
    rw [hph]
    rcases hq with rfl | rfl
    · exact hidle rfl rfl trivial
    · exact hidle rfl rfl trivial
  | cons i frames =>
    by_cases hi : shared.cache.recency.contains i = true
    · have hreply : reply = ⟨.ok (.nextEnter sweep i frames found, none),
          { shared with cache := shared.cache.pin i }, []⟩ := by
        rw [← Option.some.inj hstep]
        simp only [Action.bind_def, Action.get, hi, if_true]
        rfl
      refine ⟨_, _, _, _, hreply, ?_⟩
      rw [hph]
      exact h.move ht hph (alike_mapPins i (· + 1)) (fun j => pins_pin) (fun j => locks_kept)
        (fun j hj => nomatch hj) rfl rfl (List.contains_iff_mem.mp hi) (h.onward hph rfl)
    · have hreply : reply = ⟨.ok (.next sweep frames found, none), shared, []⟩ := by
        rw [← Option.some.inj hstep]
        simp only [Action.bind_def, Action.get, hi]
        rfl
      refine ⟨_, _, _, _, hreply, ?_⟩
      rw [hph]
      exact hidle rfl rfl trivial

/-- A frame of the list is counted, or brought to the device and let go. -/
theorem nextUse (h : Serving size threads ph a shared) (ht : t < threads) {sweep : Sweep}
    {frames : List (Fin n)} {found : Nat} (hph : ph t = .nextUse sweep i frames found)
    (hstep : (ph t).step shared = some reply) : Goes size threads ph t a reply := by
  have hlocks : (ph t).locks? = some i := by rw [hph]; rfl
  have hleft : ∀ count, Serving size threads (Function.update ph t (.next sweep frames count)) a
      (shared.left i) := fun count =>
    h.leave ht hph rfl rfl rfl rfl rfl rfl trivial (h.onward hph rfl)
  by_cases hwrite : sweep ≠ .countDirty ∧ (shared.cache.frame i).dirty = true
  · obtain ⟨hsweep, hdirty⟩ := hwrite
    obtain ⟨cache', log, hrun, hkept⟩ := h.writeBack ht hph hdirty
    have hrun' := Shared.onCache_then
      (b := ((.nextUse sweep i frames found, none) : Phase n × Option Finding)) hrun
    have hreply : reply = ⟨.ok (.nextUse sweep i frames found, none), { shared with cache := cache' },
        [] ++ (log ++ [])⟩ := by
      rw [hph] at hstep
      rw [← Option.some.inj hstep, Action.bind_def]
      simp only [Action.get, hdirty]
      cases sweep with
      | countDirty => exact absurd rfl hsweep
      | flush => simp only [hrun']
      | reset => simp only [hrun']
    refine ⟨_, _, _, _, hreply, ?_⟩
    rw [hph] at hkept ⊢
    exact hkept
  · obtain ⟨count, log, hreply⟩ : ∃ count log,
        reply = ⟨.ok (.next sweep frames count, none), shared.left i, log⟩ := by
      rw [hph] at hstep
      rw [← Option.some.inj hstep, Action.bind_def]
      cases hdirty : (shared.cache.frame i).dirty with
      | true =>
        have hsweep : sweep = .countDirty := by
          by_contra hne
          exact hwrite ⟨hne, hdirty⟩
        simp only [Action.get, hdirty, hsweep]
        exact ⟨_, _, rfl⟩
      | false =>
        simp only [Action.get, hdirty]
        cases sweep <;> exact ⟨_, _, rfl⟩
    refine ⟨_, _, _, _, hreply, ?_⟩
    rw [hph]
    exact hleft count

/-- **Every step** of a thread keeps the invariant and is no fault. -/
theorem step (h : Serving size threads ph a shared) (ht : t < threads) (hn : threads ≤ n)
    (hstep : (ph t).step shared = some reply) : Goes size threads ph t a reply := by
  have hfits := h.staffed.fits t
  cases hph : ph t with
  | idle =>
    rw [hph] at hstep
    cases hstep
  | seek access => exact h.seek ht hn hph hstep
  | enter access i =>
    rw [hph] at hstep hfits
    exact h.lock ht hph hstep rfl rfl rfl rfl rfl rfl rfl fun hfree =>
      ⟨hfits, h.staffed.valid_of_unlocked hfits.1 hfree⟩
  | wait access i =>
    rw [hph] at hstep hfits
    exact h.lock ht hph hstep rfl rfl rfl rfl rfl rfl rfl fun _ => hfits
  | waited access i =>
    rw [hph] at hstep hfits
    refine ⟨.seek access, none, shared.setLock i false, [] ++ [], (Option.some.inj hstep).symm, ?_⟩
    rw [hph]
    exact h.unlock ht hph ⟨List.Perm.refl _, rfl, rfl, rfl, fun j => ⟨_, rfl⟩⟩ (fun j => rfl)
      (fun j => Shared.isLocked_setLock) rfl rfl rfl rfl rfl hfits (h.onward hph rfl)
  | spill access i old => exact h.spill ht hph hstep
  | settle access i old => exact h.settle ht hph hstep
  | fetch access i => exact h.fetch ht hph hstep
  | use access i => exact h.use ht hph hstep
  | list sweep =>
    rw [hph] at hstep
    refine ⟨.next sweep shared.cache.recency.reverse 0, none, shared, [] ++ [],
      (Option.some.inj hstep).symm, ?_⟩
    rw [hph]
    exact h.idle ht hph rfl rfl rfl rfl rfl rfl trivial
  | next sweep frames found => exact h.next ht hph hstep
  | nextEnter sweep i frames found =>
    rw [hph] at hstep hfits
    exact h.lock ht hph hstep rfl rfl rfl rfl rfl rfl rfl fun _ => hfits
  | nextUse sweep i frames found => exact h.nextUse ht hph hstep
  | forget => exact h.forget ht hph hstep

end Serving

end Serving

end InodeStore.Cache
