import InodeStore.Proofs.Cache.Recency
import InodeStore.Proofs.Cache.Settling

/-!
# `Proofs.Cache.Handling` — what a use of a sector leaves behind

A use of a sector asks for it, looks at its content or changes it, and lets it go again (`Handled`). Where no
frame is held the sector is then the first one in the cache, and the one used longest ago has made room for it
if it had to (`Handled.sectors`). In front of a device that keeps a journal, `charges` counts how often a sector
is in the journal, and once more if it is dirty; a use adds to it only where it makes a clean sector dirty
(`Handled.charges`), and a flush adds nothing (`Cleaned.charges`).
-/

namespace InodeStore

/-! ## Any journaled device -/

section Journaled

variable {δ : Type} [BlockDevice δ] {d d' : Journaled δ} {s : SectorId} {b : Block} {fill : Cache.Fill}
  {entries : List (SectorId × Block)}

theorem Journaled.written_of_write (h : BlockDevice.write s b d = (.ok (), d')) :
    d'.written = (s, b) :: d.written := by
  rcases hdevice : BlockDevice.write s b d.device with ⟨_ | ⟨⟩, device⟩
  · simp only [BlockDevice.write, hdevice] at h
    cases h
  · simp only [BlockDevice.write, hdevice] at h
    cases h
    rfl

theorem Cache.Puts.written (h : Cache.Puts entries d d') : d'.written = entries.reverse ++ d.written := by
  induction entries generalizing d with
  | nil =>
    obtain rfl : d' = d := h
    rfl
  | cons entry rest ih =>
    obtain ⟨mid, hwrite, hrest⟩ := h
    rw [ih hrest, Journaled.written_of_write hwrite]
    simp

theorem Cache.Gets.written (h : Cache.Gets fill s b d d') : d'.written = d.written := by
  cases fill with
  | overwrite =>
    obtain rfl : d' = d := h
    rfl
  | readThrough => exact congrArg (fun answer : Except Fault Block × Journaled δ => answer.2.written) h.symm

end Journaled

namespace Cache

/-! ## A use of a sector -/

section Handled

variable {δ : Type} {n : Nat} {cache cache' taken : Cache δ n} {s t : SectorId} {i : Fin n} {soils : Bool}
  {fill : Fill} {log : List Event}

/-- Two changes of one frame. -/
theorem mapFrame_mapFrame (i : Fin n) (first second : Frame → Frame) (cache : Cache δ n) :
    (cache.mapFrame i first).mapFrame i second = cache.mapFrame i fun frame => second (first frame) := by
  have hget : (cache.frames.set i.val (first (cache.frames.get i)) i.isLt).get i = first (cache.frames.get i) :=
    Vector.getElem_set_self i.isLt
  unfold mapFrame
  dsimp only
  rw [hget, Vector.set_set]

variable [BlockDevice δ]

/-- A sector was asked for, its content was looked at or changed, and it was let go again. -/
inductive Handled (s : SectorId) (soils : Bool) (cache : Cache δ n) : Cache δ n → Prop
  | intro {fill : Fill} {i : Fin n} {taken : Cache δ n} {log : List Event} {change : Frame → Frame}
      (hrun : acquire fill s cache = ⟨.ok i, taken, log⟩) (hfill : soils = false → fill = .readThrough)
      (hsector : ∀ frame, (change frame).sector = frame.sector)
      (hpins : ∀ frame, (change frame).pins = frame.pins - 1)
      (hdirty : ∀ frame, (change frame).dirty = (frame.dirty || soils)) :
      Handled s soils cache (taken.mapFrame i change)

theorem view_handled {b : Block} (h : view s cache = ⟨.ok b, cache', log⟩) : Handled s false cache cache' := by
  obtain ⟨i, taken, used, log₁, log₂, hrun, hbody, rfl⟩ := withFrame_ok h
  obtain rfl : taken = used := congrArg Reply.state hbody
  exact .intro hrun (fun _ => rfl) (fun _ => rfl) (fun _ => rfl) fun frame => (Bool.or_false _).symm

/-- A change of the content, once there is a frame for it. -/
theorem amend_handled {change : Block → Block}
    (h : withFrame fill s (fun i => amendFrame i change) cache = ⟨.ok (), cache', log⟩) :
    Handled s true cache cache' := by
  obtain ⟨i, taken, used, log₁, log₂, hrun, hbody, rfl⟩ := withFrame_ok h
  obtain rfl : taken.mapFrame i (fun frame => { frame with data := change frame.data, dirty := true }) = used :=
    congrArg Reply.state hbody
  rw [unpin, mapFrame_mapFrame]
  exact .intro hrun (fun hfalse => absurd hfalse (by decide)) (fun _ => rfl) (fun _ => rfl)
    fun frame => (Bool.or_true _).symm

theorem store_handled {b : Block} (h : store s b cache = ⟨.ok (), cache', log⟩) : Handled s true cache cache' :=
  amend_handled h

theorem update_handled {change : Block → Block} (h : update s change cache = ⟨.ok (), cache', log⟩) :
    Handled s true cache cache' := amend_handled h

namespace Handled

theorem fitted (h : Handled s soils cache cache') (hc : cache.Fitted) : cache'.Fitted := by
  obtain ⟨hrun, -, hsector, -, -⟩ := h
  have ht := acquire_took hc hrun
  exact ht.fitted.mapFrame ht.carries.1 (hsector _)

theorem unpinned (h : Handled s soils cache cache') (hc : cache.Fitted) (hp : cache.Unpinned) :
    cache'.Unpinned := by
  obtain @⟨_, i, taken, _, _, hrun, -, -, hpins, -⟩ := h
  have ht := acquire_took hc hrun
  intro j
  rw [frame_mapFrame]
  split
  · rw [hpins, ht.pins, hp i]
  · next hj => rw [ht.other j hj, hp j]

/-- **The sector is the first one** in the cache. Where there was no room for it, the one used longest ago is
    gone. -/
theorem sectors (h : Handled s soils cache cache') (hc : cache.Fitted) (hp : cache.Unpinned) :
    cache'.sectors = s :: (cache.sectors.filter (· != s)).take (n - 1) := by
  obtain ⟨hrun, -, hsector, -, -⟩ := h
  rw [sectors_mapFrame (hsector _)]
  exact acquire_sectors hc hp hrun

/-- A sector that stays in the cache is as dirty as it was. -/
theorem isDirty_of_mem (h : Handled s soils cache cache') (hc : cache.Fitted) (ht : t ∈ cache'.sectors) :
    cache'.isDirty t = (cache.isDirty t || decide (t = s ∧ soils = true)) := by
  obtain @⟨fill, i, taken, log, change, hrun, -, hsector, -, hdirty⟩ := h
  have htook := acquire_took hc hrun
  rw [sectors_mapFrame (hsector _)] at ht
  have hsame : taken.isDirty t = cache.isDirty t := by
    rcases acquire_ok hc.evicting hrun with ⟨hit, rfl⟩ | ⟨hmiss, hloaded⟩
    · rw [Bool.eq_iff_iff, settling_found hc (carries_of_frameOf? hit) t, hc.isDirty_iff]
      simp
    · obtain ⟨j, hj⟩ := mem_sectors.mp ht
      rcases hloaded.carries_cases hj with ⟨rfl, rfl⟩ | ⟨hji, hjt⟩
      · obtain ⟨b, mid, -, -, hframe⟩ := hloaded.filled
        rw [htook.fitted.isDirty_eq hj, hframe, isDirty, hmiss]
      · rw [htook.fitted.isDirty_eq hj, hc.isDirty_eq hjt, hloaded.other j hji]
  rw [isDirty_mapFrame htook.fitted htook.carries (hsector _), hdirty, ← hsame]
  split
  · next hts =>
    subst hts
    rw [htook.fitted.isDirty_eq htook.carries]
    simp
  · next hts => simp [hts]

end Handled

/-! ## The journal -/

/-- What an access settles, for whatever frames. -/
theorem acquire_settles (hc : cache.Fitted) (hrun : acquire fill s cache = ⟨.ok i, taken, log⟩) :
    ∃ frames mid, frames.Nodup ∧ Settling frames cache taken ∧ taken.isDirty s = cache.isDirty s ∧
      Puts (frames.flatMap cache.due) cache.device mid ∧
      (taken.device = mid ∨ ∃ b, Gets fill s b mid taken.device) ∧
      taken.deviceWrites = cache.deviceWrites + (frames.flatMap cache.due).length := by
  rcases acquire_ok hc.evicting hrun with ⟨hit, rfl⟩ | ⟨hmiss, hloaded⟩
  · have hi : cache.Carries i s := carries_of_frameOf? hit
    have hsettling := settling_found hc hi
    refine ⟨[], cache.device, List.nodup_nil, hsettling, ?_, rfl, Or.inl rfl, rfl⟩
    rw [Bool.eq_iff_iff, hsettling s, hc.isDirty_iff]
    simp
  · obtain ⟨b, mid, hputs, hgets, hframe⟩ := hloaded.filled
    have hclean : taken.isDirty s = false := by
      rw [(hloaded.fitted hc hmiss).isDirty_eq hloaded.carries, hframe]
    have hbefore : cache.isDirty s = false := by
      rw [isDirty, hmiss]
    refine ⟨[i], mid, List.nodup_singleton i, hloaded.settling hc hmiss, hclean.trans hbefore.symm, ?_,
      Or.inr ⟨b, hgets⟩, ?_⟩
    · rwa [List.flatMap_singleton]
    · rw [List.flatMap_singleton]
      exact hloaded.deviceWrites

end Handled

section Charges

variable {δ : Type} [BlockDevice δ] {n : Nat} {cache cache' taken : Cache (Journaled δ) n} {s t : SectorId}
  {soils : Bool}

/-- How often a sector is in the journal, and once more if it is dirty. -/
def charges (cache : Cache (Journaled δ) n) (t : SectorId) : Nat :=
  cache.device.written.countP (fun e => e.1 = t) + (cache.isDirty t).toNat

omit [BlockDevice δ] in
/-- Frames that settle put into the journal what they take from the dirty ones. -/
theorem charges_settled {frames : List (Fin n)} (hsettling : Settling frames cache cache') (hc : cache.Fitted)
    (hnodup : frames.Nodup)
    (hwritten : cache'.device.written = (frames.flatMap cache.due).reverse ++ cache.device.written) :
    cache'.charges t = cache.charges t := by
  have hbalance := hsettling.balance hc hnodup t
  unfold charges
  rw [hwritten, List.countP_append, List.countP_reverse]
  omega

/-- **A use of a sector** adds to its charges if it makes it dirty, and to nothing else. -/
theorem Handled.charges (h : Handled s soils cache cache') (hc : cache.Fitted) (t : SectorId) :
    cache'.charges t = cache.charges t + (if t = s ∧ soils = true ∧ cache.isDirty s = false then 1 else 0) ∧
      cache'.deviceWrites + cache.device.written.length =
        cache.deviceWrites + cache'.device.written.length := by
  obtain @⟨fill, i, taken, log, change, hrun, -, hsector, -, hdirty⟩ := h
  have ht := acquire_took hc hrun
  obtain ⟨frames, mid, hnodup, hsettling, hsame, hputs, hgets, hwrites⟩ := acquire_settles hc hrun
  have hwritten : taken.device.written = (frames.flatMap cache.due).reverse ++ cache.device.written := by
    rcases hgets with hdevice | ⟨b, hgets⟩
    · rw [hdevice]
      exact hputs.written
    · rw [hgets.written]
      exact hputs.written
  have hbefore := charges_settled (t := t) hsettling hc hnodup hwritten
  have hafter : (taken.mapFrame i change).isDirty t =
      if t = s then cache.isDirty s || soils else taken.isDirty t := by
    rw [isDirty_mapFrame ht.fitted ht.carries (hsector _), hdirty, ← ht.fitted.isDirty_eq ht.carries, hsame]
  constructor
  · rw [← hbefore]
    unfold Cache.charges
    rw [hafter]
    show taken.device.written.countP _ + _ = _
    by_cases hts : t = s
    · subst hts
      rw [if_pos rfl, hsame]
      cases cache.isDirty t <;> cases soils <;> simp
    · simp [hts]
  · show taken.deviceWrites + _ = _ + taken.device.written.length
    rw [hwrites, hwritten, List.length_append, List.length_reverse]
    omega

/-- **A flush** puts what is dirty into the journal. -/
theorem Cleaned.charges (h : Cleaned cache.recency.reverse cache cache') (hc : cache.Fitted) (t : SectorId) :
    cache'.charges t = cache.charges t ∧ cache'.isDirty t = false ∧
      cache'.deviceWrites + cache.device.written.length =
        cache.deviceWrites + cache'.device.written.length := by
  have hwritten := h.device.written
  have hwrites : cache'.deviceWrites = _ := congrArg CacheStats.deviceWrites h.stats
  refine ⟨charges_settled (h.settling hc) hc (List.nodup_reverse.mpr hc.recency_nodup) hwritten, ?_, ?_⟩
  · exact (h.fitted hc).isDirty_of_clean (fun j => by rw [h.clean hc]) t
  · rw [hwrites, hwritten, List.length_append, List.length_reverse]
    show cache.deviceWrites + _ + _ = _
    omega

end Charges

end Cache

end InodeStore
