import InodeStore.Proofs.Cache.Counting
import InodeStore.Proofs.Cache.Pinning
import InodeStore.Proofs.Cache.Settling

/-!
# `Proofs.Cache.Economy` — a changed sector is written once

A sector that is changed while there is nothing new in it becomes dirty, and a dirty sector is written once
before it is clean again. So the journal of the disk tells of each sector as often as it became dirty, but for
the time it is dirty now, and what is written is what the sector holds then (`write_back_exact`). The counters
of the cache say what was asked for and what the disk did since the last reset.

## Contents
- `Charged`: what one step writes (`Step.charged`). `Advanced`: what it does to the counters.
- `Tallied`: what the counters say of what was asked for.
- `Audited`, kept by every step (`Step.audited`), so true of every stage (`Reaches.audited`).
-/

namespace InodeStore.Cache

/-! ## Steps -/

/-- A sector with nothing new in it is asked for, and there will be something new in it. -/
def Ask.Soils (s : SectorId) (ask : Ask) : Prop :=
  ask.sector = s ∧ ask.purpose.soils = true ∧ ask.dirty = false

instance (s : SectorId) : DecidablePred (Ask.Soils s) := fun _ => inferInstanceAs (Decidable (_ ∧ _ ∧ _))

/-- A frame has to be filled from the device. -/
def Ask.Reads (ask : Ask) : Prop := ask.cached = false ∧ ask.purpose.fill = .readThrough

instance : DecidablePred Ask.Reads := fun _ => inferInstanceAs (Decidable (_ ∧ _))

namespace Stage

variable {n : Nat} {p q : Stage (Journaled RamDisk) n}

/-- The disk, without the journal. -/
def disk (p : Stage (Journaled RamDisk) n) : RamDisk := p.cache.device.device

/-- How often a sector became dirty. -/
def soilings (p : Stage (Journaled RamDisk) n) (s : SectorId) : Nat := p.asked.countP fun ask => ask.Soils s

/-- What one step writes. -/
structure Charged (written : List (SectorId × Block)) (p q : Stage (Journaled RamDisk) n) : Prop where
  journal : q.cache.device.written = written.reverse ++ p.cache.device.written
  total : q.disk.writes = p.disk.writes + written.length
  /-- Only what is dirty is written, and with the content it has. -/
  content : ∀ e ∈ written, p.cache.isDirty e.1 = true ∧ e.2 = p.array e.1
  balance : ∀ s, written.countP (fun e => e.1 = s) + (q.cache.isDirty s).toNat + p.soilings s =
    (p.cache.isDirty s).toNat + q.soilings s

/-- What the counters have gone through from one stage to the other, with no reset between them. -/
structure Advanced (p q : Stage (Journaled RamDisk) n) : Prop where
  stats : p.cache.stats ≤ q.cache.stats
  reads : q.cache.deviceReads + p.disk.reads = p.cache.deviceReads + q.disk.reads
  writes : q.cache.deviceWrites + p.disk.writes = p.cache.deviceWrites + q.disk.writes

theorem Advanced.refl (p : Stage (Journaled RamDisk) n) : p.Advanced p := ⟨CacheStats.le_refl _, rfl, rfl⟩

theorem Advanced.trans {r : Stage (Journaled RamDisk) n} (h : p.Advanced q) (h' : q.Advanced r) :
    p.Advanced r where
  stats := CacheStats.le_trans h.stats h'.stats
  reads := by
    have := h.reads
    have := h'.reads
    omega
  writes := by
    have := h.writes
    have := h'.writes
    omega

end Stage

section Steps

variable {n : Nat} {p q : Stage (Journaled RamDisk) n} {s t : SectorId} {i : Fin n}

/-- The frames hold the content that the sectors have for the party, and so does the disk where nothing newer
    is in the cache. -/
abbrev Stage.Faithful (p : Stage (Journaled RamDisk) n) : Prop := Cache.Faithful none p.array p.cache

/-- A step that writes nothing, asks for nothing and leaves dirty what is. -/
theorem Stage.Charged.quiet (hdevice : q.cache.device = p.cache.device) (hasked : q.asked = p.asked)
    (hdirty : ∀ s, q.cache.isDirty s = p.cache.isDirty s) : Stage.Charged [] p q where
  journal := by
    rw [hdevice]
    rfl
  total := congrArg (fun d => d.device.writes) hdevice
  content e he := by cases he
  balance s := by
    rw [hdirty, Stage.soilings, Stage.soilings, hasked, List.countP_nil, Nat.zero_add]

/-- The use of a frame that was just asked for. -/
theorem Faithful.begin {taken : Cache (Journaled RamDisk) n} {a : SectorArray} {purpose : Purpose}
    (hc : taken.Fitted) (hi : taken.Carries i s)
    (h : Faithful (if purpose.fill = .overwrite then some s else none) a taken) :
    Faithful none (purpose.effect s a) (purpose.begin i taken) := by
  rw [purpose.begin_eq]
  have hhole : (if purpose.fill = .overwrite then some s else none) = none ∨
      (if purpose.fill = .overwrite then some s else none) = some s := by
    split
    · exact Or.inr rfl
    · exact Or.inl rfl
  have hdata : purpose.fill = .readThrough → (taken.frame i).data = a s := by
    intro hfill
    rw [hfill] at h
    exact h.data_eq hi
  -- a sector that is looked at or amended has its content already, and one that is replaced is dirty after it
  have hmapped := h.mapFrame hc hi hhole purpose.touch (purpose.touch_sector _) fun hclean => ?_
  · cases purpose with
    | look =>
      have heffect : Function.update a s (Purpose.look.touch (taken.frame i)).data = a := by
        rw [show (Purpose.look.touch (taken.frame i)).data = a s from hdata rfl, Function.update_eq_self]
      exact heffect ▸ hmapped
    | amend =>
      have heffect : Function.update a s (Purpose.amend.touch (taken.frame i)).data = a := by
        rw [show (Purpose.amend.touch (taken.frame i)).data = a s from hdata rfl, Function.update_eq_self]
      exact heffect ▸ hmapped
    | replace b => exact hmapped
  · rw [purpose.touch_dirty, Bool.or_eq_false_iff] at hclean
    refine ⟨hclean.2, ?_⟩
    cases purpose with
    | look => exact hdata rfl
    | amend => cases hclean.1
    | replace b => cases hclean.1

/-- A sector that is asked for is as dirty as it was, unless it is asked for to be changed. -/
theorem isDirty_begin {taken : Cache (Journaled RamDisk) n} {purpose : Purpose} (hc : taken.Fitted)
    (hi : taken.Carries i s) :
    (purpose.begin i taken).isDirty t = (taken.isDirty t || (purpose.soils && decide (t = s))) := by
  rw [purpose.begin_eq, isDirty_mapFrame hc hi (purpose.touch_sector _), purpose.touch_dirty]
  split
  · next hts =>
    rw [hts, hc.isDirty_eq hi, decide_eq_true rfl, Bool.and_true, Bool.or_comm]
  · next hts =>
    rw [decide_eq_false hts, Bool.and_false, Bool.or_false]

/-- **Asking for a sector.** -/
theorem Stage.enter_charged {taken : Cache (Journaled RamDisk) n} {purpose : Purpose} {log : List Event}
    (h : p.Steady) (hf : p.Faithful) (hrun : acquire purpose.fill s p.cache = ⟨.ok i, taken, log⟩) :
    (p.enter purpose s i taken).Faithful ∧ (∃ written, Stage.Charged written p (p.enter purpose s i taken)) ∧
      p.Advanced (p.enter purpose s i taken) := by
  have htook := acquire_took h.fitted hrun
  obtain ⟨frames, hserved⟩ := acquire_served h.fitted hf hrun
  have hdevice : (p.enter purpose s i taken).cache.device = taken.device := purpose.begin_device i taken
  have hstats : (p.enter purpose s i taken).cache.stats = taken.stats := purpose.begin_stats i taken
  refine ⟨hserved.faithful.begin htook.fitted htook.carries,
    ⟨frames.flatMap p.cache.due, ?_, ?_, fun e he => hf.due h.fitted he, fun t => ?_⟩, ?_, ?_, ?_⟩
  · rw [hdevice]
    exact hserved.written
  · rw [Stage.disk, hdevice]
    exact hserved.total
  · have hbalance := hserved.settling.balance h.fitted hserved.nodup t
    have hsoilings : (p.enter purpose s i taken).soilings t =
        p.soilings t + if (p.ask purpose s).Soils t then 1 else 0 := by
      unfold Stage.soilings
      show List.countP _ (p.ask purpose s :: p.asked) = _
      rw [List.countP_cons]
      simp only [decide_eq_true_eq]
    have hdirty : (p.enter purpose s i taken).cache.isDirty t = _ :=
      isDirty_begin (t := t) htook.fitted htook.carries
    rw [hsoilings, hdirty]
    by_cases hts : t = s
    · subst hts
      have hask : (p.ask purpose t).Soils t ↔ purpose.soils = true ∧ p.cache.isDirty t = false := by
        simp [Ask.Soils, Stage.ask]
      -- nothing is written of the sector that is asked for
      rw [hserved.same] at hbalance ⊢
      have hnone : (frames.flatMap p.cache.due).countP (fun e => e.1 = t) = 0 := by omega
      simp only [hask, hnone, decide_true, Bool.and_true]
      cases purpose.soils <;> cases p.cache.isDirty t <;> simp [Nat.add_comm]
    · -- of another sector is written what becomes clean, and it is not the one asked for
      have hask : ¬ (p.ask purpose s).Soils t := fun hsoils => hts hsoils.1.symm
      rw [if_neg hask, decide_eq_false hts, Bool.and_false, Bool.or_false]
      omega
  · rw [hstats]
    have hcounts := acquire_counts purpose.fill s p.cache
    rwa [hrun] at hcounts
  · have hreads : (p.enter purpose s i taken).cache.deviceReads = taken.deviceReads :=
      congrArg CacheStats.deviceReads hstats
    rw [hreads, Stage.disk, Stage.disk, hdevice]
    exact hserved.reads
  · have hwrites : (p.enter purpose s i taken).cache.deviceWrites = taken.deviceWrites :=
      congrArg CacheStats.deviceWrites hstats
    rw [hwrites, Stage.disk, Stage.disk, hdevice]
    exact hserved.writes

/-- The frames in use are flushed. -/
theorem Cleaned.charged {flushed : Cache (Journaled RamDisk) n}
    (hcleaned : Cleaned p.cache.recency.reverse p.cache flushed) (h : p.Steady) (hf : p.Faithful) :
    Faithful none p.array flushed ∧
      ∃ written, Stage.Charged written p { p with cache := flushed } ∧
        flushed.deviceWrites = p.cache.deviceWrites + written.length := by
  have hsettling := hcleaned.settling h.fitted
  obtain ⟨hwritten, hreads, hwrites⟩ := hcleaned.device.journal
  refine ⟨⟨fun {j t} hj _ => ?_, fun t ht => hf.settle h.fitted hsettling hcleaned.device ht⟩,
    _, ⟨hwritten, hwrites, fun e he => hf.due h.fitted he, fun t => ?_⟩,
    congrArg CacheStats.deviceWrites hcleaned.stats⟩
  · rw [hcleaned.frame]
    exact hf.data_eq (hcleaned.carries.mp hj)
  · have hbalance := hsettling.balance h.fitted (List.nodup_reverse.mpr h.fitted.recency_nodup) t
    show _ + p.soilings t = _ + p.soilings t
    rw [hbalance]

/-- **What one step writes**, and that it keeps the content where it belongs. -/
theorem Step.charged (hstep : Step p q) (h : p.Steady) (hf : p.Faithful) :
    q.Faithful ∧ ∃ written, Stage.Charged written p q := by
  cases hstep with
  | enter purpose hs hrun =>
    obtain ⟨hfaithful, hcharged, -⟩ := Stage.enter_charged h hf hrun
    exact ⟨hfaithful, hcharged⟩
  | @amend hold hheld hpurpose change =>
    have hi := h.carries hold hheld
    have hdirty := h.soiled hold hheld (by rw [hpurpose]; rfl)
    -- the frame became dirty when the sector was asked for, so nothing becomes dirty now
    refine ⟨?_, [], .quiet rfl rfl fun s => ?_⟩
    · show Faithful none (Function.update p.array hold.sector (change (p.array hold.sector))) _
      rw [← hf.data_eq hi]
      exact hf.mapFrame h.fitted hi (Or.inl rfl)
        (fun frame => { frame with data := change frame.data, dirty := true }) rfl
        fun hclean => absurd hclean.symm Bool.false_ne_true
    · show (p.cache.mapFrame hold.frame _).isDirty s = _
      rw [isDirty_mapFrame h.fitted hi rfl]
      split
      · next hs => rw [hs, h.fitted.isDirty_eq hi, hdirty]
      · rfl
  | @leave hold rest hheld =>
    have hi := h.carries hold (hheld ▸ List.mem_cons_self)
    refine ⟨?_, [], .quiet rfl rfl fun s => ?_⟩
    · -- to unpin a frame is to change it to what it holds anyway
      have hsame : Function.update p.array hold.sector (p.cache.frame hold.frame).data = p.array := by
        rw [hf.data_eq hi, Function.update_eq_self]
      show Faithful none p.array (p.cache.unpin hold.frame)
      rw [← hsame]
      exact hf.mapFrame h.fitted hi (Or.inl rfl) (fun frame => { frame with pins := frame.pins - 1 }) rfl
        fun hclean => ⟨hclean, hf.data_eq hi⟩
    · show (p.cache.unpin hold.frame).isDirty s = _
      rw [unpin, isDirty_mapFrame h.fitted hi rfl]
      split
      · next hs => rw [hs, h.fitted.isDirty_eq hi]
      · rfl
  | flush hheld hrun =>
    obtain ⟨hfaithful, written, hcharged, -⟩ := (flush_ok h.fitted hrun).charged h hf
    exact ⟨hfaithful, written, hcharged⟩
  | @reset emptied log hheld hrun =>
    obtain ⟨flushed, hcleaned, hemptied⟩ := reset_ok h.fitted (h.unpinned hheld) hrun
    obtain ⟨hfaithful, written, hcharged, -⟩ := hcleaned.charged h hf
    -- nothing is dirty after the flush, and nothing is in the cache after the reset
    have hflushed := (hcleaned.fitted h.fitted).isDirty_of_clean fun j => by rw [hcleaned.clean h.fitted]
    have hdirty : ∀ t, emptied.isDirty t = flushed.isDirty t := fun t =>
      (hemptied.toFitted.isDirty_of_clean (fun j => (hemptied.frame j).2) t).trans (hflushed t).symm
    refine ⟨⟨fun {j t} hj _ => ?_, fun t ht => ?_⟩, written, ⟨?_, ?_, hcharged.content, fun t => ?_⟩⟩
    · have hmem := hj.1
      rw [hemptied.recency] at hmem
      cases hmem
    · show LawfulDevice.block emptied.device t = _
      rw [hemptied.device]
      exact hfaithful.clean t (hdirty t ▸ ht)
    · show emptied.device.written = _
      rw [hemptied.device]
      exact hcharged.journal
    · show emptied.device.device.writes = _
      rw [hemptied.device]
      exact hcharged.total
    · have hbalance := hcharged.balance t
      show _ + (emptied.isDirty t).toNat + _ = _
      rw [hdirty]
      exact hbalance

/-- The counters go with those of the disk, unless they are reset. -/
theorem Step.advanced (hstep : Step p q) (h : p.Steady) (hf : p.Faithful) :
    (q.earlier = p.earlier ∧ p.Advanced q) ∨ q.earlier.length = p.earlier.length + 1 := by
  cases hstep with
  | enter purpose hs hrun =>
    obtain ⟨-, -, hadvanced⟩ := Stage.enter_charged h hf hrun
    exact Or.inl ⟨rfl, hadvanced⟩
  | amend hheld hpurpose change => exact Or.inl ⟨rfl, ⟨CacheStats.le_refl _, rfl, rfl⟩⟩
  | leave hheld => exact Or.inl ⟨rfl, ⟨CacheStats.le_refl _, rfl, rfl⟩⟩
  | @flush flushed log hheld hrun =>
    have hcleaned := flush_ok h.fitted hrun
    obtain ⟨-, hreads, hwrites⟩ := hcleaned.device.journal
    have hstats := hcleaned.stats
    refine Or.inl ⟨rfl, ?_, ?_, ?_⟩
    · have hcounts := flush_counts p.cache
      rwa [hrun] at hcounts
    · have hcounter : flushed.deviceReads = p.cache.deviceReads := congrArg CacheStats.deviceReads hstats
      show flushed.deviceReads + _ = _ + flushed.device.device.reads
      rw [hcounter, hreads]
      rfl
    · have hcounter : flushed.deviceWrites = _ := congrArg CacheStats.deviceWrites hstats
      show flushed.deviceWrites + p.cache.device.device.writes = _ + flushed.device.device.writes
      rw [hcounter, hwrites]
      show p.cache.deviceWrites + _ + _ = p.cache.deviceWrites + _
      omega
  | reset hheld hrun => exact Or.inr rfl

/-- What the counters say of what was asked for since the last reset. -/
structure Stage.Tallied (p : Stage (Journaled RamDisk) n) : Prop where
  accesses : p.cache.accesses = p.recent.length
  hits : p.cache.hits = p.recent.countP Ask.cached
  deviceReads : p.cache.deviceReads = p.recent.countP Ask.Reads

/-- **The counters** go on saying so. -/
theorem Step.tallied (hstep : Step p q) (h : p.Steady) (ht : p.Tallied) : q.Tallied := by
  cases hstep with
  | @enter purpose s i taken log hs hrun =>
    have hstats : (p.enter purpose s i taken).cache.stats = taken.stats := purpose.begin_stats i taken
    have haccesses : (p.enter purpose s i taken).cache.accesses = _ := congrArg CacheStats.accesses hstats
    have hhits : (p.enter purpose s i taken).cache.hits = _ := congrArg CacheStats.hits hstats
    have hreads : (p.enter purpose s i taken).cache.deviceReads = _ :=
      congrArg CacheStats.deviceReads hstats
    have hrecent : (p.enter purpose s i taken).recent = p.ask purpose s :: p.recent := rfl
    rcases acquire_ok h.fitted.evicting hrun with ⟨hit, rfl⟩ | ⟨hmiss, hloaded⟩
    · have hcached : (p.ask purpose s).cached = true := by
        show (p.cache.frameOf? s).isSome = true
        rw [hit]
        rfl
      have hnot : ¬ (p.ask purpose s).Reads := fun hr => by
        rw [hr.1] at hcached
        cases hcached
      refine ⟨?_, ?_, ?_⟩
      · rw [haccesses, hrecent, List.length_cons, ← ht.accesses]
        rfl
      · rw [hhits, hrecent, List.countP_cons_of_pos hcached, ← ht.hits]
        rfl
      · rw [hreads, hrecent, List.countP_cons_of_neg (by simpa using hnot), ← ht.deviceReads]
        rfl
    · have hcached : (p.ask purpose s).cached = false := isCached_eq_false_iff.mpr hmiss
      have hreadsIff : (p.ask purpose s).Reads ↔ purpose.fill = .readThrough := by
        unfold Ask.Reads
        rw [hcached]
        simp [Stage.ask]
      refine ⟨?_, ?_, ?_⟩
      · rw [haccesses, hrecent, List.length_cons, ← ht.accesses]
        exact hloaded.accesses
      · rw [hhits, hrecent, List.countP_cons_of_neg (hcached ▸ Bool.false_ne_true), ← ht.hits]
        exact hloaded.hits
      · rw [hreads, hrecent, List.countP_cons, ← ht.deviceReads]
        simp only [decide_eq_true_eq, hreadsIff]
        exact hloaded.deviceReads
  | amend hheld hpurpose change => exact ⟨ht.accesses, ht.hits, ht.deviceReads⟩
  | leave hheld => exact ⟨ht.accesses, ht.hits, ht.deviceReads⟩
  | flush hheld hrun =>
    have hstats := (flush_ok h.fitted hrun).stats
    exact ⟨(congrArg CacheStats.accesses hstats).trans ht.accesses, (congrArg CacheStats.hits hstats).trans ht.hits,
      (congrArg CacheStats.deviceReads hstats).trans ht.deviceReads⟩
  | reset hheld hrun =>
    obtain ⟨flushed, -, hemptied⟩ := reset_ok h.fitted (h.unpinned hheld) hrun
    have hstats := hemptied.stats
    exact ⟨congrArg CacheStats.accesses hstats, congrArg CacheStats.hits hstats,
      congrArg CacheStats.deviceReads hstats⟩

end Steps

/-! ## Runs -/

section Runs

variable {n : Nat} {p q : Stage (Journaled RamDisk) n}

/-- What stays true while a party works on a cache in front of a journaled disk. -/
structure Stage.Audited (disk : RamDisk) (p : Stage (Journaled RamDisk) n) : Prop extends p.Steady where
  faithful : p.Faithful
  tallied : p.Tallied
  /-- The journal tells of everything that the disk has counted since. -/
  total : p.disk.writes = disk.writes + p.cache.device.written.length
  /-- A sector was written as often as it became dirty, unless it is dirty now. -/
  balance : ∀ s, p.cache.device.written.countP (fun e => e.1 = s) + (p.cache.isDirty s).toNat = p.soilings s

theorem Stage.start_audited (disk : RamDisk) :
    (Stage.start n (⟨disk, []⟩ : Journaled RamDisk) (LawfulDevice.block disk)).Audited disk where
  toSteady := .start _ _
  faithful := ⟨fun hj _ => absurd hj.1 List.not_mem_nil, fun _ _ => rfl⟩
  tallied := ⟨rfl, rfl, rfl⟩
  total := rfl
  balance _ := rfl

/-- **Every step** leaves the books balanced. -/
theorem Step.audited {disk : RamDisk} (hstep : Step p q) (h : p.Audited disk) : q.Audited disk := by
  obtain ⟨hfaithful, written, hcharged⟩ := hstep.charged h.toSteady h.faithful
  refine ⟨hstep.steady h.toSteady, hfaithful, hstep.tallied h.toSteady h.tallied, ?_, fun s => ?_⟩
  · rw [hcharged.total, h.total, hcharged.journal, List.length_append, List.length_reverse]
    omega
  · have hbefore := h.balance s
    have hbalance := hcharged.balance s
    rw [hcharged.journal, List.countP_append, List.countP_reverse]
    omega

theorem Reaches.audited {disk : RamDisk} (hreach : Reaches p q) (h : p.Audited disk) : q.Audited disk := by
  induction hreach with
  | refl => exact h
  | tail _ hstep ih => exact hstep.audited ih

/-- **While there is no reset** the counters go with those of the disk. -/
theorem Reaches.advanced {disk : RamDisk} (hreach : Reaches p q) (h : p.Audited disk) :
    p.earlier.length ≤ q.earlier.length ∧ (q.earlier.length = p.earlier.length → p.Advanced q) := by
  induction hreach with
  | refl => exact ⟨Nat.le_refl _, fun _ => .refl _⟩
  | tail hreach hstep ih =>
    obtain ⟨hle, hadvanced⟩ := ih
    have haudited := Reaches.audited hreach h
    rcases hstep.advanced haudited.toSteady haudited.faithful with ⟨hsame, hstepped⟩ | hreset
    · rw [hsame]
      exact ⟨hle, fun heq => (hadvanced heq).trans hstepped⟩
    · -- the reset is remembered, whatever comes after it
      exact ⟨by omega, fun heq => by omega⟩

end Runs

/-- **Changed sectors are written economically, and the counters tell what was done.** A party works on a new
    cache in front of a RAM disk that keeps a journal, as it can on the disk itself; requests that are answered
    are such work. What the journal has of a sector, and one more if the sector is dirty now, is how often the
    sector was asked for to be changed while it was not dirty. What a step writes was dirty, and is written with
    the latest content. Since the last reset the cache has counted each access, each hit and, as reads of the
    device, each miss of those that did not replace all of the content; while there is no reset no counter goes
    back, and its reads and writes of the device go with what the disk has counted. -/
theorem write_back_exact {n : Nat} (disk : RamDisk) :
    (∀ p : Stage RamDisk n, Reaches (Stage.start n disk (LawfulDevice.block disk)) p ↔
      ∃ q : Stage (Journaled RamDisk) n, Reaches (Stage.start n ⟨disk, []⟩ (LawfulDevice.block disk)) q ∧
        q.mapDevice Journaled.device = p) ∧
    ∀ p : Stage (Journaled RamDisk) n, Reaches (Stage.start n ⟨disk, []⟩ (LawfulDevice.block disk)) p →
      (∀ base requests answers cache log, Request.StaysAll p.sectors requests →
        Request.runAll base requests p.cache = ⟨.ok answers, cache, log⟩ →
        ∃ q, Reaches p q ∧ q.cache = cache ∧ q.held = p.held ∧
          q.array = (Request.applyAll requests p.array).2) ∧
      p.disk.writes = disk.writes + p.cache.device.written.length ∧
      (∀ s, p.cache.device.written.countP (fun e => e.1 = s) + (if p.cache.isDirty s then 1 else 0) =
        p.asked.countP fun ask => ask.sector = s ∧ ask.purpose.soils = true ∧ ask.dirty = false) ∧
      (∀ q, Step p q → ∃ written, q.cache.device.written = written ++ p.cache.device.written ∧
        ∀ e ∈ written, p.cache.isDirty e.1 = true ∧ e.2 = p.array e.1) ∧
      p.cache.accesses = p.recent.length ∧
      p.cache.hits = p.recent.countP (fun ask => ask.cached) ∧
      p.cache.hits + p.recent.countP (fun ask => !ask.cached) = p.cache.accesses ∧
      p.cache.deviceReads =
        p.recent.countP (fun ask => ask.cached = false ∧ ask.purpose.fill = .readThrough) ∧
      ∀ q, Reaches p q → q.earlier.length = p.earlier.length →
        p.cache.stats ≤ q.cache.stats ∧ (∃ counted, q.cache.stats.since p.cache.stats = .ok counted) ∧
        q.cache.deviceReads + p.disk.reads = p.cache.deviceReads + q.disk.reads ∧
        q.cache.deviceWrites + p.disk.writes = p.cache.deviceWrites + q.disk.writes := by
  refine ⟨fun p => reaches_mapDevice (p := Stage.start n ⟨disk, []⟩ _) Journaled.mirrors, fun p hreach => ?_⟩
  have h := Reaches.audited hreach (Stage.start_audited disk)
  refine ⟨fun base requests answers cache log hstays hrun => ?_, h.total, fun s => ?_, fun q hstep => ?_,
    h.tallied.accesses, h.tallied.hits, ?_, h.tallied.deviceReads, fun q hq hnone => ?_⟩
  · obtain ⟨q, hdone⟩ := runAll_reaches hstays hrun
    exact ⟨q, hdone.reaches, hdone.cache, hdone.held, hdone.array⟩
  · have hbalance := h.balance s
    cases hdirty : p.cache.isDirty s with
    | false =>
      rw [hdirty] at hbalance
      exact hbalance
    | true =>
      rw [hdirty] at hbalance
      exact hbalance
  · obtain ⟨-, written, hcharged⟩ := hstep.charged h.toSteady h.faithful
    refine ⟨written.reverse, hcharged.journal, fun e he => ?_⟩
    exact hcharged.content e (List.mem_reverse.mp he)
  · rw [h.tallied.hits, h.tallied.accesses, List.length_eq_countP_add_countP Ask.cached]
    simp
  · have hadvanced := (Reaches.advanced hq h).2 hnone
    exact ⟨hadvanced.stats, CacheStats.since_ok hadvanced.stats, hadvanced.reads, hadvanced.writes⟩

/-- One frame: sector 0 is changed and let go, and is written as sector 1 takes its frame. -/
theorem write_back_exact_one :
    ∃ p : Stage (Journaled RamDisk) 1,
      Reaches (Stage.start 1 ⟨RamDisk.blank 4, []⟩ (LawfulDevice.block (RamDisk.blank 4))) p ∧
      p.sectors = [1] ∧ p.cache.device.written.countP (fun e => e.1 = 0) = 1 := by
  have hcount : BlockDevice.sectorCount (RamDisk.blank 4) = 4 := Array.size_replicate
  let p₀ := Stage.start 1 (⟨RamDisk.blank 4, []⟩ : Journaled RamDisk) (LawfulDevice.block (RamDisk.blank 4))
  have h₀ : p₀.Steady := .start _ _
  have hb₀ : p₀.Backed 4 := hcount ▸ Stage.start_backed (d := (⟨RamDisk.blank 4, []⟩ : Journaled RamDisk)) trivial
  obtain ⟨i, taken, log, hrun, -, ht, -⟩ :=
    h₀.serves hb₀ .overwrite (s := 0) (by decide) List.not_mem_nil (by decide)
  let p₁ := p₀.enter (.replace Block.zero) 0 i taken
  have h₁ : p₁.Steady := h₀.enter List.not_mem_nil (acquire_took h₀.fitted hrun) (.replace Block.zero)
  have hb₁ : p₁.Backed 4 := hb₀.enter (.replace Block.zero) ht
  let p₂ := p₁.leave ⟨0, i, .replace Block.zero⟩ []
  have hleave : Step p₁ p₂ := .leave rfl
  have h₂ : p₂.Steady := hleave.steady h₁
  have hb₂ : p₂.Backed 4 := hleave.backed h₁ hb₁ (by
    simp [p₂, p₁, p₀, Stage.asked, Stage.leave, Stage.enter, Stage.ask, Stage.start])
  obtain ⟨i', taken', log', hrun', -, -, -⟩ :=
    h₂.serves hb₂ .readThrough (s := 1) (by decide) List.not_mem_nil Nat.one_pos
  let p₃ := p₂.enter .look 1 i' taken'
  have hreach : Reaches p₀ p₃ :=
    ((Relation.ReflTransGen.single (Step.enter (.replace Block.zero) List.not_mem_nil hrun)).tail hleave).tail
      (.enter .look List.not_mem_nil hrun')
  obtain ⟨-, -, hbalance, -⟩ := (write_back_exact (RamDisk.blank 4)).2 p₃ hreach
  -- the only frame has sector 1 now
  have hgone : p₃.cache.isDirty 0 = false := by
    show taken'.isDirty 0 = false
    have htook := acquire_took h₂.fitted hrun'
    rw [← Bool.not_eq_true, htook.fitted.isDirty_iff]
    rintro ⟨j, hj, -⟩
    have hsame := hj.sector_eq (Subsingleton.elim i' j ▸ htook.carries)
    exact absurd hsame (by decide)
  have hasked : p₃.asked.countP
      (fun ask => ask.sector = 0 ∧ ask.purpose.soils = true ∧ ask.dirty = false) = 1 := by
    have hclean : (blank 1 (⟨RamDisk.blank 4, []⟩ : Journaled RamDisk)).isDirty 0 = false := rfl
    simp [p₃, p₂, p₁, p₀, Stage.asked, Stage.leave, Stage.enter, Stage.ask, Stage.start, Purpose.soils, hclean]
  refine ⟨p₃, hreach, rfl, ?_⟩
  have hzero := hbalance 0
  rw [hgone, hasked] at hzero
  exact hzero

end InodeStore.Cache
