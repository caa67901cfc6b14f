import InodeStore.Proofs.Cache.Outcome
import InodeStore.Proofs.Cache.Transparency
import Mathlib.Logic.Relation

/-!
# `Proofs.Cache.Nesting` — one party at work, step by step

A party that uses the cache may ask for further sectors while it holds some. What it asks for may depend on
what it finds, so its work is told here step by step, by the actions the operations of the cache are made of.
A `Stage` is a cache with what a bystander knows of it: which sectors are held, in which frames, what array of
blocks the cache should stand for, and what was asked for so far. `Step` is one thing that the party does:
it asks for a sector, changes a sector that it holds, lets go of the last one it asked for, or works on the
whole cache while it holds none.

`Steady` is what stays true. The frames and lists fit together, a frame is pinned once if its sector is held
and not at all if it is not, and the order of the sectors is that in which they were last asked for.

## Contents
- `Purpose`, `Hold`, `Ask`, `Stage`, `Step`, `Reaches`.
- `Took`: what an access does for those who hold other frames.
- `Steady`, kept by every step (`Step.steady`), so true of every stage (`Reaches.steady`).
- **Requests.** `run_reaches`: requests that are answered are such steps.
-/

namespace InodeStore.Cache

/-! ## Stages -/

/-- What a sector is asked for. -/
inductive Purpose where
  /-- To look at its content. -/
  | look
  /-- To replace its content. -/
  | replace (block : Block)
  /-- To change its content while its frame is held. -/
  | amend

namespace Purpose

/-- How the frame is filled if it has to be. -/
def fill : Purpose → Fill
  | look | amend => .readThrough
  | replace _ => .overwrite

/-- Will there be something that the device does not have? -/
def soils : Purpose → Bool
  | look => false
  | replace _ | amend => true

/-- What is done to the frame as soon as it has the sector. -/
def begin {δ : Type} {n : Nat} (i : Fin n) (cache : Cache δ n) : Purpose → Cache δ n
  | look => cache
  | replace block => (amendFrame i (fun _ => block) cache).state
  | amend => (amendFrame i id cache).state

/-- What that does to the array of blocks. -/
def effect (s : SectorId) (a : SectorArray) : Purpose → SectorArray
  | look | amend => a
  | replace block => Function.update a s block

end Purpose

/-- A sector that is held, and the frame that it is held in. -/
structure Hold (n : Nat) where
  sector : SectorId
  frame : Fin n
  purpose : Purpose

/-- That a sector was asked for, and how it was found. -/
structure Ask where
  purpose : Purpose
  sector : SectorId
  /-- It was in the cache. -/
  cached : Bool
  /-- There was newer content of it in the cache than on the device. -/
  dirty : Bool

/-- A cache in the hands of one party. -/
structure Stage (δ : Type) (n : Nat) where
  cache : Cache δ n
  /-- What is held, the last one asked for first. -/
  held : List (Hold n)
  /-- The content that each sector has for the party. -/
  array : SectorArray
  /-- What was asked for since the last reset, the last one first. -/
  recent : List Ask
  /-- What was asked for before, from one reset to the next, the last ones first. -/
  earlier : List (List Ask)

namespace Stage

variable {δ : Type} {n : Nat}

/-- Before the party begins: an empty cache in front of a device with the content `a`. -/
def start (n : Nat) (d : δ) (a : SectorArray) : Stage δ n := ⟨blank n d, [], a, [], []⟩

/-- The sectors that are held. -/
def sectors (p : Stage δ n) : List SectorId := p.held.map Hold.sector

/-- The sectors asked for since the last reset, the last one first. -/
def past (p : Stage δ n) : List SectorId := p.recent.map Ask.sector

/-- All that was asked for. -/
def asked (p : Stage δ n) : List Ask := p.recent ++ p.earlier.flatten

/-- A sector is asked for now. -/
def ask (p : Stage δ n) (purpose : Purpose) (s : SectorId) : Ask :=
  ⟨purpose, s, p.cache.isCached s, p.cache.isDirty s⟩

/-- A sector was asked for, and `i` is its frame. -/
def enter (p : Stage δ n) (purpose : Purpose) (s : SectorId) (i : Fin n) (taken : Cache δ n) :
    Stage δ n where
  cache := purpose.begin i taken
  held := ⟨s, i, purpose⟩ :: p.held
  array := purpose.effect s p.array
  recent := p.ask purpose s :: p.recent
  earlier := p.earlier

/-- A sector that is held is changed. -/
def amend (p : Stage δ n) (h : Hold n) (change : Block → Block) : Stage δ n :=
  { p with
    cache := (amendFrame h.frame change p.cache).state
    array := Function.update p.array h.sector (change (p.array h.sector)) }

/-- The last sector asked for is let go. -/
def leave (p : Stage δ n) (h : Hold n) (rest : List (Hold n)) : Stage δ n :=
  { p with cache := p.cache.unpin h.frame, held := rest }

end Stage

variable {δ : Type} {n : Nat} [BlockDevice δ]

/-- One thing that the party does. It does not ask for a sector that it holds, and holds none while it works
    on the whole cache. No step is one that faults. -/
inductive Step : Stage δ n → Stage δ n → Prop where
  | enter {p : Stage δ n} (purpose : Purpose) {s : SectorId} {i : Fin n} {taken : Cache δ n}
      {log : List Event} (hs : s ∉ p.sectors)
      (hrun : acquire purpose.fill s p.cache = ⟨.ok i, taken, log⟩) : Step p (p.enter purpose s i taken)
  | amend {p : Stage δ n} {h : Hold n} (hheld : h ∈ p.held) (hpurpose : h.purpose = .amend)
      (change : Block → Block) : Step p (p.amend h change)
  | leave {p : Stage δ n} {h : Hold n} {rest : List (Hold n)} (hheld : p.held = h :: rest) :
      Step p (p.leave h rest)
  | flush {p : Stage δ n} {flushed : Cache δ n} {log : List Event} (hheld : p.held = [])
      (hrun : Cache.flush p.cache = ⟨.ok (), flushed, log⟩) : Step p { p with cache := flushed }
  | reset {p : Stage δ n} {emptied : Cache δ n} {log : List Event} (hheld : p.held = [])
      (hrun : Cache.reset p.cache = ⟨.ok (), emptied, log⟩) :
      Step p { p with cache := emptied, recent := [], earlier := p.recent :: p.earlier }

/-- The party gets from one stage to another. -/
abbrev Reaches : Stage δ n → Stage δ n → Prop := Relation.ReflTransGen Step

/-! ## What an access does for others -/

section Took

variable {cache taken : Cache δ n} {s t : SectorId} {i j : Fin n}

omit [BlockDevice δ] in
/-- An access has pinned the frame `i` for a sector. The other frames are as they were, but the one given away
    was taken from its sector; the sector is the first one now. -/
structure Took (cache : Cache δ n) (s : SectorId) (i : Fin n) (taken : Cache δ n) : Prop where
  fitted : taken.Fitted
  carries : taken.Carries i s
  other : ∀ j, j ≠ i → taken.frame j = cache.frame j
  pins : (taken.frame i).pins = (cache.frame i).pins + 1
  /-- A frame that was pinned before is one that carried the sector. -/
  home : 0 < (cache.frame i).pins → cache.Carries i s
  stays : ∀ {j t}, j ≠ i → cache.Carries j t → taken.Carries j t
  order : ∃ kept, taken.sectors = s :: kept ∧ kept.Sublist cache.sectors

/-- **An access that ends well.** -/
theorem acquire_took {fill : Fill} {log : List Event} (hc : cache.Fitted)
    (hrun : acquire fill s cache = ⟨.ok i, taken, log⟩) : Took cache s i taken := by
  rcases acquire_ok hc.evicting hrun with ⟨hit, rfl⟩ | ⟨hmiss, h⟩
  · have hi : cache.Carries i s := carries_of_frameOf? hit
    refine ⟨hc.found hi, (carries_found hi.1).mpr hi, ?_, ?_, fun _ => hi,
      fun _ hjt => (carries_found hi.1).mpr hjt, _, hc.sectors_found hi, List.erase_sublist⟩
    · intro j hj
      rw [frame_found, if_neg hj]
    · rw [frame_found, if_pos rfl]
  · obtain ⟨recency, hclaims, hrecency⟩ := h.lists
    refine ⟨h.fitted hc hmiss, h.carries, h.other, ?_, ?_, fun hj hjt => h.carries_of_ne hjt hj, _,
      h.sectors_eq hc hclaims hrecency, hclaims.sublist.filterMap _⟩
    · obtain ⟨b, mid, -, -, hframe⟩ := h.filled
      rw [hframe]
    · intro hpins
      rw [h.unpinned hc] at hpins
      cases hpins

omit [BlockDevice δ] in
/-- The rest of the order is without the sector. -/
theorem Took.not_mem {kept : List SectorId} (h : Took cache s i taken) (hkept : taken.sectors = s :: kept) :
    s ∉ kept := by
  have hnodup := h.fitted.sectors_nodup
  rw [hkept, List.nodup_cons] at hnodup
  exact hnodup.1

end Took

/-! ## What stays true -/

/-- The change of a frame with which a use of it begins. -/
def Purpose.touch (purpose : Purpose) (frame : Frame) : Frame :=
  match purpose with
  | look => frame
  | replace block => { frame with data := block, dirty := true }
  | amend => { frame with dirty := true }

omit [BlockDevice δ] in
theorem mapFrame_id (i : Fin n) (cache : Cache δ n) : (cache.mapFrame i fun frame => frame) = cache := by
  have hframes : cache.frames.set i.val (cache.frames.get i) i.isLt = cache.frames :=
    Vector.set_getElem_self i.isLt
  exact congrArg (fun frames => ({ cache with frames } : Cache δ n)) hframes

omit [BlockDevice δ] in
theorem Purpose.begin_eq (purpose : Purpose) (i : Fin n) (cache : Cache δ n) :
    purpose.begin i cache = cache.mapFrame i purpose.touch := by
  cases purpose with
  | look => exact (mapFrame_id i cache).symm
  | replace block => rfl
  | amend => rfl

@[simp] theorem Purpose.touch_sector (purpose : Purpose) (frame : Frame) :
    (purpose.touch frame).sector = frame.sector := by
  cases purpose <;> rfl

@[simp] theorem Purpose.touch_pins (purpose : Purpose) (frame : Frame) :
    (purpose.touch frame).pins = frame.pins := by
  cases purpose <;> rfl

/-- Once a frame is used to change its sector it is dirty, and otherwise as dirty as before. -/
@[simp] theorem Purpose.touch_dirty (purpose : Purpose) (frame : Frame) :
    (purpose.touch frame).dirty = (purpose.soils || frame.dirty) := by
  cases purpose <;> rfl

omit [BlockDevice δ] in
/-- Only the frame is changed. -/
@[simp] theorem Purpose.begin_device (purpose : Purpose) (i : Fin n) (cache : Cache δ n) :
    (purpose.begin i cache).device = cache.device := by
  cases purpose <;> rfl

omit [BlockDevice δ] in
@[simp] theorem Purpose.begin_stats (purpose : Purpose) (i : Fin n) (cache : Cache δ n) :
    (purpose.begin i cache).stats = cache.stats := by
  cases purpose <;> rfl

omit [BlockDevice δ] in
theorem sectors_mapFrame {cache : Cache δ n} {i : Fin n} {change : Frame → Frame}
    (hsector : (change (cache.frame i)).sector = (cache.frame i).sector) :
    (cache.mapFrame i change).sectors = cache.sectors :=
  List.filterMap_congr fun j _ => mapFrame_keeps Frame.sector hsector j

omit [BlockDevice δ] in
/-- What stays true while one party is at work. -/
structure Stage.Steady (p : Stage δ n) : Prop where
  fitted : p.cache.Fitted
  /-- No sector is held twice. -/
  distinct : p.sectors.Nodup
  /-- A sector that is held stays in its frame. -/
  carries : ∀ h ∈ p.held, p.cache.Carries h.frame h.sector
  /-- A frame is pinned by those who hold it, and by nobody else. -/
  pins : ∀ j, (p.cache.frame j).pins = p.held.countP fun h => h.frame = j
  /-- What is held to be changed is dirty. -/
  soiled : ∀ h ∈ p.held, h.purpose.soils = true → (p.cache.frame h.frame).dirty = true
  /-- What is in the cache was asked for since the last reset. -/
  known : ∀ t ∈ p.cache.sectors, t ∈ p.past
  /-- The order is that in which the sectors were last asked for. -/
  ranked : p.cache.sectors.Pairwise fun t u => p.past.idxOf t < p.past.idxOf u

namespace Stage.Steady

omit [BlockDevice δ]

variable {p : Stage δ n} {i j : Fin n} {s : SectorId}

theorem start (d : δ) (a : SectorArray) : (Stage.start n d a).Steady where
  fitted := blank_fitted d
  distinct := List.nodup_nil
  carries h hh := by cases hh
  pins := blank_unpinned d
  soiled h hh := by cases hh
  known t ht := by cases ht
  ranked := List.Pairwise.nil

/-- A frame is pinned if some sector is held in it. -/
theorem pinned_iff (h : p.Steady) : 0 < (p.cache.frame j).pins ↔ ∃ hold ∈ p.held, hold.frame = j := by
  rw [h.pins, List.countP_pos_iff]
  simp

theorem unpinned (h : p.Steady) (hheld : p.held = []) : p.cache.Unpinned := by
  intro j
  rw [h.pins, hheld]
  rfl

/-- A frame that was asked for is not that of a sector held before. -/
theorem frame_ne {taken : Cache δ n} (h : p.Steady) (hs : s ∉ p.sectors) (ht : Took p.cache s i taken)
    {hold : Hold n} (hhold : hold ∈ p.held) : hold.frame ≠ i := by
  rintro rfl
  have hhome := ht.home (h.pinned_iff.mpr ⟨hold, hhold, rfl⟩)
  rw [hhome.sector_eq (h.carries hold hhold)] at hs
  exact hs (List.mem_map_of_mem hhold)

/-- A change of a frame that leaves it with its sector and its pins, and as dirty as it was at least. -/
theorem mapFrame (h : p.Steady) (hi : i ∈ p.cache.recency) {change : Frame → Frame}
    (hsector : (change (p.cache.frame i)).sector = (p.cache.frame i).sector)
    (hpins : (change (p.cache.frame i)).pins = (p.cache.frame i).pins)
    (hdirty : (p.cache.frame i).dirty = true → (change (p.cache.frame i)).dirty = true)
    (array : SectorArray) : Stage.Steady { p with cache := p.cache.mapFrame i change, array } where
  fitted := h.fitted.mapFrame hi hsector
  distinct := h.distinct
  carries hold hhold := (carries_mapFrame hsector).mpr (h.carries hold hhold)
  pins j := (mapFrame_keeps Frame.pins hpins j).trans (h.pins j)
  soiled hold hhold hsoils := by
    have := h.soiled hold hhold hsoils
    rw [frame_mapFrame]
    split
    · next hj => exact hdirty (hj ▸ this)
    · exact this
  known t ht := h.known t (sectors_mapFrame hsector ▸ ht)
  ranked := by
    have hsame : (p.cache.mapFrame i change).sectors = p.cache.sectors := sectors_mapFrame hsector
    exact hsame.symm ▸ h.ranked

/-- A sector that is asked for becomes the first one in the order, and its frame is pinned once. -/
theorem enter {taken : Cache δ n} (h : p.Steady) (hs : s ∉ p.sectors) (ht : Took p.cache s i taken)
    (purpose : Purpose) : (p.enter purpose s i taken).Steady := by
  have hbegin : (p.enter purpose s i taken).cache = taken.mapFrame i purpose.touch := purpose.begin_eq i taken
  have hsectors : (p.enter purpose s i taken).cache.sectors = taken.sectors := by
    rw [hbegin, sectors_mapFrame (purpose.touch_sector _)]
  obtain ⟨kept, hkept, hsub⟩ := ht.order
  constructor
  · rw [hbegin]
    exact ht.fitted.mapFrame ht.carries.1 (purpose.touch_sector _)
  · exact List.nodup_cons.mpr ⟨hs, h.distinct⟩
  · intro hold hhold
    rw [hbegin, carries_mapFrame (purpose.touch_sector _)]
    rcases List.mem_cons.mp hhold with rfl | hhold
    · exact ht.carries
    · exact ht.stays (h.frame_ne hs ht hhold) (h.carries hold hhold)
  · -- the pin of the new holder, if it is for this frame
    intro j
    rw [hbegin, frame_mapFrame]
    by_cases hj : j = i
    · rw [if_pos hj, purpose.touch_pins, ht.pins, h.pins, hj]
      simp [Stage.enter]
    · rw [if_neg hj, ht.other j hj, h.pins]
      simp [Stage.enter, Ne.symm hj]
  · intro hold hhold hsoils
    rw [hbegin, frame_mapFrame]
    rcases List.mem_cons.mp hhold with rfl | hhold
    · rw [if_pos rfl, purpose.touch_dirty, show purpose.soils = true from hsoils, Bool.true_or]
    · rw [if_neg (h.frame_ne hs ht hhold), ht.other _ (h.frame_ne hs ht hhold)]
      exact h.soiled hold hhold hsoils
  · intro t hmem
    rw [hsectors, hkept] at hmem
    rcases List.mem_cons.mp hmem with rfl | hmem
    · exact List.mem_cons_self
    · exact List.mem_cons_of_mem _ (h.known t (hsub.subset hmem))
  · -- the others were last asked for before, and in the order in which they still are
    have hlater : ∀ t ∈ kept, (s :: p.past).idxOf t = p.past.idxOf t + 1 := by
      intro t hmem
      refine List.idxOf_cons_ne _ ?_
      rintro rfl
      exact ht.not_mem hkept hmem
    rw [hsectors, hkept, List.pairwise_cons]
    show (∀ t ∈ kept, (s :: p.past).idxOf s < (s :: p.past).idxOf t) ∧
      kept.Pairwise fun t u => (s :: p.past).idxOf t < (s :: p.past).idxOf u
    refine ⟨fun t hmem => ?_, (h.ranked.sublist hsub).imp_of_mem fun {t u} ht hu hlt => ?_⟩
    · rw [hlater t hmem, List.idxOf_cons_self]
      exact Nat.succ_pos _
    · rw [hlater t ht, hlater u hu]
      exact Nat.succ_lt_succ hlt

/-- The last sector asked for is let go. -/
theorem leave {hold : Hold n} {rest : List (Hold n)} (h : p.Steady) (hheld : p.held = hold :: rest) :
    (p.leave hold rest).Steady := by
  have hcarries : p.cache.Carries hold.frame hold.sector :=
    h.carries hold (hheld ▸ List.mem_cons_self)
  have hmem : ∀ {other}, other ∈ rest → other ∈ p.held := fun hother =>
    hheld ▸ List.mem_cons_of_mem _ hother
  have hsectors : (p.leave hold rest).cache.sectors = p.cache.sectors := sectors_mapFrame rfl
  constructor
  · show (p.cache.unpin hold.frame).Fitted
    unfold unpin
    exact h.fitted.mapFrame hcarries.1 rfl
  · have := h.distinct
    rw [Stage.sectors, hheld, List.map_cons, List.nodup_cons] at this
    exact this.2
  · intro other hother
    exact (carries_mapFrame rfl).mpr (h.carries other (hmem hother))
  · intro j
    show ((p.cache.unpin hold.frame).frame j).pins = rest.countP _
    have hpins := h.pins j
    rw [hheld, List.countP_cons] at hpins
    rw [unpin, frame_mapFrame]
    by_cases hj : j = hold.frame
    · subst hj
      simp only [decide_true, if_true] at hpins ⊢
      omega
    · simp only [Ne.symm hj, decide_false, Bool.false_eq_true, if_false, Nat.add_zero] at hpins
      rw [if_neg hj, hpins]
  · intro other hother hsoils
    have := h.soiled other (hmem hother) hsoils
    show ((p.cache.unpin hold.frame).frame other.frame).dirty = true
    rw [unpin, frame_mapFrame]
    split
    · next hj => exact hj ▸ this
    · exact this
  · intro t ht
    exact h.known t (hsectors ▸ ht)
  · rw [hsectors]
    exact h.ranked

end Stage.Steady

/-- **Every step** keeps what stays true. -/
theorem Step.steady {p q : Stage δ n} (hstep : Step p q) (h : p.Steady) : q.Steady := by
  cases hstep with
  | enter purpose hs hrun => exact h.enter hs (acquire_took h.fitted hrun) purpose
  | @amend hold hheld hpurpose change =>
    show Stage.Steady { p with
      cache := p.cache.mapFrame hold.frame fun frame =>
        { frame with data := change frame.data, dirty := true }
      array := _ }
    exact h.mapFrame (h.carries hold hheld).1 rfl rfl (fun _ => rfl) _
  | leave hheld => exact h.leave hheld
  | flush hheld hrun =>
    have hcleaned := flush_ok h.fitted hrun
    refine ⟨hcleaned.fitted h.fitted, h.distinct, fun hold hhold => ?_, fun j => ?_, fun hold hhold => ?_, ?_,
      ?_⟩
    · exact hcleaned.carries.mpr (h.carries hold hhold)
    · rw [← h.pins j, hcleaned.frame]
    · rw [hheld] at hhold
      cases hhold
    · intro t ht
      exact h.known t (hcleaned.sectors_eq ▸ ht)
    · show List.Pairwise _ (Cache.sectors _)
      rw [hcleaned.sectors_eq]
      exact h.ranked
  | reset hheld hrun =>
    obtain ⟨flushed, -, hemptied⟩ := reset_ok h.fitted (h.unpinned hheld) hrun
    refine ⟨hemptied.toFitted, h.distinct, fun hold hhold => ?_, fun j => ?_, fun hold hhold => ?_, ?_, ?_⟩
    · rw [hheld] at hhold
      cases hhold
    · rw [(hemptied.frame j).1, hheld]
      rfl
    · rw [hheld] at hhold
      cases hhold
    · intro t ht
      rw [hemptied.sectors_eq] at ht
      cases ht
    · show List.Pairwise _ (Cache.sectors _)
      rw [hemptied.sectors_eq]
      exact List.Pairwise.nil

/-- **Any number of steps** keep it. -/
theorem Reaches.steady {p q : Stage δ n} (hreach : Reaches p q) (h : p.Steady) : q.Steady := by
  induction hreach with
  | refl => exact h
  | tail _ hstep ih => exact hstep.steady ih

/-! ## Requests are steps -/

namespace Request

mutual

/-- A request that may be made while sectors are held: for none of them, and not for the whole cache unless
    none is held. -/
def Stays (held : List SectorId) : Request → Prop
  | .read s | .write s _ => s ∉ held
  | .map s inner | .update s _ inner => s ∉ held ∧ StaysAll (s :: held) inner
  | .flush | .reset => held = []
  | .inspect | .sample | .sinceSample => True

/-- Requests that may be made one after the other. -/
def StaysAll (held : List SectorId) : List Request → Prop
  | [] => True
  | request :: rest => Stays held request ∧ StaysAll held rest

end

end Request

/-- A stage that differs from another one by a finished piece of work. -/
structure Stage.Done (p : Stage δ n) (cache : Cache δ n) (array : SectorArray) (q : Stage δ n) : Prop where
  reaches : Reaches p q
  cache : q.cache = cache
  held : q.held = p.held
  array : q.array = array

/-- Asking for a sector, some work, and letting go of it again. -/
theorem Stage.done_of_enter {p q : Stage δ n} (purpose : Purpose) {s : SectorId} {i : Fin n}
    {taken used : Cache δ n} {log : List Event} {array : SectorArray} (hs : s ∉ p.sectors)
    (hrun : acquire purpose.fill s p.cache = ⟨.ok i, taken, log⟩)
    (h : (p.enter purpose s i taken).Done used array q) :
    p.Done (used.unpin i) array (q.leave ⟨s, i, purpose⟩ p.held) where
  reaches := ((Relation.ReflTransGen.single (Step.enter purpose hs hrun)).trans h.reaches).tail (.leave h.held)
  cache := by
    rw [← h.cache]
    rfl
  held := rfl
  array := h.array

mutual

/-- A request that is answered is such steps. -/
theorem run_reaches {p : Stage δ n} {base : CacheStats} {r : Request} {answer : Response × CacheStats}
    {cache : Cache δ n} {log : List Event} (hr : r.Stays p.sectors)
    (hrun : r.run base p.cache = ⟨.ok answer, cache, log⟩) :
    ∃ q, p.Done cache (r.apply p.array).2 q := by
  match r, Request.ran_of_run hrun with
  | .read s, .read i taken hacquire =>
    exact ⟨_, Stage.done_of_enter .look hr hacquire ⟨.refl, rfl, rfl, rfl⟩⟩
  | .write s b, .write i taken hacquire =>
    exact ⟨_, Stage.done_of_enter (.replace b) hr hacquire ⟨.refl, rfl, rfl, rfl⟩⟩
  | .map s inner, .map i taken hacquire hinner =>
    rw [Request.apply]
    obtain ⟨q, hq⟩ := runAll_reaches (p := p.enter .look s i taken) hr.2 hinner
    exact ⟨_, Stage.done_of_enter .look hr.1 hacquire hq⟩
  | .update s change inner, .update i taken hacquire hinner =>
    rw [Request.apply]
    obtain ⟨q, hq⟩ := runAll_reaches (p := p.enter .amend s i taken) hr.2 hinner
    -- the frame is still held when it is changed
    have hheld : (⟨s, i, .amend⟩ : Hold n) ∈ q.held := hq.held ▸ List.mem_cons_self
    refine ⟨_, Stage.done_of_enter .amend hr.1 hacquire
      ⟨hq.reaches.tail (.amend hheld rfl change), ?_, hq.held, ?_⟩⟩
    · rw [← hq.cache]
      rfl
    · rw [Stage.amend, hq.array]
      rfl
  | .flush, .flush hflush =>
    have hheld : p.held = [] := List.map_eq_nil_iff.mp hr
    exact ⟨_, .single (.flush hheld hflush), rfl, rfl, rfl⟩
  | .reset, .reset hreset =>
    have hheld : p.held = [] := List.map_eq_nil_iff.mp hr
    exact ⟨_, .single (.reset hheld hreset), rfl, rfl, rfl⟩
  | .inspect, .inspect | .sample, .sample | .sinceSample, .sinceSample _ => exact ⟨p, .refl, rfl, rfl, rfl⟩

/-- Requests that are answered one after the other are such steps. -/
theorem runAll_reaches {p : Stage δ n} {base : CacheStats} {rs : List Request}
    {answers : List Response × CacheStats} {cache : Cache δ n} {log : List Event}
    (hr : Request.StaysAll p.sectors rs) (hrun : Request.runAll base rs p.cache = ⟨.ok answers, cache, log⟩) :
    ∃ q, p.Done cache (Request.applyAll rs p.array).2 q := by
  match rs with
  | [] =>
    cases hrun
    exact ⟨p, .refl, rfl, rfl, rfl⟩
  | r :: rest =>
    rw [Request.applyAll]
    obtain ⟨answer, mid, answers, log₁, log₂, hfirst, hrest, rfl⟩ := Request.runAll_ok hrun
    obtain ⟨q, hq⟩ := run_reaches hr.1 hfirst
    have hstays : Request.StaysAll q.sectors rest := by
      rw [Stage.sectors, hq.held]
      exact hr.2
    rw [← hq.cache] at hrest
    obtain ⟨q', hq'⟩ := runAll_reaches hstays hrest
    refine ⟨q', hq.reaches.trans hq'.reaches, hq'.cache, hq'.held.trans hq.held, ?_⟩
    rw [hq'.array, hq.array]

end

end InodeStore.Cache
