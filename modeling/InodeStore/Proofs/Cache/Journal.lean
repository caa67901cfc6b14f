import InodeStore.Proofs.Cache.Following
import InodeStore.Proofs.Cache.Nesting

/-!
# `Proofs.Cache.Journal` — a record of what is written to a device

A cache sees of its device what it answers. So if every answer of a device is also that of what a function
makes of it (`Mirrors`), each operation does to a cache in front of the one what it does to a cache in front
of the other (`Mirrored`), and a party can do with both the same (`Step.mapDevice`, `Step.of_mapDevice`).

`Journaled δ` is a device `δ` that keeps a record of what is written to it. The record changes no answer, so
what is found in the journal after some work is what the device `δ` was told in the course of it.
-/

namespace InodeStore

variable {δ ε : Type} [BlockDevice δ] [BlockDevice ε]

/-- What `mirror` makes of a device answers like the device. -/
structure Mirrors (mirror : δ → ε) : Prop where
  read (s : SectorId) (d : δ) : BlockDevice.read s (mirror d) =
    ((BlockDevice.read s d).1, mirror (BlockDevice.read s d).2)
  write (s : SectorId) (b : Block) (d : δ) : BlockDevice.write s b (mirror d) =
    ((BlockDevice.write s b d).1, mirror (BlockDevice.write s b d).2)

/-- A device is shadowed by what `mirror` makes of it. -/
theorem Mirrors.shadows {mirror : δ → ε} (h : Mirrors mirror) :
    Shadows (fun _ => True) (fun d e => e = mirror d) where
  read_before := id
  write_before := id
  read := by
    rintro s d _ rfl -
    exact ⟨_, h.read s d, rfl⟩
  write := by
    rintro s b d _ rfl -
    exact ⟨_, h.write s b d, rfl⟩

/-! ## Caches in front of devices that answer alike -/

namespace Cache

section Mirrored

omit [BlockDevice δ] [BlockDevice ε]

variable {n : Nat} {α : Type} {mirror : δ → ε} {action : Action (Cache δ n) α} {action' : Action (Cache ε n) α}

/-- The second action is the first one in front of the other device. -/
def Mirrored (mirror : δ → ε) (action : Action (Cache δ n) α) (action' : Action (Cache ε n) α) : Prop :=
  ∀ cache, action' (cache.mapDevice mirror) =
    ⟨(action cache).result, (action cache).state.mapDevice mirror, (action cache).log⟩

namespace Mirrored

theorem of_follows (h : Follows (fun _ => True) (fun d e => e = mirror d) action action') :
    Mirrored mirror action action' := by
  intro cache
  obtain ⟨_, hrun, _, rfl, rfl⟩ := h.same (s := cache) ⟨_, rfl, rfl⟩ trivial
  exact hrun

/-- If one of the actions ends well, so does the other. -/
theorem ok (h : Mirrored mirror action action') (cache : Cache δ n) {cache' : Cache ε n} {a : α}
    {log : List Event} (hrun : action' (cache.mapDevice mirror) = ⟨.ok a, cache', log⟩) :
    ∃ cache₁, action cache = ⟨.ok a, cache₁, log⟩ ∧ cache₁.mapDevice mirror = cache' := by
  rw [h cache] at hrun
  obtain ⟨hresult, hstate, hlog⟩ := Reply.mk.inj hrun
  exact ⟨(action cache).state, by rw [← hresult, ← hlog], hstate⟩

theorem run (h : Mirrored mirror action action') {cache cache' : Cache δ n} {result : Except Fault α}
    {log : List Event} (hrun : action cache = ⟨result, cache', log⟩) :
    action' (cache.mapDevice mirror) = ⟨result, cache'.mapDevice mirror, log⟩ := by
  rw [h cache, hrun]

end Mirrored

end Mirrored

variable {n : Nat} {mirror : δ → ε}

theorem acquire_mirrored (h : Mirrors mirror) (fill : Fill) (s : SectorId) :
    Mirrored (n := n) mirror (acquire fill s) (acquire fill s) := .of_follows (acquire_follows h.shadows fill s)

theorem flush_mirrored (h : Mirrors mirror) : Mirrored (n := n) mirror flush flush :=
  .of_follows (flush_follows h.shadows)

theorem reset_mirrored (h : Mirrors mirror) : Mirrored (n := n) mirror reset reset :=
  .of_follows (reset_follows h.shadows)

/-! ### Stages -/

/-- The same stage in front of another device. -/
def Stage.mapDevice (mirror : δ → ε) (p : Stage δ n) : Stage ε n :=
  ⟨p.cache.mapDevice mirror, p.held, p.array, p.recent, p.earlier⟩

omit [BlockDevice δ] [BlockDevice ε] in
theorem Stage.mapDevice_enter (p : Stage δ n) (purpose : Purpose) (s : SectorId) (i : Fin n) (taken : Cache δ n) :
    (p.enter purpose s i taken).mapDevice mirror = (p.mapDevice mirror).enter purpose s i (taken.mapDevice mirror) := by
  cases purpose <;> rfl

/-- A step is one in front of the other device too. -/
theorem Step.mapDevice (h : Mirrors mirror) {p q : Stage δ n} (hstep : Step p q) :
    Step (p.mapDevice mirror) (q.mapDevice mirror) := by
  cases hstep with
  | enter purpose hs hrun =>
    rw [Stage.mapDevice_enter]
    exact .enter (p := p.mapDevice mirror) purpose hs ((acquire_mirrored h _ _).run hrun)
  | amend hheld hpurpose change => exact .amend (p := p.mapDevice mirror) hheld hpurpose change
  | leave hheld => exact .leave (p := p.mapDevice mirror) hheld
  | flush hheld hrun => exact .flush (p := p.mapDevice mirror) hheld ((flush_mirrored h).run hrun)
  | reset hheld hrun => exact .reset (p := p.mapDevice mirror) hheld ((reset_mirrored h).run hrun)

/-- A step in front of the other device is one in front of this one. -/
theorem Step.of_mapDevice (h : Mirrors mirror) {p : Stage δ n} {q' : Stage ε n} (hstep : Step (p.mapDevice mirror) q') :
    ∃ q, Step p q ∧ q.mapDevice mirror = q' := by
  cases hstep with
  | enter purpose hs hrun =>
    obtain ⟨taken, htaken, rfl⟩ := (acquire_mirrored h _ _).ok p.cache hrun
    exact ⟨_, .enter purpose hs htaken, Stage.mapDevice_enter _ _ _ _ _⟩
  | amend hheld hpurpose change => exact ⟨_, .amend (p := p) hheld hpurpose change, rfl⟩
  | leave hheld => exact ⟨_, .leave (p := p) hheld, rfl⟩
  | flush hheld hrun =>
    obtain ⟨flushed, hflushed, rfl⟩ := (flush_mirrored h).ok p.cache hrun
    exact ⟨_, .flush (p := p) hheld hflushed, rfl⟩
  | reset hheld hrun =>
    obtain ⟨emptied, hemptied, rfl⟩ := (reset_mirrored h).ok p.cache hrun
    exact ⟨_, .reset (p := p) hheld hemptied, rfl⟩

/-- **The same can be done** in front of both devices. -/
theorem reaches_mapDevice (h : Mirrors mirror) {p : Stage δ n} {q' : Stage ε n} :
    Reaches (p.mapDevice mirror) q' ↔ ∃ q, Reaches p q ∧ q.mapDevice mirror = q' := by
  constructor
  · intro hreach
    induction hreach with
    | refl => exact ⟨p, .refl, rfl⟩
    | tail _ hstep ih =>
      obtain ⟨q, hq, rfl⟩ := ih
      obtain ⟨r, hr, rfl⟩ := hstep.of_mapDevice h
      exact ⟨r, hq.tail hr, rfl⟩
  · rintro ⟨q, hreach, rfl⟩
    induction hreach with
    | refl => exact .refl
    | tail _ hstep ih => exact ih.tail (hstep.mapDevice h)

end Cache

/-! ## The journal -/

/-- A device that keeps a record of what is written to it. -/
structure Journaled (δ : Type) where
  device : δ
  /-- The sectors that were written and their new content, the last one first. -/
  written : List (SectorId × Block)

namespace Journaled

instance : BlockDevice (Journaled δ) where
  sectorCount journaled := BlockDevice.sectorCount journaled.device
  read s journaled :=
    ((BlockDevice.read s journaled.device).1,
      { journaled with device := (BlockDevice.read s journaled.device).2 })
  write s b journaled :=
    match BlockDevice.write s b journaled.device with
    | (.ok (), device) => (.ok (), ⟨device, (s, b) :: journaled.written⟩)
    | (.error e, device) => (.error e, ⟨device, journaled.written⟩)

instance [LawfulDevice δ] : LawfulDevice (Journaled δ) where
  Sound journaled := LawfulDevice.Sound journaled.device
  block journaled := LawfulDevice.block journaled.device
  read_eq {journaled s} hd hs := by
    obtain ⟨d, hread, hsound, hcount, hblock⟩ := LawfulDevice.read_eq hd hs
    refine ⟨{ journaled with device := d }, ?_, hsound, hcount, hblock⟩
    show ((BlockDevice.read s journaled.device).1, ({ journaled with device := _ } : Journaled δ)) = _
    rw [hread]
  write_eq {journaled s} b hd hs := by
    obtain ⟨d, hwrite, hsound, hcount, hblock⟩ := LawfulDevice.write_eq b hd hs
    refine ⟨⟨d, (s, b) :: journaled.written⟩, ?_, hsound, hcount, hblock⟩
    simp only [BlockDevice.write, hwrite]

/-- The record changes no answer. -/
theorem mirrors : Mirrors (Journaled.device (δ := δ)) where
  read _ _ := rfl
  write s b journaled := by
    have hwrite : BlockDevice.write s b journaled =
        match BlockDevice.write s b journaled.device with
        | (.ok (), device) => (.ok (), (⟨device, (s, b) :: journaled.written⟩ : Journaled δ))
        | (.error e, device) => (.error e, ⟨device, journaled.written⟩) := rfl
    rw [hwrite]
    rcases BlockDevice.write s b journaled.device with ⟨_ | ⟨⟩, d⟩ <;> rfl

end Journaled

end InodeStore
