import InodeStore.Proofs.Session.Moments
import InodeStore.Proofs.Session.Semantics

/-!
# `Proofs.Session.Turns` — what one call of a writer does

A call of a writer changes a moment in one of four ways: the right to lengthen a file is taken or given up
(`Moment.pass`), a sector is taken for it (`Moment.claim`), a block is written that only the holder of that
right may write (`Moment.put`), or a file on record changes (`Moment.file`). For each of them there is one
lemma that what stays true does (`Plan.Intact.pass` and so on), and one that it respects what the other parties
rely on. Most of the latter are about a file none of whose sectors changes (`Plan.Intact.respects_other`).
-/

namespace InodeStore

open Inode

/-- A sum in which one summand changes. -/
theorem sum_changed {s : Finset SectorId} {used used' : SectorId → Nat} {x : SectorId} (hx : x ∈ s)
    (h : ∀ z, z ≠ x → used' z = used z) :
    ∑ z ∈ s, used' z + used x = ∑ z ∈ s, used z + used' x := by
  have hrest : ∑ z ∈ s.erase x, used' z = ∑ z ∈ s.erase x, used z :=
    Finset.sum_congr rfl fun z hz => h z (Finset.ne_of_mem_erase hz)
  rw [← Finset.add_sum_erase s used hx, ← Finset.add_sum_erase s used' hx, hrest]
  omega

namespace Moment

/-- The right to lengthen a file is taken or given up. -/
def pass (m : Moment) (x : SectorId) (v : Option Nat) : Moment :=
  { m with
    plain := { m.plain with registry := (Registry.setGrowing ⟨x⟩ v.isSome m.plain.registry).state }
    holder := Function.update m.holder x v }

/-- A sector is taken for a file. -/
def claim (m : Moment) (x s : SectorId) : Moment :=
  { m with
    plain := { m.plain with freeMap := m.plain.freeMap.assign s.toNat true, took := s :: m.plain.took }
    archive := m.archive.reserve s
    loose := Function.update m.loose x (m.loose x ++ [s]) }

/-- A block is replaced. -/
def put (m : Moment) (y : SectorId) (b : Block) : Moment := { m with plain := m.plain.put y b }

/-- A block is replaced, and that makes the file one that owns some of the sectors that were taken for it. -/
def file (m : Moment) (x : SectorId) (f : FileRecord) (l kept : List SectorId) (y : SectorId) (b : Block) :
    Moment :=
  { m with
    plain := m.plain.put y b
    archive := m.archive.adopt x f l
    loose := Function.update m.loose x kept }

end Moment

namespace Plan

variable {P : Plan} {m m' : Moment} {x y z s : SectorId} {d : Descriptor} {f g : FileRecord} {t u : Nat}
  {spot : Spot} {b : Block} {v : Option Nat}

/-! ## Files that stay as they are -/

/-- The slots that a file has in use hold what they held. -/
def KeepsSlots (m : Moment) (x : SectorId) (b : SectorArray) : Prop :=
  ∀ spot ∈ m.spots x, ∀ up slot, spot.parent? = some (up, slot) →
    (b (m.sectorAt x up)).pointer slot = (m.plain.block (m.sectorAt x up)).pointer slot

/-- A descriptor of the file then leads to the same sectors. -/
theorem Intact.sectorOf_eq {b : SectorArray} (h : P.Intact m) (hx : m.archive.record? x = some f)
    (hd : m.Leads x d) (hslots : KeepsSlots m x b) :
    ∀ spot ∈ spots (dataBlocks d.size), sectorOf b d spot = sectorOf m.plain.block d spot := by
  have hn := dataBlocks_le (Nat.le_trans hd.size (h.size_le hx).2.2)
  refine sectorOf_congr (fun spot hspot up slot hp => parent_mem_spots hn hspot hp) (fun _ _ => rfl) ?_
  intro spot hspot up slot hp
  rw [hd.same up (parent_mem_spots hn hspot hp)]
  exact hslots spot (spots_mono (dataBlocks_mono hd.size) hspot) up slot hp

theorem Intact.leads (h : P.Intact m) (hx : m.archive.record? x = some f) :
    m.Leads x (m.descriptor x) :=
  ⟨Nat.le_of_eq (h.size_le hx).2.1, fun _ _ => rfl⟩

/-- What may be relied on for a file whose slots in use keep their sectors. -/
theorem Intact.respects (h : P.Intact m) (hx : m.archive.record? x = some f)
    (hdevelops : Develops P.jobs x (m.record x) (m'.record x)) (hslots : KeepsSlots m x m'.plain.block)
    (hsame : ∀ spot ∈ m.spots x, m'.sectorAt x spot = sectorOf m'.plain.block (m.descriptor x) spot)
    (hfree : m.holder x ≠ some t → m'.holder x ≠ some t)
    (hheld : m.holder x = some t → m'.holder x = some t ∧ m'.loose x = m.loose x ∧
      m'.size x = m.size x ∧ ∀ y, m.Frame x y → m'.plain.block y = m.plain.block y) :
    Respects P.jobs t m m' x := by
  have hdescriptor := (h.size_le hx).2.1
  have hall : ∀ spot ∈ m.spots x, m'.sectorAt x spot = m.sectorAt x spot := by
    intro spot hspot
    rw [hsame spot hspot]
    apply h.sectorOf_eq hx (h.leads hx) hslots
    rw [hdescriptor]
    exact hspot
  refine ⟨hdevelops, hall, ?_, hfree, hheld⟩
  intro d hd
  refine ⟨Nat.le_trans hd.size hdevelops.size, ?_⟩
  intro spot hspot
  rw [h.sectorOf_eq hx hd hslots spot hspot, hd.same spot hspot]
  exact (hall spot (spots_mono (dataBlocks_mono hd.size) hspot)).symm

/-- The sectors that a file's spots lead to are owned. -/
theorem Intact.owns_spot (h : P.Intact m) (hx : m.archive.record? x = some f) (hspot : spot ∈ m.spots x) :
    m.Owns x (m.sectorAt x spot) := by
  refine .inl ⟨f, hx, List.mem_append_left _ ?_⟩
  rw [← (h.fileAt hx).record.owned, (h.size_le hx).2.1]
  exact List.mem_map_of_mem hspot

theorem Intact.owns_self (hx : m.archive.record? x = some f) : m.Owns x x :=
  .inl ⟨f, hx, Archive.self_mem_sectors f x⟩

theorem Intact.parent_mem (h : P.Intact m) (hx : m.archive.record? x = some f) (hspot : spot ∈ m.spots x)
    {up : Spot} {slot : Fin 128} (hp : spot.parent? = some (up, slot)) : up ∈ m.spots x :=
  parent_mem_spots (dataBlocks_le (h.size_le hx).2.2) hspot hp

/-- **A file none of whose sectors changes** is as it was to everybody. -/
theorem Intact.respects_other (h : P.Intact m) (hrecord : m'.record x = m.record x)
    (hholder : m'.holder x = m.holder x) (hloose : m'.loose x = m.loose x)
    (hblock : ∀ y, m.Owns x y → m'.plain.block y = m.plain.block y) (t : Nat) :
    Respects P.jobs t m m' x := by
  have hsize : m'.size x = m.size x := congrArg (fun f => f.bytes.size) hrecord
  cases hx : m.archive.record? x with
  | none =>
    -- there is no file, and nobody lengthens it
    have hzero : m.size x = 0 := congrArg (fun f => f.bytes.size) (congrArg (Option.getD · _) hx)
    have hspots : m.spots x = [] := by
      unfold Moment.spots
      rw [hzero]
      rfl
    have hdead : ¬ (P.archive.record? x).isSome = true := by
      rw [← h.live, hx]
      exact Bool.false_ne_true
    refine ⟨hrecord ▸ .refl _ _ _, ?_, ?_, fun hne => hholder ▸ hne, ?_⟩
    · intro spot hspot
      rw [hspots] at hspot
      cases hspot
    · intro d hd
      refine ⟨hsize ▸ hd.size, ?_⟩
      intro spot hspot
      have hempty : d.size = 0 := Nat.le_zero.mp (hzero ▸ hd.size)
      rw [hempty] at hspot
      cases hspot
    · intro hheld
      exact absurd (P.live_of_mem (h.holder hheld).2) hdead
  | some f =>
    have hself := hblock x (Intact.owns_self hx)
    have hdescriptor : m'.descriptor x = m.descriptor x := congrArg Descriptor.decode hself
    refine h.respects hx (hrecord ▸ .refl _ _ _) ?_ ?_ (fun hne => hholder ▸ hne) ?_
    · intro spot hspot up slot hp
      rw [hblock _ (h.owns_spot hx (h.parent_mem hx hspot hp))]
    · intro spot _
      rw [Moment.sectorAt, hdescriptor]
    · intro hheld
      refine ⟨hholder.trans hheld, hloose, hsize, ?_⟩
      rintro y (rfl | hy | ⟨spot, hspot, -, rfl⟩)
      · exact hself
      · exact hblock y (.inr hy)
      · exact hblock _ (h.owns_spot hx hspot)

/-! ## The right to lengthen a file -/

theorem Intact.lists_pass (h : P.Intact m) (hx : x ∈ filesOf P.jobs) (v : Option Nat) :
    (m.pass x v).plain.registry.Lists fun z =>
      (P.archive.open? z).map fun inode => { inode with growing := ((m.pass x v).holder z).isSome } := by
  obtain ⟨j, hj, rfl⟩ := mem_filesOf.mp hx
  obtain ⟨-, inode, hinode, -⟩ := P.of_job hj
  have hlists := h.lists.change j.sector fun inode => { inode with growing := v.isSome }
  refine cast (congrArg _ (funext fun z => ?_)) hlists
  rw [hinode]
  by_cases hz : z = j.sector
  · subst hz
    simp [Moment.pass, hinode]
  · simp [Moment.pass, Function.update_of_ne hz]

theorem Intact.pass (h : P.Intact m) (hx : x ∈ filesOf P.jobs) (hloose : m.loose x = [])
    (hv : ∀ t, v = some t → t < P.parties) : P.Intact (m.pass x v) := by
  refine { h with lists := h.lists_pass hx v, unheld := ?_, holder := ?_ }
  · intro z hz
    by_cases he : z = x
    · exact he ▸ hloose
    · exact h.unheld ((Function.update_of_ne he _ _).symm.trans hz)
  · intro z t hz
    by_cases he : z = x
    · subst he
      rw [show (m.pass z v).holder z = v from Function.update_self _ _ _] at hz
      exact ⟨hv t hz, hx⟩
    · exact h.holder ((Function.update_of_ne he _ _).symm.trans hz)

theorem Intact.respects_pass (h : P.Intact m) (hx : m.archive.record? x = some f)
    (hbefore : m.holder x ≠ some u) (hafter : v ≠ some u) : ∀ z, Respects P.jobs u m (m.pass x v) z := by
  intro z
  by_cases hz : z = x
  · subst hz
    refine h.respects hx (.refl _ _ _) (fun _ _ _ _ _ => rfl) (fun _ _ => rfl) ?_
      fun he => absurd he hbefore
    rw [show (m.pass z v).holder z = v from Function.update_self _ _ _]
    exact fun _ => hafter
  · refine h.respects_other ?_ (Function.update_of_ne hz _ _) ?_ ?_ u
    · rfl
    · rfl
    · exact fun _ _ => rfl

/-! ## A sector more -/

/-- The sector that is taken next belongs to nobody. -/
theorem Intact.not_owns (h : P.Intact m) (hs : m.plain.freeMap.nextFree? = some s) :
    ¬ m.Owns z s := by
  intro hz
  have hfree := h.represents.lawful.nextFree?_free hs
  have htaken := (h.permits hz).2 rfl
  rw [show ({ m.plain with registry := P.plain.registry } : Plain).freeMap = m.plain.freeMap from rfl]
    at hfree
  rw [hfree] at htaken
  cases htaken

/-- What is in use in the end is what is in use before and what all jobs take together. -/
theorem growth_add (P : Plan) : P.archive.ledger.growth P.jobs +
    ∑ z ∈ filesOf P.jobs, totalBlocks (P.archive.record ⟨z⟩).bytes.size =
      ∑ z ∈ filesOf P.jobs, totalBlocks (P.target z) := by
  unfold Ledger.growth
  rw [← Finset.sum_add_distrib]
  refine Finset.sum_congr rfl fun z _ => ?_
  rw [P.archive.ledger_file]
  exact Nat.sub_add_cancel (totalBlocks_mono (P.le_target z))

/-- **There is a free sector** as long as a file is not as long as in the end. -/
theorem Intact.room (h : P.Intact m) (hx : x ∈ filesOf P.jobs) (hused : m.used x < totalBlocks (P.target x)) :
    ∃ s, m.plain.freeMap.nextFree? = some s := by
  have hlt := Finset.sum_lt_sum (s := filesOf P.jobs) (fun z _ => h.used z) ⟨x, hx, hused⟩
  have hgrowth := P.growth_add
  have hcount := h.count
  have hroom := P.grants.room
  exact h.represents.lawful.nextFree?_of_pos (show 0 < m.plain.freeMap.freeCount by omega)

theorem Intact.used_claim (m : Moment) (x s : SectorId) :
    (m.claim x s).used x = m.used x + 1 ∧ ∀ z, z ≠ x → (m.claim x s).used z = m.used z := by
  constructor
  · show totalBlocks (m.size x) + (Function.update m.loose x (m.loose x ++ [s]) x).length = _
    rw [Function.update_self, List.length_append, List.length_singleton]
    rfl
  · intro z hz
    show totalBlocks (m.size z) + (Function.update m.loose x (m.loose x ++ [s]) z).length = _
    rw [Function.update_of_ne hz]
    rfl

theorem Intact.mem_loose_claim :
    y ∈ (m.claim x s).loose z ↔ y ∈ m.loose z ∨ z = x ∧ y = s := by
  show y ∈ Function.update m.loose x (m.loose x ++ [s]) z ↔ _
  by_cases hz : z = x
  · subst hz
    simp
  · simp [hz]

/-- **A sector is taken** for a file by the party that lengthens it. -/
theorem Intact.claim (h : P.Intact m) (hheld : m.holder x = some t)
    (hs : m.plain.freeMap.nextFree? = some s) (hroom : m.used x < totalBlocks (P.target x)) :
    P.Intact (m.claim x s) := by
  have hmap : m.plain.freeMap = m.archive.freeMap := h.represents.freeMap
  have hfree : m.archive.freeMap.taken s.toNat = false :=
    hmap ▸ h.represents.lawful.nextFree?_free hs
  have hnone : ∀ {z}, s ∉ m.loose z := fun hz => h.not_owns hs (.inr hz)
  have hspare := (h.represents.sound.nothing_free hfree).2
  have hbase : P.archive.spare s = false := by
    refine Bool.eq_false_iff.mpr fun hbase => ?_
    rw [(h.spare s).mpr (.inl hbase)] at hspare
    cases hspare
  obtain ⟨hself, hother⟩ := Intact.used_claim m x s
  constructor
  case represents =>
    have hsectors := h.represents.sound.sectors_reserve hfree
    exact ⟨h.represents.sound.reserve hfree, congrArg (·.takeAll [s]) hmap,
      Nat.le_trans (Nat.le_of_eq hsectors) h.represents.fits, h.represents.lists, h.represents.record⟩
  case lists => exact h.lists
  case isOpen => exact h.isOpen
  case live => exact h.live
  case develops => exact h.develops
  case target => exact h.target
  case spare =>
    intro y
    have hreserve : (m.claim x s).archive.spare y = true ↔ y = s ∨ m.archive.spare y = true := by
      show Function.update m.archive.spare s true y = true ↔ _
      by_cases hy : y = s
      · simp [hy]
      · simp [hy]
    rw [hreserve, h.spare]
    simp only [Intact.mem_loose_claim]
    grind
  case fresh =>
    intro z y hy
    rcases Intact.mem_loose_claim.mp hy with hy | ⟨-, rfl⟩
    · exact h.fresh hy
    · exact hbase
  case nodup =>
    intro z
    show (Function.update m.loose x (m.loose x ++ [s]) z).Nodup
    by_cases hz : z = x
    · subst hz
      rw [Function.update_self]
      refine List.nodup_append.mpr ⟨h.nodup z, List.nodup_singleton s, ?_⟩
      intro y hy y' hy' he
      rw [List.mem_singleton.mp hy'] at he
      exact hnone (he ▸ hy)
    · rw [Function.update_of_ne hz]
      exact h.nodup z
  case apart =>
    intro z z' y hy hy'
    rcases Intact.mem_loose_claim.mp hy with hold | ⟨hz, hnew⟩
    · rcases Intact.mem_loose_claim.mp hy' with hold' | ⟨-, hnew'⟩
      · exact h.apart hold hold'
      · exact absurd (hnew' ▸ hold) hnone
    · rcases Intact.mem_loose_claim.mp hy' with hold' | ⟨hz', -⟩
      · exact absurd (hnew ▸ hold') hnone
      · exact hz.trans hz'.symm
  case unheld =>
    intro z hz
    have hne : z ≠ x := by
      rintro rfl
      rw [show (m.claim z s).holder z = m.holder z from rfl, hheld] at hz
      cases hz
    show Function.update m.loose x (m.loose x ++ [s]) z = []
    rw [Function.update_of_ne hne]
    exact h.unheld hz
  case holder => exact h.holder
  case used =>
    intro z
    by_cases hz : z = x
    · rw [hz, hself]
      exact hroom
    · rw [hother z hz]
      exact h.used z
  case count =>
    have hcount : (m.claim x s).plain.freeMap.freeCount + 1 = m.plain.freeMap.freeCount :=
      FreeMap.freeCount_assign (hmap ▸ hfree)
    have hsum := sum_changed (h.holder hheld).2 hother
    have := h.count
    omega

theorem Intact.respects_claim (h : P.Intact m) (hheld : m.holder x = some t) (hu : u ≠ t) :
    ∀ z, Respects P.jobs u m (m.claim x s) z := by
  intro z
  by_cases hz : z = x
  · subst hz
    have hne : m.holder z ≠ some u := fun he => hu (Option.some.inj (he.symm.trans hheld))
    exact h.respects (h.record? (P.live_of_mem (h.holder hheld).2)) (.refl _ _ _) (fun _ _ _ _ _ => rfl)
      (fun _ _ => rfl) id fun he => absurd he hne
  · refine h.respects_other ?_ ?_ (Function.update_of_ne hz _ _) ?_ u
    · rfl
    · rfl
    · exact fun _ _ => rfl

/-! ## Blocks that nobody but the party that lengthens the file changes -/

theorem Intact.owns_frame (h : P.Intact m) (hx : m.archive.record? x = some f) (hy : m.Frame x y) :
    m.Owns x y := by
  rcases hy with rfl | hy | ⟨spot, hspot, -, rfl⟩
  · exact Intact.owns_self hx
  · exact .inr hy
  · exact h.owns_spot hx hspot

/-- What was taken for a file is not on record. -/
theorem Intact.not_on_record (h : P.Intact m) (hy : y ∈ m.loose z) (hx : m.archive.record? x = some f) :
    y ∉ f.sectors x :=
  (h.represents.sound.spare ((h.spare y).mpr (.inr ⟨z, hy⟩))).2.2 hx

theorem Intact.mem_spots (h : P.Intact m) (hx : m.archive.record? x = some f) :
    spot ∈ spots (dataBlocks (m.descriptor x).size) ↔ spot ∈ m.spots x := by
  rw [(h.size_le hx).2.1]
  exact Iff.rfl

/-- The sectors at the spots of a file are told apart. -/
theorem Intact.spot_injective (h : P.Intact m) (hx : m.archive.record? x = some f) {spot' : Spot}
    (hspot : spot ∈ m.spots x) (hspot' : spot' ∈ m.spots x)
    (he : m.sectorAt x spot = m.sectorAt x spot') : spot = spot' :=
  (h.fileAt hx).hung.injective ((h.mem_spots hx).mpr hspot) ((h.mem_spots hx).mpr hspot') he

/-- The descriptor is none of the blocks that it leads to. -/
theorem Intact.spot_ne (h : P.Intact m) (hx : m.archive.record? x = some f) (hspot : spot ∈ m.spots x) :
    m.sectorAt x spot ≠ x := by
  intro he
  have hmem : m.sectorAt x spot ∈ f.owned := by
    rw [← (h.fileAt hx).record.owned]
    exact List.mem_map_of_mem ((h.mem_spots hx).mpr hspot)
  exact (h.fileAt hx).own (he ▸ hmem)

/-- Data blocks are not among the blocks that only one party changes. -/
theorem Intact.data_not_frame (h : P.Intact m) (hx : m.archive.record? x = some f)
    (hspot : spot ∈ m.spots x) (hdata : spot.isIndex = false) : ¬ m.Frame x (m.sectorAt x spot) := by
  rintro (he | hloose | ⟨spot', hspot', hindex, he⟩)
  · exact h.spot_ne hx hspot he
  · apply h.not_on_record hloose hx
    refine List.mem_append_left _ ?_
    rw [← (h.fileAt hx).record.owned]
    exact List.mem_map_of_mem ((h.mem_spots hx).mpr hspot)
  · rw [← h.spot_injective hx hspot hspot' he, hdata] at hindex
    cases hindex

/-- A file stays on record when a block is replaced that it does not own. -/
theorem Intact.onRecord_put (h : P.Intact m) (hy : m.Owns x y) (hne : z ≠ x)
    (hz : m.archive.record? z = some g) (b : Block) :
    OnRecord (m.plain.put y b).block z (m.descriptor z) g := by
  have hother : ∀ w ∈ g.sectors z, (m.plain.put y b).block w = m.plain.block w := by
    intro w hw
    apply m.plain.block_put_of_ne
    rintro rfl
    exact hne (h.owner_unique (.inl ⟨g, hz, hw⟩) hy)
  exact (h.fileAt hz).record.frame (hother z (Archive.self_mem_sectors g z)) fun w hw =>
    hother w (List.mem_append_left _ hw)

section Put

variable (h : P.Intact m) (hheld : m.holder x = some t) (hy : m.Frame x y) (hne : y ≠ x)
  (hslots : KeepsSlots m x (m.put y b).plain.block)
include h hheld hy hne hslots

/-- **An index block or a sector that was taken** is written to. -/
theorem Intact.put : P.Intact (m.put y b) := by
  have hx := h.record? (P.live_of_mem (h.holder hheld).2)
  have hself : (m.put y b).plain.block x = m.plain.block x := m.plain.block_put_of_ne hne.symm b
  refine { h with represents := { h.represents with record := ?_ } }
  intro z g hz
  refine ⟨m.descriptor z, ?_⟩
  by_cases he : z = x
  · subst he
    refine (h.fileAt hz).record.congr hself ?_ ?_
    · exact h.sectorOf_eq hz (h.leads hz) hslots
    · intro place hplace
      have hspot := (h.mem_spots hz).mp
        (data_mem_spots (dataBlocks_le (h.fileAt hz).record.stored.size) hplace)
      apply m.plain.block_put_of_ne
      intro he
      have hdata := h.data_not_frame hz hspot rfl
      rw [show m.sectorAt z (.data place) = y from he] at hdata
      exact hdata hy
  · exact h.onRecord_put (h.owns_frame hx hy) he hz b

theorem Intact.respects_put (hu : u ≠ t) : ∀ z, Respects P.jobs u m (m.put y b) z := by
  intro z
  have hx := h.record? (P.live_of_mem (h.holder hheld).2)
  by_cases hz : z = x
  · subst hz
    have hother : m.holder z ≠ some u := fun he => hu (Option.some.inj (he.symm.trans hheld))
    have hdescriptor : (m.put y b).descriptor z = m.descriptor z :=
      congrArg Descriptor.decode (m.plain.block_put_of_ne hne.symm b)
    refine h.respects hx (.refl _ _ _) hslots ?_ id fun he => absurd he hother
    intro spot _
    rw [Moment.sectorAt, hdescriptor]
  · refine h.respects_other ?_ ?_ ?_ ?_ u
    · rfl
    · rfl
    · rfl
    · intro w hw
      apply m.plain.block_put_of_ne
      rintro rfl
      exact hz (h.owner_unique hw (h.owns_frame hx hy))

end Put

/-! ## Files that change -/

section File

variable {l kept : List SectorId}

theorem record_file (m : Moment) (x : SectorId) (f : FileRecord) (l kept : List SectorId) (y : SectorId)
    (b : Block) : (m.file x f l kept y b).record x = f ∧
      ∀ z, z ≠ x → (m.file x f l kept y b).record z = m.record z := by
  constructor
  · show (Function.update m.archive.record? x (some f) x).getD _ = f
    rw [Function.update_self]
    rfl
  · intro z hz
    show (Function.update m.archive.record? x (some f) z).getD _ = _
    rw [Function.update_of_ne hz]
    rfl

variable (h : P.Intact m) (hx : m.archive.record? x = some g) (hy : m.Owns x y)
  (hloose : m.loose x = l ++ kept)
include h hx hloose

theorem Intact.spare_file :
    (m.file x f l kept y b).archive.spare s = true ↔
      P.archive.spare s = true ∨ ∃ z, s ∈ (m.file x f l kept y b).loose z := by
  have hnodup := h.nodup x
  rw [hloose] at hnodup
  have hadopt : (m.file x f l kept y b).archive.spare s = true ↔ m.archive.spare s = true ∧ s ∉ l := by
    show (m.archive.spare s && !decide (s ∈ l)) = true ↔ _
    simp
  have hmem : ∀ z, s ∈ (m.file x f l kept y b).loose z ↔ z = x ∧ s ∈ kept ∨ z ≠ x ∧ s ∈ m.loose z := by
    intro z
    show s ∈ Function.update m.loose x kept z ↔ _
    by_cases hz : z = x
    · simp [hz]
    · simp [hz]
  simp only [hadopt, hmem, h.spare]
  constructor
  · rintro ⟨hbase | ⟨z, hz⟩, hl⟩
    · exact .inl hbase
    · by_cases he : z = x
      · subst he
        rw [hloose] at hz
        exact .inr ⟨z, .inl ⟨rfl, (List.mem_append.mp hz).resolve_left hl⟩⟩
      · exact .inr ⟨z, .inr ⟨he, hz⟩⟩
  · rintro (hbase | ⟨z, ⟨rfl, hkept⟩ | ⟨hne, hz⟩⟩)
    · refine ⟨.inl hbase, fun hl => ?_⟩
      rw [h.fresh (hloose ▸ List.mem_append_left _ hl)] at hbase
      cases hbase
    · refine ⟨.inr ⟨z, hloose ▸ List.mem_append_right _ hkept⟩, fun hl => ?_⟩
      exact (List.nodup_append.mp hnodup).2.2 s hl s hkept rfl
    · exact ⟨.inr ⟨z, hz⟩, fun hl => hne (h.apart hz (hloose ▸ List.mem_append_left _ hl))⟩

include hy

/-- **A file changes** and takes over some of the sectors that were taken for it. -/
theorem Intact.file (hrecord : OnRecord (m.plain.put y b).block x d f)
    (hnodup : (f.sectors x).Nodup) (hmem : ∀ s, s ∈ f.sectors x ↔ s ∈ g.sectors x ∨ s ∈ l)
    (hdevelops : Develops P.jobs x g f) (htarget : f.bytes.size ≤ P.target x)
    (hused : totalBlocks f.bytes.size = totalBlocks g.bytes.size + l.length) :
    P.Intact (m.file x f l kept y b) := by
  obtain ⟨hself, hother⟩ := record_file m x f l kept y b
  have hold : m.record x = g := congrArg (Option.getD · _) hx
  have hspare : ∀ s ∈ l, m.archive.spare s = true := fun s hs =>
    (h.spare s).mpr (.inr ⟨x, hloose ▸ List.mem_append_left _ hs⟩)
  have hkept : ∀ {z}, z ≠ x → (m.file x f l kept y b).loose z = m.loose z :=
    fun hz => Function.update_of_ne hz _ _
  have hkept' : (m.file x f l kept y b).loose x = kept := Function.update_self _ _ _
  have hsub : ∀ {z s}, s ∈ (m.file x f l kept y b).loose z → s ∈ m.loose z := by
    intro z s hs
    by_cases hz : z = x
    · rw [hz, hkept'] at hs
      rw [hz, hloose]
      exact List.mem_append_right _ hs
    · rwa [hkept hz] at hs
  have hsame : ∀ z, (m.file x f l kept y b).used z = m.used z := by
    intro z
    unfold Moment.used Moment.size
    by_cases hz : z = x
    · rw [hz, hself, hkept', hused, hold, hloose, List.length_append]
      omega
    · rw [hother z hz, hkept hz]
  constructor
  case represents =>
    refine ⟨h.represents.sound.adopt hx hnodup hmem hspare, h.represents.freeMap, h.represents.fits,
      h.represents.lists, ?_⟩
    intro z g' hz
    rcases Archive.record?_adopt hz with ⟨rfl, rfl⟩ | ⟨hne, hz⟩
    · exact ⟨d, hrecord⟩
    · exact ⟨_, h.onRecord_put hy hne hz b⟩
  case lists => exact h.lists
  case isOpen => exact h.isOpen
  case live =>
    intro z
    rw [← h.live]
    show (Function.update m.archive.record? x (some f) z).isSome = _
    by_cases hz : z = x
    · rw [hz, Function.update_self, hx]
      rfl
    · rw [Function.update_of_ne hz]
  case develops =>
    intro z
    by_cases hz : z = x
    · rw [hz, hself]
      exact (h.develops x).trans (hold ▸ hdevelops)
    · rw [hother z hz]
      exact h.develops z
  case target =>
    intro z
    unfold Moment.size
    by_cases hz : z = x
    · rw [hz, hself]
      exact htarget
    · rw [hother z hz]
      exact h.target z
  case spare => exact fun s => h.spare_file hx hloose
  case fresh => exact fun hs => h.fresh (hsub hs)
  case nodup =>
    intro z
    by_cases hz : z = x
    · have hnodup := h.nodup x
      rw [hloose] at hnodup
      rw [hz, hkept']
      exact (List.nodup_append.mp hnodup).2.1
    · rw [hkept hz]
      exact h.nodup z
  case apart => exact fun hs hs' => h.apart (hsub hs) (hsub hs')
  case unheld =>
    intro z hz
    have hempty := h.unheld hz
    exact List.eq_nil_iff_forall_not_mem.mpr fun s hs => by
      have := hsub hs
      rw [hempty] at this
      cases this
  case holder => exact h.holder
  case used => exact fun z => hsame z ▸ h.used z
  case count =>
    rw [Finset.sum_congr rfl fun z _ => hsame z]
    exact h.count

end File

/-- Nobody notices that another file changes. -/
theorem Intact.respects_file (h : P.Intact m) (hy : m.Owns x y) (hz : z ≠ x) (l kept : List SectorId) :
    Respects P.jobs u m (m.file x f l kept y b) z := by
  refine h.respects_other ((record_file m x f l kept y b).2 z hz) ?_ (Function.update_of_ne hz _ _) ?_ u
  · rfl
  · intro w hw
    apply m.plain.block_put_of_ne
    rintro rfl
    exact hz (h.owner_unique hw hy)

end Plan

end InodeStore
