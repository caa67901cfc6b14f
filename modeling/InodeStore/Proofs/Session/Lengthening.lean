import InodeStore.Proofs.Session.Turns

/-!
# `Proofs.Session.Lengthening` — where a party stands that lengthens a file

A party that lengthens a file fills spots that the file on record does not have, one after the other.
`Lengthening` is where it stands in between: its own copy of the descriptor leads to the spots of the file
and to those filled so far, all else that was taken is `pending`. `σ` are the sectors at these spots; they
stay the same, whatever the others do (`Lengthening.later`), since nobody else changes an index block of
the file or a sector that was taken for it.

A sector is taken, filled with zeros and put at the spot that is due (`Prepared.hung`). When no spot is
left (`Grown`), saving the descriptor puts the longer file on record (`Grown.saved`). Parties that have a
copy of an older descriptor can go on with it all the time, for the slots in use keep their numbers.
-/

namespace InodeStore

open Inode

/-- A sector was put at a spot of a file. -/
def Moment.hung (m : Moment) (d : Descriptor) (spot : Spot) (s : SectorId) : Moment :=
  { m with plain := { m.plain with block := hang m.plain.block d spot s } }

/-- The file on record at the end of a growth. -/
def Moment.longer (m : Moment) (x : SectorId) (length : Nat) : FileRecord :=
  ⟨(m.record x).isDir, padded (m.record x).bytes length, (m.record x).owned ++ m.loose x⟩

/-- The moment at which it goes on record. -/
def Moment.saved (m : Moment) (x : SectorId) (d : Descriptor) (length : Nat) : Moment :=
  m.file x (m.longer x length) (m.loose x) [] x (lengthened d length).encode

theorem Moment.descriptor_saved (m : Moment) (x : SectorId) (d : Descriptor) (length : Nat) :
    (m.saved x d length).descriptor x = lengthened d length := by
  show Descriptor.decode ((m.plain.put x _).block x) = _
  rw [m.plain.block_put_self, Descriptor.decode_encode]

namespace Plan

variable {P : Plan} {m m' : Moment} {t n : Nat} {x y s : SectorId} {d : Descriptor}
  {σ : Spot → SectorId} {l rest : List Spot} {pending pending' : List SectorId} {spot up : Spot}
  {slot : Fin 128}

/-! ## Where a party stands that lengthens a file -/

/-- A party lengthens a file of `n` bytes. Its descriptor leads to the file's spots and to `l`, which are
    filled; no file on record has these. -/
structure Lengthening (t : Nat) (x : SectorId) (n : Nat) (σ : Spot → SectorId) (d : Descriptor)
    (l : List Spot) (pending : List SectorId) (m : Moment) : Prop where
  holder : m.holder x = some t
  only : ∀ {z}, m.holder z = some t → z = x
  size : m.size x = n
  isDir : d.isDir = (m.descriptor x).isDir
  length : d.length = (m.descriptor x).length
  magic : d.magic = (m.descriptor x).magic
  loose : m.loose x = l.map σ ++ pending
  leads : ∀ u ∈ spots (dataBlocks n) ++ l, sectorOf m.plain.block d u = σ u
  same : ∀ u ∈ spots (dataBlocks n), m.sectorAt x u = σ u
  closed : ∀ u ∈ spots (dataBlocks n) ++ l, ∀ up slot, u.parent? = some (up, slot) →
    up ∈ spots (dataBlocks n) ++ l
  zero : ∀ u ∈ l, u.isIndex = false → m.plain.block (σ u) = Block.zero

namespace Lengthening

theorem record? (h : Lengthening t x n σ d l pending m) (hm : P.Intact m) :
    m.archive.record? x = some (m.record x) :=
  hm.record? (P.live_of_mem (hm.holder h.holder).2)

theorem spots_eq (h : Lengthening t x n σ d l pending m) : m.spots x = spots (dataBlocks n) := by
  rw [← h.size]
  rfl

/-- The sectors of the file on record. -/
theorem owned_eq (h : Lengthening t x n σ d l pending m) (hm : P.Intact m) :
    (spots (dataBlocks n)).map σ = (m.record x).owned := by
  have hx := h.record? hm
  rw [← (hm.fileAt hx).record.owned, (hm.size_le hx).2.1, h.size]
  exact List.map_congr_left fun u hu => (h.same u hu).symm

/-- No sector is at two spots or pending besides. -/
theorem nodup (h : Lengthening t x n σ d l pending m) (hm : P.Intact m) :
    ((spots (dataBlocks n) ++ l).map σ ++ pending).Nodup := by
  have hx := h.record? hm
  have hloose := hm.nodup x
  rw [h.loose] at hloose
  rw [List.map_append, List.append_assoc, h.owned_eq hm]
  refine List.nodup_append.mpr ⟨(List.nodup_append.mp (hm.fileAt hx).nodup).1, hloose, ?_⟩
  intro y hy y' hy' he
  have hmem : y' ∈ m.loose x := h.loose ▸ hy'
  exact hm.not_on_record hmem hx (List.mem_append_left _ (he ▸ hy))

theorem not_pending (h : Lengthening t x n σ d l pending m) (hm : P.Intact m) {u : Spot}
    (hu : u ∈ spots (dataBlocks n) ++ l) : σ u ∉ pending := fun hmem =>
  (List.nodup_append.mp (h.nodup hm)).2.2 _ (List.mem_map_of_mem hu) _ hmem rfl

theorem not_loose_self (h : Lengthening t x n σ d l pending m) (hm : P.Intact m) : x ∉ m.loose x :=
  fun hmem => hm.not_on_record hmem (h.record? hm) (Archive.self_mem_sectors _ x)

/-- The blocks that the party has filled are nobody else's to change. -/
theorem frame_new (h : Lengthening t x n σ d l pending m) {u : Spot} (hu : u ∈ l) : m.Frame x (σ u) := by
  refine .inr (.inl ?_)
  rw [h.loose]
  exact List.mem_append_left _ (List.mem_map_of_mem hu)

theorem frame_index (h : Lengthening t x n σ d l pending m) {u : Spot}
    (hu : u ∈ spots (dataBlocks n) ++ l) (hindex : u.isIndex = true) : m.Frame x (σ u) := by
  rcases List.mem_append.mp hu with hold | hnew
  · exact .inr (.inr ⟨u, h.spots_eq.symm ▸ hold, hindex, (h.same u hold).symm⟩)
  · exact h.frame_new hnew

/-- An index block of the file is not where its descriptor is. -/
theorem ne_self (h : Lengthening t x n σ d l pending m) (hm : P.Intact m) {u : Spot}
    (hu : u ∈ spots (dataBlocks n) ++ l) : σ u ≠ x := by
  rcases List.mem_append.mp hu with hold | hnew
  · rw [← h.same u hold]
    exact hm.spot_ne (h.record? hm) (h.spots_eq.symm ▸ hold)
  · intro he
    apply h.not_loose_self hm
    rw [h.loose, ← he]
    exact List.mem_append_left _ (List.mem_map_of_mem hnew)

/-- **Where a party stands** does not depend on more than its own blocks. -/
theorem congr (h : Lengthening t x n σ d l pending m) (hm : P.Intact m) (hholder : m'.holder x = some t)
    (honly : ∀ {z}, m'.holder z = some t → m.holder z = some t) (hsize : m'.size x = n)
    (hloose : m'.loose x = l.map σ ++ pending')
    (hblock : ∀ y, m.Frame x y → y ∉ pending → m'.plain.block y = m.plain.block y) :
    Lengthening t x n σ d l pending' m' := by
  have hself : m'.descriptor x = m.descriptor x := by
    have hx : x ∉ pending := by
      intro hmem
      apply h.not_loose_self hm
      rw [h.loose]
      exact List.mem_append_right _ hmem
    exact congrArg Descriptor.decode (hblock x (.inl rfl) hx)
  have hslot : ∀ u ∈ spots (dataBlocks n) ++ l, ∀ up slot, u.parent? = some (up, slot) →
      (m'.plain.block (σ up)).pointer slot = (m.plain.block (σ up)).pointer slot := by
    intro u hu up slot hp
    have hup := h.closed u hu up slot hp
    rw [hblock _ (h.frame_index hup (Spot.isIndex_of_parent? hp)) (h.not_pending hm hup)]
  constructor
  case holder => exact hholder
  case only => exact fun hz => h.only (honly hz)
  case size => exact hsize
  case isDir => exact hself.symm ▸ h.isDir
  case length => exact hself.symm ▸ h.length
  case magic => exact hself.symm ▸ h.magic
  case loose => exact hloose
  case leads =>
    intro u hu
    rw [← h.leads u hu]
    refine sectorOf_congr h.closed (fun _ _ => rfl) ?_ u hu
    intro u hu up slot hp
    rw [h.leads up (h.closed u hu up slot hp)]
    exact hslot u hu up slot hp
  case same =>
    intro u hu
    rw [← h.same u hu, Moment.sectorAt, hself]
    have hn := dataBlocks_le (h.size ▸ (hm.size_le (h.record? hm)).2.2)
    refine sectorOf_congr (fun u hu up slot hp => parent_mem_spots hn hu hp) (fun _ _ => rfl) ?_ u hu
    intro u hu up slot hp
    rw [show sectorOf m.plain.block (m.descriptor x) up = σ up from
      h.same up (parent_mem_spots hn hu hp)]
    exact hslot u (List.mem_append_left _ hu) up slot hp
  case closed => exact h.closed
  case zero =>
    intro u hu hdata
    rw [hblock _ (h.frame_new hu) (h.not_pending hm (List.mem_append_right _ hu))]
    exact h.zero u hu hdata

/-- **Nobody else gets in the way.** -/
theorem later (h : Lengthening t x n σ d l pending m) (hm : P.Intact m) (hw : P.conduct.Later t m m') :
    Lengthening t x n σ d l pending m' := by
  obtain ⟨hholder, hloose, hsize, hblock⟩ := (hw.1 x).held h.holder
  refine h.congr hm hholder ?_ (hsize.trans h.size) (hloose.trans h.loose) fun y hy _ => hblock y hy
  intro z hz
  by_contra hne
  exact (hw.1 z).free hne hz

/-! ## One sector -/

theorem used_eq (h : Lengthening t x n σ d l pending m) :
    m.used x = totalBlocks n + (l.length + pending.length) := by
  unfold Moment.used
  rw [h.size, h.loose, List.length_append, List.length_map]

theorem lasts (h : Lengthening t x n σ d l pending m) (hm : P.Intact m) :
    P.conduct.Lasts t (Lengthening t x n σ d l pending) m := fun _ hw => h.later hm hw

/-- A sector more was taken. -/
theorem claim (h : Lengthening t x n σ d l [] m) (hm : P.Intact m) (s : SectorId) :
    Lengthening t x n σ d l [s] (m.claim x s) := by
  refine h.congr hm h.holder id h.size ?_ fun _ _ _ => rfl
  rw [show (m.claim x s).loose x = m.loose x ++ [s] from Function.update_self _ _ _, h.loose,
    List.append_nil]

/-- A sector that was taken is filled with something. -/
theorem put (h : Lengthening t x n σ d l [s] m) (hm : P.Intact m) (b : Block) :
    Lengthening t x n σ d l [s] (m.put s b) := by
  refine h.congr hm h.holder id h.size h.loose fun y _ hy => ?_
  exact m.plain.block_put_of_ne (fun he => hy (List.mem_singleton.mpr he)) b

theorem mem_loose (h : Lengthening t x n σ d l [s] m) : s ∈ m.loose x := by
  rw [h.loose]
  exact List.mem_append_right _ (List.mem_singleton_self s)

/-- No spot of the file hangs on a sector that is pending. -/
theorem keepsSlots_pending (h : Lengthening t x n σ d l [s] m) (hm : P.Intact m) (b : Block) :
    KeepsSlots m x (m.put s b).plain.block := by
  intro u hu up slot hp
  have hup : up ∈ spots (dataBlocks n) := h.spots_eq ▸ hm.parent_mem (h.record? hm) hu hp
  have hne : m.sectorAt x up ≠ s := by
    rw [h.same up hup]
    exact fun he => h.not_pending hm (List.mem_append_left _ hup) (List.mem_singleton.mpr he)
  exact congrArg (Block.pointer · slot) (m.plain.block_put_of_ne hne b)

/-- A pending sector may be used and changed. -/
theorem zeroed (h : Lengthening t x n σ d l [s] m) (hm : P.Intact m) (b : Block) :
    P.conduct.Does t m (.store s b) (.ok ()) (m.put s b) := by
  have hframe : m.Frame x s := .inr (.inl h.mem_loose)
  have hne : s ≠ x := fun he => h.not_loose_self hm (he ▸ h.mem_loose)
  have hslots := h.keepsSlots_pending hm b
  exact ⟨.store (hm.permits (.inr h.mem_loose)), hm.put h.holder hframe hne hslots,
    fun u hu => hm.respects_put h.holder hframe hne hslots hu⟩

/-- There is a sector to take, and the party that lengthens the file may take it. -/
theorem claimed (h : Lengthening t x n σ d l [] m) (hm : P.Intact m)
    (hroom : totalBlocks n + l.length < totalBlocks (P.target x)) :
    ∃ s, P.conduct.Does t m .allocate (.ok (.ok s)) (m.claim x s) ∧
      Lengthening t x n σ d l [s] (m.claim x s) := by
  have hused : m.used x < totalBlocks (P.target x) := h.used_eq.symm ▸ hroom
  obtain ⟨s, hs⟩ := hm.room (hm.holder h.holder).2 hused
  have hmap : m.plain.freeMap.Lawful := hm.represents.lawful
  have hanswers : Answers true .allocate m.plain _ _ := .allocate
  rw [hmap.allocate_of_nextFree? hs] at hanswers
  exact ⟨s, ⟨hanswers, hm.claim h.holder hs hused, fun u hu => hm.respects_claim h.holder hu⟩, h.claim hm s⟩

end Lengthening

/-- A sector was taken for a spot and filled with zeros. -/
structure Prepared (t : Nat) (x : SectorId) (n : Nat) (σ : Spot → SectorId) (d : Descriptor)
    (l : List Spot) (s : SectorId) (m : Moment) : Prop extends Lengthening t x n σ d l [s] m where
  blank : m.plain.block s = Block.zero

theorem Prepared.later (h : Prepared t x n σ d l s m) (hm : P.Intact m) (hw : P.conduct.Later t m m') :
    Prepared t x n σ d l s m' := by
  obtain ⟨-, -, -, hblock⟩ := (hw.1 x).held h.holder
  exact ⟨h.toLengthening.later hm hw, (hblock s (.inr (.inl h.mem_loose))).trans h.blank⟩

/-! ## One spot -/

/-- What is due can be filled, and the file may have so many sectors. -/
structure Due (P : Plan) (x : SectorId) (n : Nat) (l rest : List Spot) : Prop where
  fillable : Fillable (spots (dataBlocks n) ++ l) rest
  room : totalBlocks n + (l.length + rest.length) ≤ totalBlocks (P.target x)

theorem Due.split {l' : List Spot} (h : P.Due x n l (l' ++ rest)) :
    P.Due x n l l' ∧ P.Due x n (l ++ l') rest := by
  obtain ⟨hfillable, hroom⟩ := h
  rw [List.length_append] at hroom
  obtain ⟨hfirst, hsecond⟩ := fillable_append.mp hfillable
  rw [List.append_assoc] at hsecond
  refine ⟨⟨hfirst, by omega⟩, hsecond, ?_⟩
  rw [List.length_append]
  omega

theorem Due.lt (h : P.Due x n l (spot :: rest)) : totalBlocks n + l.length < totalBlocks (P.target x) := by
  have hroom := h.room
  rw [List.length_cons] at hroom
  omega

namespace Prepared

/-- The sector can be put at the spot that is due. -/
theorem ready (h : Prepared t x n σ d l s m) (hm : P.Intact m) (hspot : P.Due x n l (spot :: rest)) :
    Ready m.plain.block d (spots (dataBlocks n) ++ l) spot s := by
  have hnodup := List.nodup_append.mp (h.nodup hm)
  have hsectors : (spots (dataBlocks n) ++ l).map (sectorOf m.plain.block d) =
      (spots (dataBlocks n) ++ l).map σ := List.map_congr_left h.leads
  refine ⟨h.closed, hsectors ▸ hnodup.1, hspot.fillable.1.1, ?_, hspot.fillable.1.2⟩
  rw [hsectors]
  exact fun hmem => hnodup.2.2 s hmem s (List.mem_singleton_self s) rfl

/-- Filling the sector with zeros again would change nothing. -/
theorem hang_root (h : Prepared t x n σ d l s m) (hp : spot.parent? = none) : m.hung d spot s = m := by
  have hblock : hang m.plain.block d spot s = m.plain.block := by
    rw [hang_of_root hp, ← h.blank, Function.update_eq_self]
  unfold Moment.hung
  rw [hblock]

/-- All that is left to do is to write the number to its slot. -/
theorem hang_child (h : Prepared t x n σ d l s m) (hm : P.Intact m) (hspot : P.Due x n l (spot :: rest))
    (hp : spot.parent? = some (up, slot)) :
    m.hung d spot s = m.put (σ up) ((m.plain.block (σ up)).withPointer slot s) := by
  have hready := h.ready hm hspot
  have hblock : hang m.plain.block d spot s =
      Function.update m.plain.block (σ up) ((m.plain.block (σ up)).withPointer slot s) := by
    rw [hready.hang_of_parent hp, h.leads up (hready.reachable up slot hp), ← h.blank,
      Function.update_eq_self]
  unfold Moment.hung
  rw [hblock]
  rfl

/-- The slots that the file on record has in use keep their numbers. -/
theorem keepsSlots (h : Prepared t x n σ d l s m) (hm : P.Intact m) (hspot : P.Due x n l (spot :: rest)) :
    KeepsSlots m x (m.hung d spot s).plain.block := by
  intro u hu up slot hp
  have hold : u ∈ spots (dataBlocks n) := h.spots_eq ▸ hu
  have hup : up ∈ spots (dataBlocks n) := h.spots_eq ▸ hm.parent_mem (h.record? hm) hu hp
  rw [h.same up hup, ← h.leads up (List.mem_append_left _ hup)]
  exact (h.ready hm hspot).pointer_hang (List.mem_append_left _ hold) hp

/-- Only index blocks get new numbers. -/
theorem hung_block (h : Prepared t x n σ d l s m) (hm : P.Intact m) (hspot : P.Due x n l (spot :: rest))
    (hy : ∀ u ∈ spots (dataBlocks n) ++ l, u.isIndex = true → y ≠ σ u) :
    (m.hung d spot s).plain.block y = m.plain.block y := by
  have hready := h.ready hm hspot
  by_cases hs : y = s
  · rw [hs, h.blank]
    exact hready.hang_self
  · refine hready.hang_of_ne hs ?_
    intro up slot hp
    have hup := hready.reachable up slot hp
    rw [h.leads up hup]
    exact hy up hup (Spot.isIndex_of_parent? hp)

/-- **One spot more is filled.** -/
theorem hung (h : Prepared t x n σ d l s m) (hm : P.Intact m) (hspot : P.Due x n l (spot :: rest)) :
    Lengthening t x n (Function.update σ spot s) (setRoot d spot s) (l ++ [spot]) []
      (m.hung d spot s) := by
  have hready := h.ready hm hspot
  have hσ : ∀ u ∈ spots (dataBlocks n) ++ l, Function.update σ spot s u = σ u := by
    intro u hu
    have hne : u ≠ spot := fun he => hready.unused (he ▸ hu)
    exact Function.update_of_ne hne _ _
  have hself : (m.hung d spot s).descriptor x = m.descriptor x :=
    congrArg Descriptor.decode (h.hung_block hm hspot fun u hu _ => (h.ne_self hm hu).symm)
  have hmeta := setRoot_meta d spot s
  constructor
  case holder => exact h.holder
  case only => exact h.only
  case size => exact h.size
  case isDir => exact hmeta.1.trans (hself.symm ▸ h.isDir)
  case length => exact hmeta.2.1.trans (hself.symm ▸ h.length)
  case magic => exact hmeta.2.2.trans (hself.symm ▸ h.magic)
  case loose =>
    rw [show (m.hung d spot s).loose x = m.loose x from rfl, h.loose, List.map_append, List.append_nil,
      List.map_congr_left fun u hu => hσ u (List.mem_append_right _ hu), List.map_singleton,
      Function.update_self]
  case leads =>
    intro u hu
    rw [← List.append_assoc] at hu
    rcases List.mem_append.mp hu with hold | hnew
    · rw [hσ u hold, ← h.leads u hold]
      exact hready.sectorOf_hang u hold
    · rw [List.mem_singleton.mp hnew, Function.update_self]
      exact hready.sectorOf_hang_self
  case same =>
    intro u hu
    rw [hσ u (List.mem_append_left _ hu), ← h.same u hu, Moment.sectorAt, hself]
    have hx := h.record? hm
    apply hm.sectorOf_eq hx (hm.leads hx) (h.keepsSlots hm hspot)
    rw [(hm.size_le hx).2.1, h.size]
    exact hu
  case closed =>
    intro u hu up slot hp
    rw [← List.append_assoc] at hu ⊢
    rcases List.mem_append.mp hu with hold | hnew
    · exact List.mem_append_left _ (h.closed u hold up slot hp)
    · rw [List.mem_singleton.mp hnew] at hp
      exact List.mem_append_left _ (hready.reachable up slot hp)
  case zero =>
    intro u hu hdata
    rcases List.mem_append.mp hu with hold | hnew
    · have hmem := List.mem_append_right (spots (dataBlocks n)) hold
      rw [hσ u hmem, ← h.zero u hold hdata]
      apply h.hung_block hm hspot
      intro u' hu' hindex he
      rw [← h.leads u hmem, ← h.leads u' hu'] at he
      rw [← hready.injective hmem hu' he, hdata] at hindex
      cases hindex
    · rw [List.mem_singleton.mp hnew, Function.update_self]
      exact hready.hang_self

end Prepared

/-! ## The longer file -/

/-- The spots that a longer file has besides. -/
def newSpots (n length : Nat) : List Spot :=
  spotsFrom (dataBlocks n) (dataBlocks length - dataBlocks n)

theorem spots_append_newSpots {length : Nat} (h : n ≤ length) :
    spots (dataBlocks n) ++ newSpots n length = spots (dataBlocks length) := spots_append_spotsBetween h

/-- They are as many as the sectors that the longer file needs besides. -/
theorem length_newSpots {length : Nat} (h : n ≤ length) (hlength : length ≤ maxFileSize) :
    totalBlocks n + (newSpots n length).length = totalBlocks length := length_spotsBetween h hlength

/-- Files do not get too long. -/
theorem target_le (P : Plan) (x : SectorId) : P.target x ≤ maxFileSize := by
  refine lengthAfter_le ?_ fun j hj _ => P.grants.fits j hj
  rw [P.archive.ledger_file]
  show (P.archive.record ⟨x⟩).bytes.size ≤ maxFileSize
  cases hx : P.archive.record? x with
  | none =>
    rw [show P.archive.record ⟨x⟩ = _ from congrArg (Option.getD · _) hx]
    exact Nat.zero_le _
  | some f =>
    obtain ⟨d, hfile⟩ := P.represents.fileAt hx
    rw [show P.archive.record ⟨x⟩ = f from congrArg (Option.getD · _) hx]
    exact hfile.record.holds.size ▸ hfile.record.stored.size

/-- What the longer file has besides can be filled. -/
theorem due_newSpots {length : Nat} (hn : n ≤ length) (hlength : length ≤ P.target x) :
    P.Due x n [] (newSpots n length) := by
  have hfits := Nat.le_trans hlength (P.target_le x)
  have hblocks := dataBlocks_mono hn
  have hblocks' := dataBlocks_le hfits
  constructor
  · rw [List.append_nil]
    exact fillable_spotsFrom (by omega)
  · rw [List.length_nil, Nat.zero_add, length_newSpots hn hfits]
    exact totalBlocks_mono hlength

/-- A growth is complete but for the descriptor. -/
structure Grown (P : Plan) (t : Nat) (x : SectorId) (n last : Nat) (σ : Spot → SectorId) (d : Descriptor)
    (m : Moment) : Prop extends Lengthening t x n σ d (newSpots n last) [] m where
  le : n ≤ last
  target : last ≤ P.target x

namespace Grown

variable {length : Nat} {b : Block} {u : Nat}

theorem fits (h : P.Grown t x n length σ d m) : length ≤ maxFileSize :=
  Nat.le_trans h.target (P.target_le x)

theorem mem (h : P.Grown t x n length σ d m) (hspot : spot ∈ spots (dataBlocks length)) :
    spot ∈ spots (dataBlocks n) ++ newSpots n length := by
  rw [spots_append_newSpots h.le]
  exact hspot

/-- The descriptor's block is none of those that lead to a spot. -/
theorem leads_put (h : P.Grown t x n length σ d m) (hm : P.Intact m)
    (hspot : spot ∈ spots (dataBlocks length)) :
    sectorOf (m.plain.put x b).block (lengthened d length) spot = σ spot := by
  apply (sectorOf_withLength _ _ _ spot).trans
  rw [← h.leads spot (h.mem hspot)]
  refine sectorOf_congr h.closed (fun _ _ => rfl) ?_ spot (h.mem hspot)
  intro u hu up slot hp
  have hup := h.closed u hu up slot hp
  rw [h.leads up hup, m.plain.block_put_of_ne (h.ne_self hm hup)]

theorem size_record (h : P.Grown t x n length σ d m) : (m.record x).bytes.size = n := h.size

theorem size_longer (h : P.Grown t x n length σ d m) : (m.longer x length).bytes.size = length :=
  size_padded (h.size_record.symm ▸ h.le)

theorem sectors (h : P.Grown t x n length σ d m) (hm : P.Intact m) :
    (spots (dataBlocks length)).map σ = (m.record x).owned ++ m.loose x := by
  rw [← spots_append_newSpots h.le, List.map_append, h.owned_eq hm, h.loose, List.append_nil]

/-- **The longer file is on record** when its descriptor is saved. -/
theorem onRecord (h : P.Grown t x n length σ d m) (hm : P.Intact m) :
    OnRecord (m.plain.put x (lengthened d length).encode).block x (lengthened d length)
      (m.longer x length) := by
  have hfile := hm.fileAt (h.record? hm)
  have hsize : (lengthened d length).size = length := size_lengthened h.fits
  constructor
  case stored =>
    refine ⟨?_, ?_, hsize.symm ▸ h.fits⟩
    · rw [m.plain.block_put_self, Descriptor.decode_encode]
    · have hvalid := hfile.record.stored.valid
      unfold Descriptor.isValid at hvalid ⊢
      rw [← h.magic] at hvalid
      exact hvalid
  case isDir => exact h.isDir.trans hfile.record.isDir
  case holds =>
    refine ⟨hsize.trans h.size_longer.symm, ?_⟩
    intro place hplace
    rw [h.size_longer] at hplace
    have hmem := data_mem_spots (dataBlocks_le h.fits) hplace
    rw [h.leads_put hm hmem, m.plain.block_put_of_ne (h.ne_self hm (h.mem hmem)),
      show (m.longer x length).bytes = padded (m.record x).bytes length from rfl, blockOf_padded]
    -- a block from before is as it was, a new one is all zeros
    rcases List.mem_append.mp (h.mem hmem) with hold | hnew
    · have hlt := (mem_spots (dataBlocks_le (Nat.le_trans h.le h.fits))).mp hold
      rw [← h.same _ hold]
      exact hfile.record.holds.data place (h.size_record.symm ▸ hlt)
    · have hblocks := dataBlocks_mono h.le
      have hfits := dataBlocks_le h.fits
      have hge := ((mem_spotsFrom (by omega)).mp hnew).1
      rw [h.zero _ hnew rfl, blockOf_beyond (h.size_record.symm ▸ hge)]
  case owned =>
    rw [hsize, tree, List.map_congr_left fun u hu => h.leads_put hm hu]
    exact h.sectors hm

/-- Nothing of the file is lost, and the new bytes are zero. -/
theorem develops (h : P.Grown t x n length σ d m) :
    Develops P.jobs x (m.record x) (m.longer x length) where
  isDir := rfl
  size := by
    rw [h.size_longer, h.size_record]
    exact h.le
  byte q := by
    left
    show (padded (m.record x).bytes length)[q]?.getD 0 = (m.record x).bytes[q]?.getD 0
    unfold padded
    rw [Array.getElem?_append]
    split
    · rfl
    · next hq =>
      rw [Array.getElem?_eq_none (Nat.le_of_not_lt hq), Array.getElem?_replicate]
      split <;> rfl

theorem saved (h : P.Grown t x n length σ d m) (hm : P.Intact m) : P.Intact (m.saved x d length) := by
  have hx := h.record? hm
  have hloose : m.loose x = m.loose x ++ [] := (List.append_nil _).symm
  have hnew : m.loose x = (newSpots n length).map σ := h.loose.trans (List.append_nil _)
  refine hm.file hx (Intact.owns_self hx) hloose (h.onRecord hm) ?_ ?_ h.develops ?_ ?_
  · have hfile := (hm.fileAt hx).nodup
    have hnodup := List.nodup_append.mp hfile
    show (((m.record x).owned ++ m.loose x) ++ [x]).Nodup
    refine List.nodup_append.mpr ⟨?_, List.nodup_singleton x, ?_⟩
    · refine List.nodup_append.mpr ⟨hnodup.1, hm.nodup x, ?_⟩
      rintro y hy y' hy' rfl
      exact hm.not_on_record hy' hx (List.mem_append_left _ hy)
    · intro y hy y' hy' he
      rw [List.mem_singleton.mp hy'] at he
      subst he
      rcases List.mem_append.mp hy with hy | hy
      · exact hnodup.2.2 y hy y (List.mem_singleton_self y) rfl
      · exact h.not_loose_self hm hy
  · intro s
    show s ∈ ((m.record x).owned ++ m.loose x) ++ [x] ↔ s ∈ (m.record x).owned ++ [x] ∨ s ∈ m.loose x
    simp only [List.mem_append]
    tauto
  · rw [h.size_longer]
    exact h.target
  · rw [h.size_longer, h.size_record, hnew, List.length_map, length_newSpots h.le h.fits]

/-- Whoever has a copy of the descriptor can go on with it. -/
theorem respects_saved (h : P.Grown t x n length σ d m) (hm : P.Intact m) (hu : u ≠ t) :
    ∀ z, Respects P.jobs u m (m.saved x d length) z := by
  intro z
  have hx := h.record? hm
  by_cases hz : z = x
  · subst hz
    have hother : m.holder z ≠ some u := fun he => hu (Option.some.inj (he.symm.trans h.holder))
    have hrecord : (m.saved z d length).record z = m.longer z length := (record_file m z _ _ _ _ _).1
    have hslots : KeepsSlots m z (m.saved z d length).plain.block := by
      intro spot hspot up slot hp
      have hne := hm.spot_ne hx (hm.parent_mem hx hspot hp)
      exact congrArg (Block.pointer · slot) (m.plain.block_put_of_ne hne _)
    refine hm.respects hx (hrecord ▸ h.develops) hslots ?_ id fun he => absurd he hother
    intro spot hspot
    have hold : spot ∈ spots (dataBlocks n) := h.spots_eq ▸ hspot
    have hsame := hm.sectorOf_eq hx (hm.leads hx) hslots spot ((hm.mem_spots hx).mpr hspot)
    rw [hsame, Moment.sectorAt, m.descriptor_saved]
    exact (h.leads_put hm (spots_mono (dataBlocks_mono h.le) hold)).trans (h.same spot hold).symm
  · exact hm.respects_file (Intact.owns_self hx) hz _ _

end Grown

/-- A party keeps others from lengthening this file and no other, if any, and all that was taken for it
    is on record. -/
structure Stance (t : Nat) (v : Option SectorId) (m : Moment) : Prop where
  holder : ∀ {z}, m.holder z = some t ↔ v = some z
  settled : ∀ {z}, v = some z → m.loose z = []

theorem Stance.later {v : Option SectorId} (h : Stance t v m) (hw : P.conduct.Later t m m') :
    Stance t v m' := by
  constructor
  · intro z
    constructor
    · intro hz
      refine h.holder.mp ?_
      by_contra hne
      exact (hw.1 z).free hne hz
    · exact fun hv => ((hw.1 z).held (h.holder.mpr hv)).1
  · intro z hv
    obtain ⟨-, hloose, -⟩ := (hw.1 z).held (h.holder.mpr hv)
    exact hloose.trans (h.settled hv)

/-- Where a party stands that begins to lengthen a file. -/
theorem Stance.lengthening (h : Stance t (some x) m) (hm : P.Intact m) :
    Lengthening t x (m.size x) (m.sectorAt x) (m.descriptor x) [] [] m := by
  have hx := hm.record? (P.live_of_mem (hm.holder (h.holder.mpr rfl)).2)
  constructor
  case holder => exact h.holder.mpr rfl
  case only => exact fun hz => (Option.some.inj (h.holder.mp hz)).symm
  case size => rfl
  case isDir => rfl
  case length => rfl
  case magic => rfl
  case loose => exact h.settled rfl
  case leads => exact fun _ _ => rfl
  case same => exact fun _ _ => rfl
  case closed =>
    intro u hu up slot hp
    rw [List.append_nil] at hu ⊢
    exact parent_mem_spots (dataBlocks_le (hm.size_le hx).2.2) hu hp
  case zero => exact fun _ hu => (List.not_mem_nil hu).elim

end Plan

end InodeStore
