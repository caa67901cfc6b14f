import InodeStore.Proofs.Inode.Files

/-!
# `Proofs.Inode.Making` — files made, files lengthened

Whether a file can be made or lengthened is known from the free map (`claim`): the length must not be too
long, and the sectors for all new spots must be there. `build_runs`, `createAt_runs`, `create_runs` and
`extend_runs` say what the four routines come to either way. One that gets done leaves a file at its sector
and takes the claimed sectors (`Made`). One that is refused leaves the free map bit for bit as it was, and
every block in use but for those of the file that was to grow (`Unharmed`), which is still on record.
-/

namespace InodeStore.Inode

open Routine

variable {α : Type} {p p' p₁ : Plain} {d d' : Descriptor} {x : SectorId} {f : FileRecord} {length : Nat}
  {isDir : Bool} {new loose : List SectorId} {e : Error}

/-! ## Sectors taken and given back -/

/-- What is taken stays so when other sectors are. -/
theorem Spent.taken (h : Spent p p' new) (hmap : p.freeMap.Lawful) (s : SectorId) :
    p'.freeMap.taken s.toNat = (decide (s ∈ new) || p.freeMap.taken s.toNat) := by
  rw [h.freeMap, FreeMap.taken_takeAll hmap h.fresh]

theorem Spent.lawful (h : Spent p p' new) (hmap : p.freeMap.Lawful) : p'.freeMap.Lawful := by
  rw [h.freeMap]
  exact FreeMap.takeAll_lawful hmap h.fresh

theorem Spent.sectors (h : Spent p p' new) (hmap : p.freeMap.Lawful) :
    p'.freeMap.sectors = p.freeMap.sectors := by
  rw [h.freeMap]
  exact (FreeMap.foldl_assign hmap true (h.fresh.lt_sectors hmap)).2.1

/-- The map with the sectors given back is the one before they were taken. -/
theorem Spent.givenBack (h : Spent p p' new) (hmap : p.freeMap.Lawful) :
    (given p' new).freeMap = p.freeMap := by
  show p'.freeMap.giveAll new = p.freeMap
  rw [h.freeMap, FreeMap.giveAll_takeAll hmap h.fresh]

/-- A reservation that is refused gives back what was taken in it. -/
theorem Spent.refused_runs {r : Routine α} {cause : Halt} (h : Spent p p' new)
    (hmap : p.freeMap.Lawful) (hrun : Runs true r p (.error cause) p') :
    Runs true (reserving r) p (.error cause) (given p' new) := by
  have hback : Runs true (releaseAll new) p' (.ok ()) (given p' new) := by
    refine Runs.releaseAll (h.lawful hmap) h.fresh.nodup fun s hs => ⟨?_, ?_⟩
    · rw [h.sectors hmap]
      exact h.fresh.lt_sectors hmap s hs
    · rw [h.taken hmap, decide_eq_true hs]
      rfl
  exact hrun.reserving_halt h.took ((List.reverse_reverse new).symm ▸ hback)

/-- What a refusal leaves as it was. -/
structure Unharmed (p p' : Plain) (loose : List SectorId) : Prop where
  freeMap : p'.freeMap = p.freeMap
  registry : p'.registry = p.registry
  count : p'.count = p.count
  /-- Blocks in use, but for those of a file that was to grow. -/
  block : ∀ y, p.freeMap.taken y.toNat = true → y ∉ loose → p'.block y = p.block y

theorem Spent.unharmed (h : Spent p p' new) (hmap : p.freeMap.Lawful)
    (hblock : ∀ y, p.freeMap.taken y.toNat = true → y ∉ loose → p'.block y = p.block y) :
    Unharmed p (given p' new) loose :=
  ⟨h.givenBack hmap, h.registry, h.count, hblock⟩

/-! ## Files that stay -/

/-- A file on record whose sectors are taken, and none of them twice. -/
theorem OnRecord.fileAt (h : OnRecord p.block x d f) (hmap : p.freeMap.Lawful)
    (hfits : p.freeMap.sectors ≤ p.count) (hnodup : (f.sectors x).Nodup)
    (hmem : ∀ s ∈ f.sectors x, s.toNat < p.freeMap.sectors ∧ p.freeMap.taken s.toNat = true) :
    FileAt p x d f := by
  have hx := hmem x (List.mem_append_right _ (List.mem_singleton_self x))
  refine ⟨h, h.hung hmap hfits (List.nodup_append.mp hnodup).1
    fun s hs => hmem s (List.mem_append_left _ hs), hx.2, hx.1, ?_⟩
  intro hown
  exact (List.nodup_append.mp hnodup).2.2 x hown x (List.mem_singleton_self x) rfl

/-- A file that is not concerned by what is done. -/
theorem FileAt.frame (h : FileAt p x d f) (hmap : p'.freeMap.Lawful)
    (hsectors : p'.freeMap.sectors = p.freeMap.sectors) (hcount : p'.count = p.count)
    (htaken : ∀ s ∈ f.sectors x, p'.freeMap.taken s.toNat = true)
    (hblock : ∀ s ∈ f.sectors x, p'.block s = p.block s) : FileAt p' x d f := by
  have hrecord := h.record.frame (hblock x (List.mem_append_right _ (List.mem_singleton_self x)))
    fun s hs => hblock s (List.mem_append_left _ hs)
  refine hrecord.fileAt hmap ?_ h.nodup fun s hs => ⟨hsectors ▸ (h.mem hs).1, htaken s hs⟩
  rw [hsectors, hcount]
  exact h.hung.fits

/-- A refusal keeps every file but the one that was to grow. -/
theorem Unharmed.fileAt (h : Unharmed p p' loose) (hf : FileAt p x d f)
    (hapart : ∀ s ∈ f.sectors x, s ∉ loose) : FileAt p' x d f :=
  hf.frame (h.freeMap ▸ hf.hung.lawful) (congrArg FreeMap.sectors h.freeMap) h.count
    (fun _ hs => h.freeMap ▸ (hf.mem hs).2) fun s hs => h.block s (hf.mem hs).2 (hapart s hs)

/-- The file that was to grow is kept too. -/
theorem FileAt.refused (h : FileAt p x d f) (hg : Growth p p₁ d (spots (dataBlocks d.size)) new) :
    FileAt (given p₁ new) x d f := by
  have hback := hg.toSpent.givenBack h.hung.lawful
  have hrecord : OnRecord p₁.block x d f := h.record.after_growth h.hung h.taken h.own hg
  refine OnRecord.fileAt (p := given p₁ new) hrecord (hback ▸ h.hung.lawful) ?_ h.nodup
    fun s hs => hback ▸ h.mem hs
  rw [hback]
  exact Nat.le_trans h.hung.fits (Nat.le_of_eq hg.count.symm)

/-! ## Claims -/

/-- The spots that a file has after it grew and had not before. -/
def spotsBetween (old length : Nat) : List Spot :=
  spotsFrom (dataBlocks old) (dataBlocks length - dataBlocks old)

theorem spots_append_spotsBetween {old length : Nat} (h : old ≤ length) :
    spots (dataBlocks old) ++ spotsBetween old length = spots (dataBlocks length) := by
  have hblocks := Nat.add_sub_cancel' (dataBlocks_mono h)
  conv => rhs; rw [← hblocks, spots, spotsFrom_add, Nat.zero_add]
  rfl

/-- They are as many as the sectors that the longer file needs besides. -/
theorem length_spotsBetween {old length : Nat} (h : old ≤ length) (hlength : length ≤ maxFileSize) :
    totalBlocks old + (spotsBetween old length).length = totalBlocks length := by
  rw [← length_spots (Nat.le_trans h hlength), ← length_spots hlength, ← spots_append_spotsBetween h,
    List.length_append]

/-- The new sectors of a file of `old` bytes that is to have `length`, or the refusal. -/
def claim (map : FreeMap) (old length : Nat) : Except Error (List SectorId) :=
  let count := (spotsBetween old length).length
  if maxFileSize < length then .error .fileTooLarge
  else if (map.takeEach count).length = count then .ok (map.takeEach count)
  else .error .allocationExhausted

/-- A file that is about to be put at a sector. -/
structure Draft (p : Plain) (x : SectorId) (d : Descriptor) (f : FileRecord) : Prop where
  valid : d.isValid = true
  size : d.size ≤ maxFileSize
  isDir : d.isDir = f.isDir
  holds : Holds p.block d f.bytes
  owned : tree p.block d (dataBlocks d.size) = f.owned
  hung : Hung p d (spots (dataBlocks d.size))
  taken : p.freeMap.taken x.toNat = true
  inside : x.toNat < p.freeMap.sectors
  own : x ∉ f.owned

theorem spots_empty (isDir : Bool) : spots (dataBlocks (Descriptor.empty isDir).size) = [] := by
  cases isDir <;> rfl

/-- The draft of an empty file. -/
theorem draft_empty (hmap : p.freeMap.Lawful) (hfits : p.freeMap.sectors ≤ p.count)
    (htaken : p.freeMap.taken x.toNat = true) (hx : x.toNat < p.freeMap.sectors) (isDir : Bool) :
    Draft p x (.empty isDir) ⟨isDir, #[], []⟩ := by
  have hholds : Holds p.block (Descriptor.empty isDir) #[] :=
    ⟨rfl, fun place (hplace : place.number < 0) => absurd hplace (Nat.not_lt_zero _)⟩
  refine ⟨rfl, Nat.zero_le _, rfl, hholds, ?_, ?_, htaken, hx, List.not_mem_nil⟩
  · rw [tree, spots_empty]
    rfl
  · rw [spots_empty]
    exact ⟨hmap, hfits, fun t ht => absurd ht List.not_mem_nil, List.nodup_nil,
      fun t ht => absurd ht List.not_mem_nil, fun t ht => absurd ht List.not_mem_nil⟩

/-- A file on record is a draft of itself. -/
theorem FileAt.draft (h : FileAt p x d f) : Draft p x d f :=
  ⟨h.record.stored.valid, h.record.stored.size, h.record.isDir, h.record.holds, h.record.owned,
    h.hung, h.taken, h.inside, h.own⟩

/-- The record of a longer file. -/
def FileRecord.longer (f : FileRecord) (length : Nat) (new : List SectorId) : FileRecord :=
  ⟨f.isDir, padded f.bytes length, f.owned ++ new⟩

/-- A file is at `x`, and the sectors of `new` were taken for it. -/
structure Made (p p' : Plain) (x : SectorId) (d : Descriptor) (f : FileRecord) (new : List SectorId) :
    Prop extends Spent p p' new where
  file : FileAt p' x d f
  block : ∀ y, p.freeMap.taken y.toNat = true → y ∉ f.sectors x → p'.block y = p.block y

/-- A growth that got done is saved. -/
theorem Saved.made (h : Saved p p₁ x d d' length new) (hf : Draft p x d f) :
    Runs true (save x (lengthened d' length)) p₁ (.ok ()) (p₁.put x (lengthened d' length).encode) ∧
      Made p (p₁.put x (lengthened d' length).encode) x (lengthened d' length) (f.longer length new)
        new := by
  have hmap := hf.hung.lawful
  have hspent := h.growth.toSpent
  have htaken : p₁.freeMap.taken x.toNat = true := by
    rw [hspent.taken hmap, h.taken, Bool.or_true]
  have hsectors := hspent.sectors hmap
  have hfits : p₁.freeMap.sectors ≤ p₁.count := by
    rw [hsectors, hspent.count]
    exact hf.hung.fits
  have hinside : x.toNat < p₁.freeMap.sectors := hsectors.symm ▸ hf.inside
  have hrecord := h.onRecord hf.holds
  rw [hf.isDir, hf.owned] at hrecord
  have hhung : Hung (p₁.put x (lengthened d' length).encode) (lengthened d' length)
      (spots (dataBlocks (lengthened d' length).size)) := by
    rw [size_lengthened h.fits]
    exact h.hung_after _
  have hown : x ∉ f.owned ++ new := fun hmem =>
    (List.mem_append.mp hmem).elim hf.own (h.growth.not_mem hf.taken)
  -- the store differs from the grown one in the block of the descriptor only
  have hspent' : Spent p (p₁.put x (lengthened d' length).encode) new :=
    ⟨hspent.fresh, hspent.freeMap, hspent.took, hspent.gave, hspent.registry, hspent.count⟩
  have hfile : FileAt (p₁.put x (lengthened d' length).encode) x (lengthened d' length)
      (f.longer length new) := ⟨hrecord, hhung, htaken, hinside, hown⟩
  have hpermits : p₁.Permits true x := ⟨Nat.lt_of_lt_of_le hinside hfits, fun _ => htaken⟩
  refine ⟨Runs.store (lengthened d' length).encode hpermits, ⟨hspent', hfile, ?_⟩⟩
  intro y hy hy'
  refine h.frame (lengthened d' length).encode ?_ (h.growth.not_mem hy) ?_
  · intro he
    exact hy' (List.mem_append_right _ (List.mem_singleton.mpr he))
  · intro hold
    rw [hf.owned] at hold
    exact hy' (List.mem_append_left _ (List.mem_append_left _ hold))

/-- What lengthening comes to, by its claim. -/
def Lengthens (p : Plain) (x : SectorId) (d : Descriptor) (f : FileRecord) (length : Nat) :
    Except Error (List SectorId) → Prop
  | .ok new => ∃ grown p₁ p', Runs true (grow d length) p (.ok grown) p₁ ∧
      Runs true (save x grown) p₁ (.ok ()) p' ∧ Made p p' x grown (f.longer length new) new
  | .error e => ∃ p₁ new, Runs true (grow d length) p (.error (.refused e)) p₁ ∧
      Growth p p₁ d (spots (dataBlocks d.size)) new

/-- **A growth** gets done exactly if its claim does. -/
theorem grow_claim (h : Draft p x d f) (hsize : d.size ≤ length) :
    Lengthens p x d f length (claim p.freeMap d.size length) := by
  unfold claim
  by_cases hlong : maxFileSize < length
  · rw [if_pos hlong]
    exact ⟨p, [], grow_refused hlong, Spent.refl p, fun _ _ _ _ _ => rfl, fun _ _ _ => rfl⟩
  rw [if_neg hlong]
  have hlength := Nat.le_of_not_lt hlong
  have hblocks := dataBlocks_le h.size
  have hblocks' := dataBlocks_le hlength
  obtain ⟨ending, p₁, hgrows⟩ := exists_grows p d (spotsBetween d.size length)
  have hrun := grow_runs h.hung h.size hlength hgrows
  obtain ⟨hgrowth, houtcome⟩ := grows_spec hgrows h.hung (fillable_spotsFrom (by omega))
  -- a growth takes one sector for each spot, so it gets done exactly if there are as many
  cases ending with
  | ok d' =>
    have hfull := (congrArg List.length houtcome.sectors).symm.trans (List.length_map _)
    rw [if_pos hfull]
    have hsaved : Saved p p₁ x d d' length (p.freeMap.takeEach (spotsBetween d.size length).length) :=
      ⟨hsize, hlength, h.valid, h.hung, h.taken, h.owned ▸ h.own, hgrowth, houtcome⟩
    obtain ⟨hsave, hmade⟩ := hsaved.made h
    exact ⟨lengthened d' length, p₁, _, hrun, hsave, hmade⟩
  | error cause =>
    obtain ⟨rfl, hshort⟩ := houtcome
    rw [if_neg (Nat.ne_of_lt hshort)]
    exact ⟨p₁, _, hrun, hgrowth⟩

/-! ## New files -/

/-- The record of a new file of zeros. -/
def FileRecord.zeros (isDir : Bool) (length : Nat) (new : List SectorId) : FileRecord :=
  ⟨isDir, Array.replicate length 0, new⟩

theorem longer_empty (isDir : Bool) (length : Nat) (new : List SectorId) :
    FileRecord.longer ⟨isDir, #[], []⟩ length new = FileRecord.zeros isDir length new := by
  unfold FileRecord.longer FileRecord.zeros padded
  simp

/-- A new file is put at a sector. -/
theorem build_runs (h : Draft p x (.empty isDir) ⟨isDir, #[], []⟩)
    (hclaim : claim p.freeMap 0 length = .ok new) :
    ∃ p' d, Runs true (build x length isDir) p (.ok ()) p' ∧
      Made p p' x d (.zeros isDir length new) new := by
  have hgrow := grow_claim h (Nat.zero_le length)
  rw [show (Descriptor.empty isDir).size = 0 from rfl, hclaim] at hgrow
  obtain ⟨grown, p₁, p', hrun, hsave, hmade⟩ := hgrow
  exact ⟨p', grown, hrun.bind hsave, longer_empty isDir length new ▸ hmade⟩

/-- No new file is put at a sector: what was taken for it is lost, and no block in use has changed. -/
theorem build_refused (h : Draft p x (.empty isDir) ⟨isDir, #[], []⟩)
    (hclaim : claim p.freeMap 0 length = .error e) :
    ∃ p' new, Runs true (build x length isDir) p (.error (.refused e)) p' ∧ Spent p p' new ∧
      ∀ y, p.freeMap.taken y.toNat = true → p'.block y = p.block y := by
  have hgrow := grow_claim h (Nat.zero_le length)
  rw [show (Descriptor.empty isDir).size = 0 from rfl, hclaim] at hgrow
  obtain ⟨p₁, new, hrun, hg⟩ := hgrow
  refine ⟨p₁, new, hrun.bind_halt, hg.toSpent, fun y hy => hg.frame y (hg.not_mem hy) ?_⟩
  intro t ht
  rw [spots_empty] at ht
  cases ht

/-- **A new file at a sector that was reserved.** -/
theorem createAt_runs (hmap : p.freeMap.Lawful) (hfits : p.freeMap.sectors ≤ p.count)
    (htaken : p.freeMap.taken x.toNat = true) (hx : x.toNat < p.freeMap.sectors)
    (hclaim : claim p.freeMap 0 length = .ok new) :
    ∃ p' d, Runs true (createAt x length isDir) p (.ok ()) p' ∧
      Made p p' x d (.zeros isDir length new) new := by
  obtain ⟨p', d, hrun, hmade⟩ := build_runs (draft_empty hmap hfits htaken hx isDir) hclaim
  obtain ⟨count, hrun⟩ := hrun.reserving
  exact ⟨p', d, hrun.bind (Runs.emit _), hmade⟩

theorem createAt_refused (hmap : p.freeMap.Lawful) (hfits : p.freeMap.sectors ≤ p.count)
    (htaken : p.freeMap.taken x.toNat = true) (hx : x.toNat < p.freeMap.sectors)
    (hclaim : claim p.freeMap 0 length = .error e) :
    ∃ p', Runs true (createAt x length isDir) p (.error (.refused e)) p' ∧ Unharmed p p' [] := by
  obtain ⟨p', new, hrun, hspent, hblock⟩ :=
    build_refused (draft_empty hmap hfits htaken hx isDir) hclaim
  exact ⟨given p' new, (hspent.refused_runs hmap hrun).bind_halt,
    hspent.unharmed hmap fun y hy _ => hblock y hy⟩

/-- The store once a free sector was taken for a descriptor. -/
def reserved (p : Plain) (x : SectorId) : Plain :=
  { p with freeMap := p.freeMap.assign x.toNat true, took := x :: p.took }

/-- The sectors of a new file of `length` bytes, that of the descriptor first, or the refusal. -/
def claimNew (map : FreeMap) (length : Nat) : Except Error (SectorId × List SectorId) :=
  match map.nextFree? with
  | none => .error .allocationExhausted
  | some x => (claim (map.assign x.toNat true) 0 length).map fun new => (x, new)

theorem claimNew_ok {map : FreeMap} (h : claimNew map length = .ok (x, new)) :
    map.nextFree? = some x ∧ claim (map.assign x.toNat true) 0 length = .ok new := by
  unfold claimNew at h
  split at h
  · cases h
  · next y hy =>
    cases hrest : claim (map.assign y.toNat true) 0 length with
    | error e =>
      rw [hrest] at h
      cases h
    | ok rest =>
      rw [hrest] at h
      cases h
      exact ⟨hy, hrest⟩

theorem claimNew_error {map : FreeMap} (h : claimNew map length = .error e) :
    map.nextFree? = none ∧ e = .allocationExhausted ∨
      ∃ x, map.nextFree? = some x ∧ claim (map.assign x.toNat true) 0 length = .error e := by
  unfold claimNew at h
  split at h
  · next hnone =>
    cases h
    exact .inl ⟨hnone, rfl⟩
  · next y hy =>
    cases hrest : claim (map.assign y.toNat true) 0 length with
    | ok rest =>
      rw [hrest] at h
      cases h
    | error e =>
      rw [hrest] at h
      cases h
      exact .inr ⟨y, hy, hrest⟩

section Create

variable (hmap : p.freeMap.Lawful) (hfits : p.freeMap.sectors ≤ p.count)
include hmap

theorem taken_reserved (hx : p.freeMap.nextFree? = some x) (y : SectorId) :
    (reserved p x).freeMap.taken y.toNat = (decide (y = x) || p.freeMap.taken y.toNat) := by
  show (p.freeMap.assign x.toNat true).taken y.toNat = _
  rw [FreeMap.taken_assign (hmap.group_lt (hmap.lt_sectors (hmap.nextFree?_free hx)))]
  by_cases he : y = x
  · rw [if_pos (congrArg _ he), decide_eq_true he]
    rfl
  · rw [if_neg fun h => he (UInt32.toNat_inj.mp h), decide_eq_false he]
    rfl

theorem Spent.of_reserved (hx : p.freeMap.nextFree? = some x) (h : Spent (reserved p x) p' new) :
    Spent p p' (x :: new) := Spent.cons (q := reserved p x) hmap hx rfl rfl rfl rfl rfl h

include hfits

theorem draft_reserved (hx : p.freeMap.nextFree? = some x) (isDir : Bool) :
    Draft (reserved p x) x (.empty isDir) ⟨isDir, #[], []⟩ := by
  have hlt := hmap.lt_sectors (hmap.nextFree?_free hx)
  refine draft_empty (p := reserved p x) (hmap.assign hlt true) hfits ?_ hlt isDir
  rw [taken_reserved hmap hx, decide_eq_true rfl]
  rfl

/-- **A new file** at the sector that is taken next. -/
theorem create_runs (hclaim : claimNew p.freeMap length = .ok (x, new)) :
    ∃ p' d, Runs true (create length isDir) p (.ok x) p' ∧
      Made p p' x d (.zeros isDir length new) (x :: new) := by
  obtain ⟨hx, hrest⟩ := claimNew_ok hclaim
  obtain ⟨p', d, hrun, hmade⟩ := build_runs (draft_reserved hmap hfits hx isDir) hrest
  have hbody : Runs true (do let sector ← allocate; build sector length isDir; return sector) p
      (.ok x) p' := (Runs.allocate hmap hx).bind (hrun.bind (Runs.pure x))
  obtain ⟨count, hrun⟩ := hbody.reserving
  refine ⟨p', d, hrun.bind ((Runs.emit _).bind (Runs.pure x)), hmade.of_reserved hmap hx, hmade.file,
    fun y hy hy' => hmade.block y ?_ hy'⟩
  rw [taken_reserved hmap hx, hy, Bool.or_true]

theorem create_refused (hclaim : claimNew p.freeMap length = .error e) :
    ∃ p', Runs true (create length isDir) p (.error (.refused e)) p' ∧ Unharmed p p' [] := by
  -- either no sector was left for the descriptor, or its sector is given back with the others
  rcases claimNew_error hclaim with ⟨hx, rfl⟩ | ⟨x, hx, hrest⟩
  · have hrun : Runs true (do let sector ← allocate; build sector length isDir; return sector) p
        (.error (.refused .allocationExhausted)) p := (Runs.allocate_exhausted hx).bind_halt
    exact ⟨given p [], ((Spent.refl p).refused_runs hmap hrun).bind_halt,
      (Spent.refl p).unharmed hmap fun _ _ _ => rfl⟩
  · obtain ⟨p₁, new, hrun, hspent, hblock⟩ := build_refused (draft_reserved hmap hfits hx isDir) hrest
    have hspent := hspent.of_reserved hmap hx
    have hrun : Runs true (do let sector ← allocate; build sector length isDir; return sector) p
        (.error (.refused e)) p₁ := (Runs.allocate hmap hx).bind hrun.bind_halt
    refine ⟨given p₁ (x :: new), (hspent.refused_runs hmap hrun).bind_halt,
      hspent.unharmed hmap fun y hy _ => hblock y ?_⟩
    rw [taken_reserved hmap hx, hy, Bool.or_true]

end Create

/-! ## Longer files -/

/-- **A file on record is lengthened.** -/
theorem extend_runs (h : FileAt p x d f) (hsize : d.size ≤ length)
    (hclaim : claim p.freeMap d.size length = .ok new) :
    ∃ p' grown, Runs true (extend x d length) p (.ok grown) p' ∧
      Made p p' x grown (f.longer length new) new := by
  have hgrow := grow_claim h.draft hsize
  rw [hclaim] at hgrow
  obtain ⟨grown, p₁, p', hrun, hsave, hmade⟩ := hgrow
  have hbody : Runs true (do let grown ← grow d length; save x grown; return grown) p (.ok grown) p' :=
    hrun.bind (hsave.bind (Runs.pure grown))
  obtain ⟨count, hrun⟩ := hbody.reserving
  exact ⟨p', grown, hrun.bind ((Runs.emit _).bind (Runs.pure grown)), hmade⟩

/-- A file that cannot be lengthened is still on record, its sectors and bytes where they were. -/
theorem extend_refused (h : FileAt p x d f) (hsize : d.size ≤ length)
    (hclaim : claim p.freeMap d.size length = .error e) :
    ∃ p', Runs true (extend x d length) p (.error (.refused e)) p' ∧ Unharmed p p' f.owned ∧
      FileAt p' x d f := by
  have hmap := h.hung.lawful
  have hgrow := grow_claim h.draft hsize
  rw [hclaim] at hgrow
  obtain ⟨p₁, new, hrun, hg⟩ := hgrow
  refine ⟨given p₁ new, (hg.toSpent.refused_runs hmap hrun.bind_halt).bind_halt, ?_, h.refused hg⟩
  -- only index blocks have changed, and those the file owns
  refine hg.toSpent.unharmed hmap fun y hy hloose => hg.frame y (hg.not_mem hy) ?_
  intro t ht _ he
  rw [he, ← h.record.owned] at hloose
  exact hloose (List.mem_map_of_mem ht)

end InodeStore.Inode
