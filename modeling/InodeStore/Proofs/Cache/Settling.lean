import InodeStore.Proofs.Cache.Journal

/-!
# `Proofs.Cache.Settling` — what frames owe to the disk

A dirty frame owes its content to the disk, and it settles that when it is flushed or given to another sector.
For each sector, what is written as frames settle and whether it is dirty afterwards make up whether it was
dirty before (`Settling.balance`). As long as the frames hold what an array of blocks says, and the disk does
where nothing newer is in the cache (`Faithful`), what is written is content of that array, and so the disk
goes on holding it (`Faithful.settle`). For an access both together are `acquire_served`.

## Contents
- `Puts` and `Gets` on a journaled disk.
- `Settling`, and which operations settle which frames.
- `Faithful`, and what a change of a frame does to it.
- `Served`: an access.
-/

namespace InodeStore

/-! ## What is on a journaled disk -/

namespace Journaled

variable {d d' : Journaled RamDisk} {s : SectorId} {b : Block}

/-- A sector that is read is in the content of the disk. -/
theorem read_ok (h : BlockDevice.read s d = (.ok b, d')) :
    b = LawfulDevice.block d s ∧ LawfulDevice.block d' = LawfulDevice.block d ∧ d'.written = d.written ∧
      d'.device.reads = d.device.reads + 1 ∧ d'.device.writes = d.device.writes := by
  have hread : ((RamDisk.read s d.device).1, ({ d with device := (RamDisk.read s d.device).2 } :
      Journaled RamDisk)) = (.ok b, d') := h
  unfold RamDisk.read at hread
  cases hs : d.device.sectors[s.toNat]? with
  | none =>
    rw [hs] at hread
    cases hread
  | some block =>
    rw [hs] at hread
    cases hread
    refine ⟨?_, rfl, rfl, rfl, rfl⟩
    show _ = d.device.sectors[s.toNat]?.getD Block.zero
    rw [hs]
    rfl

/-- A sector that is written is in the journal. -/
theorem write_ok (h : BlockDevice.write s b d = (.ok (), d')) :
    LawfulDevice.block d' = Function.update (LawfulDevice.block d) s b ∧ d'.written = (s, b) :: d.written ∧
      d'.device.reads = d.device.reads ∧ d'.device.writes = d.device.writes + 1 := by
  by_cases hs : s.toNat < d.device.sectors.size
  · obtain ⟨d₁, hwrite, -, -, hblock⟩ := LawfulDevice.write_eq (d := d) b trivial hs
    have hd₁ : d₁ = d' := congrArg Prod.snd (hwrite.symm.trans h)
    subst hd₁
    refine ⟨hblock, ?_⟩
    have hdisk : RamDisk.write s b d.device = (.ok (),
        ⟨d.device.sectors.setIfInBounds s.toNat b, d.device.reads, d.device.writes + 1⟩) := if_pos hs
    simp only [BlockDevice.write, hdisk] at h
    cases h
    exact ⟨rfl, rfl, rfl⟩
  · have hdisk : RamDisk.write s b d.device = (.error (.writeBeyondDisk s), d.device) := if_neg hs
    simp only [BlockDevice.write, hdisk] at h
    cases h

end Journaled

namespace Cache

section Transfers

variable {d d' : Journaled RamDisk} {written : List (SectorId × Block)} {fill : Fill} {s t : SectorId} {b : Block}

/-- Blocks that are written are in the journal, and counted. -/
theorem Puts.journal (h : Puts written d d') : d'.written = written.reverse ++ d.written ∧
    d'.device.reads = d.device.reads ∧ d'.device.writes = d.device.writes + written.length := by
  induction written generalizing d with
  | nil =>
    obtain rfl : d' = d := h
    exact ⟨rfl, rfl, rfl⟩
  | cons entry rest ih =>
    obtain ⟨mid, hwrite, hrest⟩ := h
    obtain ⟨hwritten, hreads, hwrites⟩ := ih hrest
    obtain ⟨-, hwritten', hreads', hwrites'⟩ := Journaled.write_ok hwrite
    refine ⟨?_, hreads.trans hreads', ?_⟩
    · rw [hwritten, hwritten']
      simp
    · rw [hwrites, hwrites', List.length_cons]
      omega

/-- If all that is written is content of an array, the disk has that content wherever it had it before or was
    written to. -/
theorem Puts.block (h : Puts written d d') {a : SectorArray} (ha : ∀ e ∈ written, e.2 = a e.1)
    (ht : t ∈ written.map Prod.fst ∨ LawfulDevice.block d t = a t) : LawfulDevice.block d' t = a t := by
  induction written generalizing d with
  | nil =>
    obtain rfl : d' = d := h
    rcases ht with ht | ht
    · cases ht
    · exact ht
  | cons entry rest ih =>
    obtain ⟨mid, hwrite, hrest⟩ := h
    obtain ⟨hblock, -⟩ := Journaled.write_ok hwrite
    have hentry : entry.2 = a entry.1 := ha entry List.mem_cons_self
    refine ih hrest (fun e he => ha e (List.mem_cons_of_mem _ he)) ?_
    by_cases hte : t = entry.1
    · right
      rw [hblock, hte, Function.update_self, hentry]
    · rcases ht with ht | ht
      · rw [List.map_cons, List.mem_cons] at ht
        exact Or.inl (ht.resolve_left hte)
      · right
        rw [hblock, Function.update_of_ne hte, ht]

/-- Filling a frame writes nothing, and what is read is what the disk holds. -/
theorem Gets.journal (h : Gets fill s b d d') : d'.written = d.written ∧
    LawfulDevice.block d' = LawfulDevice.block d ∧
    d'.device.reads = d.device.reads + (if fill = .readThrough then 1 else 0) ∧
    d'.device.writes = d.device.writes ∧ (fill = .readThrough → b = LawfulDevice.block d s) := by
  cases fill with
  | overwrite =>
    obtain rfl : d' = d := h
    exact ⟨rfl, rfl, rfl, rfl, nofun⟩
  | readThrough =>
    obtain ⟨hb, hblock, hwritten, hreads, hwrites⟩ := Journaled.read_ok h
    exact ⟨hwritten, hblock, hreads, hwrites, fun _ => hb⟩

end Transfers

/-! ## Frames that settle what they owe -/

section Settling

variable {δ : Type} {n : Nat} {cache cache' : Cache δ n} {frames : List (Fin n)} {s t : SectorId} {i j : Fin n}

/-- After some frames have settled what they owed to the device, a sector is dirty if one of the others
    carries it and is. -/
def Settling (frames : List (Fin n)) (cache cache' : Cache δ n) : Prop :=
  ∀ t, cache'.isDirty t = true ↔ ∃ j, cache.Carries j t ∧ (cache.frame j).dirty = true ∧ j ∉ frames

theorem leaving_eq_some (hc : cache.Fitted) :
    cache.leaving j = some t ↔ cache.Carries j t ∧ (cache.frame j).dirty = true := by
  unfold leaving
  constructor
  · intro h
    split at h
    · next hdirty => exact ⟨⟨hc.mem_recency (Or.inl hdirty), h⟩, hdirty⟩
    · cases h
  · rintro ⟨hj, hdirty⟩
    rw [if_pos hdirty]
    exact hj.2

theorem map_fst_due (frames : List (Fin n)) :
    (frames.flatMap cache.due).map Prod.fst = frames.filterMap cache.leaving := by
  induction frames with
  | nil => rfl
  | cons j rest ih =>
    rw [List.flatMap_cons, List.map_append, ih, due]
    cases hleaving : cache.leaving j with
    | none => rw [List.filterMap_cons_none hleaving]; rfl
    | some s => rw [List.filterMap_cons_some hleaving]; rfl

/-- What a frame has for the device is the content of a dirty sector. -/
theorem mem_due (hc : cache.Fitted) {e : SectorId × Block} (he : e ∈ frames.flatMap cache.due) :
    ∃ j ∈ frames, cache.Carries j e.1 ∧ (cache.frame j).dirty = true ∧ e.2 = (cache.frame j).data := by
  obtain ⟨j, hj, he⟩ := List.mem_flatMap.mp he
  rw [due, Option.mem_toList, Option.map_eq_some_iff] at he
  obtain ⟨s, hleaving, rfl⟩ := he
  obtain ⟨hcarries, hdirty⟩ := (leaving_eq_some hc).mp hleaving
  exact ⟨j, hj, hcarries, hdirty, rfl⟩

/-- **A balance for each sector**: what settling frames write of it, and whether it is dirty afterwards, is
    whether it was dirty before. -/
theorem Settling.balance (h : Settling frames cache cache') (hc : cache.Fitted) (hframes : frames.Nodup)
    (t : SectorId) : (frames.flatMap cache.due).countP (fun e => e.1 = t) + (cache'.isDirty t).toNat =
      (cache.isDirty t).toNat := by
  have hnodup : (frames.filterMap cache.leaving).Nodup := by
    refine List.pairwise_filterMap.mpr (hframes.imp fun {i j} hij => ?_)
    rintro s hs _ ht rfl
    exact hij (hc.unique ((leaving_eq_some hc).mp hs).1 ((leaving_eq_some hc).mp ht).1)
  have hcount : (frames.flatMap cache.due).countP (fun e => e.1 = t) =
      (frames.filterMap cache.leaving).count t := by
    rw [← map_fst_due, List.count, List.countP_map]
    rfl
  rw [hcount, hnodup.count]
  cases hdirty : cache.isDirty t with
  | false =>
    have hnot : ∀ j, ¬ (cache.Carries j t ∧ (cache.frame j).dirty = true) := by
      intro j hj
      rw [hc.isDirty_iff.mpr ⟨j, hj⟩] at hdirty
      cases hdirty
    have hafter : cache'.isDirty t = false := by
      rw [← Bool.not_eq_true, h t]
      rintro ⟨j, hj, hjdirty, -⟩
      exact hnot j ⟨hj, hjdirty⟩
    have hmem : t ∉ frames.filterMap cache.leaving := by
      rw [List.mem_filterMap]
      rintro ⟨j, -, hj⟩
      exact hnot j ((leaving_eq_some hc).mp hj)
    rw [if_neg hmem, hafter]
    rfl
  | true =>
    obtain ⟨i, hi, hidirty⟩ := hc.isDirty_iff.mp hdirty
    -- it is the frame of the sector, and no other one, that settles or does not
    by_cases hmem : i ∈ frames
    · have hafter : cache'.isDirty t = false := by
        rw [← Bool.not_eq_true, h t]
        rintro ⟨j, hj, -, hfree⟩
        exact hfree (hc.unique hi hj ▸ hmem)
      rw [if_pos (List.mem_filterMap.mpr ⟨i, hmem, (leaving_eq_some hc).mpr ⟨hi, hidirty⟩⟩), hafter]
      rfl
    · have hafter : cache'.isDirty t = true := (h t).mpr ⟨i, hi, hidirty, hmem⟩
      have hnot : t ∉ frames.filterMap cache.leaving := by
        rw [List.mem_filterMap]
        rintro ⟨j, hj, hleaving⟩
        exact hmem (hc.unique hi ((leaving_eq_some hc).mp hleaving).1 ▸ hj)
      rw [if_neg hnot, hafter]
      rfl

/-- A flush settles everything. -/
theorem Cleaned.settling [BlockDevice δ] (h : Cleaned frames cache cache') (hc : cache.Fitted) :
    Settling frames cache cache' := by
  intro t
  rw [(h.fitted hc).isDirty_iff]
  refine exists_congr fun j => ?_
  rw [h.carries, h.frame]
  simp

/-- So does a look for a sector that is in the cache, with no frame at all. -/
theorem settling_found (hc : cache.Fitted) (hi : cache.Carries i s) : Settling [] cache (cache.found i) := by
  intro t
  rw [(hc.found hi).isDirty_iff]
  simp [carries_found hi.1]

/-- A frame that is given to a sector settles. -/
theorem Loaded.settling [BlockDevice δ] {fill : Fill} (h : Loaded cache fill s i cache') (hc : cache.Fitted)
    (hmiss : cache.frameOf? s = none) : Settling [i] cache cache' := by
  intro t
  rw [(h.fitted hc hmiss).isDirty_iff]
  refine exists_congr fun j => ?_
  rw [List.mem_singleton]
  constructor
  · rintro ⟨hj, hdirty⟩
    rcases h.carries_cases hj with ⟨rfl, -⟩ | ⟨hji, hj⟩
    · obtain ⟨b, mid, -, -, hframe⟩ := h.filled
      rw [hframe] at hdirty
      cases hdirty
    · exact ⟨hj, h.other j hji ▸ hdirty, hji⟩
  · rintro ⟨hj, hdirty, hji⟩
    exact ⟨h.carries_of_ne hj hji, (h.other j hji).symm ▸ hdirty⟩

/-- Whether sectors are dirty after a change of the frame of one of them. -/
theorem isDirty_mapFrame (hc : cache.Fitted) (hi : cache.Carries i s) {change : Frame → Frame}
    (hsector : (change (cache.frame i)).sector = (cache.frame i).sector) :
    (cache.mapFrame i change).isDirty t =
      if t = s then (change (cache.frame i)).dirty else cache.isDirty t := by
  have hc' := hc.mapFrame hi.1 hsector
  split
  · next hts =>
    subst hts
    rw [hc'.isDirty_eq ((carries_mapFrame hsector).mpr hi), frame_mapFrame_self]
  · next hts =>
    rw [Bool.eq_iff_iff, hc'.isDirty_iff, hc.isDirty_iff]
    refine exists_congr fun j => ?_
    rw [carries_mapFrame hsector]
    refine and_congr_right fun hj => ?_
    have hji : j ≠ i := by
      rintro rfl
      exact hts (hj.sector_eq hi)
    rw [frame_mapFrame_of_ne _ _ hji]

end Settling

/-! ## Content -/

section Content

variable {n : Nat} {cache cache' : Cache (Journaled RamDisk) n} {frames : List (Fin n)} {a : SectorArray}
  {hole : Option SectorId} {s t : SectorId} {i j : Fin n}

/-- The frames hold what the array says, but for that of one sector, `hole`; and so does the disk where
    nothing newer is in the cache. -/
structure Faithful (hole : Option SectorId) (a : SectorArray) (cache : Cache (Journaled RamDisk) n) :
    Prop where
  data : ∀ {j t}, cache.Carries j t → hole ≠ some t → (cache.frame j).data = a t
  clean : ∀ t, cache.isDirty t = false → LawfulDevice.block cache.device t = a t

/-- With no such sector. -/
theorem Faithful.data_eq (h : Faithful none a cache) (hj : cache.Carries j t) : (cache.frame j).data = a t :=
  h.data hj (Option.some_ne_none t).symm

/-- What frames have for the disk is content of dirty sectors. -/
theorem Faithful.due (h : Faithful none a cache) (hc : cache.Fitted) {e : SectorId × Block}
    (he : e ∈ frames.flatMap cache.due) : cache.isDirty e.1 = true ∧ e.2 = a e.1 := by
  obtain ⟨j, -, hj, hdirty, hdata⟩ := mem_due hc he
  exact ⟨hc.isDirty_iff.mpr ⟨j, hj, hdirty⟩, hdata.trans (h.data_eq hj)⟩

/-- Once frames have settled, the disk holds the content of all that is clean. -/
theorem Faithful.settle (h : Faithful none a cache) (hc : cache.Fitted) (hsettling : Settling frames cache cache')
    {d : Journaled RamDisk} (hputs : Puts (frames.flatMap cache.due) cache.device d)
    (ht : cache'.isDirty t = false) : LawfulDevice.block d t = a t := by
  refine hputs.block (fun e he => (h.due hc he).2) ?_
  cases hdirty : cache.isDirty t with
  | false => exact Or.inr (h.clean t hdirty)
  | true =>
    left
    obtain ⟨i, hi, hidirty⟩ := hc.isDirty_iff.mp hdirty
    rw [map_fst_due, List.mem_filterMap]
    refine ⟨i, ?_, (leaving_eq_some hc).mpr ⟨hi, hidirty⟩⟩
    by_contra hfree
    rw [(hsettling t).mpr ⟨i, hi, hidirty, hfree⟩] at ht
    cases ht

/-- A change of a sector's frame that the array follows. The frame may stay clean only if its content is as it
    was. -/
theorem Faithful.mapFrame (h : Faithful hole a cache) (hc : cache.Fitted) (hi : cache.Carries i s)
    (hhole : hole = none ∨ hole = some s) (change : Frame → Frame)
    (hsector : (change (cache.frame i)).sector = (cache.frame i).sector)
    (hclean : (change (cache.frame i)).dirty = false →
      (cache.frame i).dirty = false ∧ (change (cache.frame i)).data = a s) :
    Faithful none (Function.update a s (change (cache.frame i)).data) (cache.mapFrame i change) := by
  constructor
  · intro j t hj _
    rw [carries_mapFrame hsector] at hj
    rw [frame_mapFrame]
    split
    · next hji =>
      rw [hj.sector_eq (hji ▸ hi), Function.update_self]
    · next hji =>
      have hts : t ≠ s := fun he => hji (hc.unique hj (he ▸ hi))
      rw [Function.update_of_ne hts]
      exact h.data hj (hole_ne hhole hts)
  · intro t ht
    rw [isDirty_mapFrame hc hi hsector] at ht
    show LawfulDevice.block cache.device t = _
    split at ht
    · next hts =>
      subst hts
      obtain ⟨hbefore, hdata⟩ := hclean ht
      rw [Function.update_self, hdata]
      exact h.clean t ((hc.isDirty_eq hi).trans hbefore)
    · next hts =>
      rw [Function.update_of_ne hts]
      exact h.clean t ht

end Content

/-! ## Access -/

section Access

variable {n : Nat} {cache taken : Cache (Journaled RamDisk) n} {a : SectorArray} {fill : Fill} {s : SectorId}
  {i : Fin n} {log : List Event}

/-- What an access that ends well writes: what the frames have that settle, none or one. -/
structure Served (a : SectorArray) (fill : Fill) (s : SectorId) (frames : List (Fin n))
    (cache taken : Cache (Journaled RamDisk) n) : Prop where
  nodup : frames.Nodup
  settling : Settling frames cache taken
  same : taken.isDirty s = cache.isDirty s
  faithful : Faithful (if fill = .overwrite then some s else none) a taken
  written : taken.device.written = (frames.flatMap cache.due).reverse ++ cache.device.written
  reads : taken.deviceReads + cache.device.device.reads = cache.deviceReads + taken.device.device.reads
  writes : taken.deviceWrites + cache.device.device.writes = cache.deviceWrites + taken.device.device.writes
  total : taken.device.device.writes = cache.device.device.writes + (frames.flatMap cache.due).length

theorem acquire_served (hc : cache.Fitted) (h : Faithful none a cache)
    (hrun : acquire fill s cache = ⟨.ok i, taken, log⟩) : ∃ frames, Served a fill s frames cache taken := by
  rcases acquire_ok hc.evicting hrun with ⟨hit, rfl⟩ | ⟨hmiss, hloaded⟩
  · have hi : cache.Carries i s := carries_of_frameOf? hit
    have hsettling := settling_found hc hi
    have hsame : ∀ t, (cache.found i).isDirty t = cache.isDirty t := by
      intro t
      rw [Bool.eq_iff_iff, hsettling t, hc.isDirty_iff]
      simp
    refine ⟨[], List.nodup_nil, hsettling, hsame s, ⟨fun {j t} hj _ => ?_, fun t ht => ?_⟩, rfl, rfl, rfl, rfl⟩
    · rw [data_found]
      exact h.data_eq ((carries_found hi.1).mp hj)
    · exact h.clean t (hsame t ▸ ht)
  · have hsettling := hloaded.settling hc hmiss
    obtain ⟨b, mid, hputs, hgets, hframe⟩ := hloaded.filled
    have hputs : Puts ([i].flatMap cache.due) cache.device mid := by
      rwa [List.flatMap_singleton]
    obtain ⟨hwritten, hreads, hwrites⟩ := hputs.journal
    obtain ⟨hwritten', hblock, hreads', hwrites', hb⟩ := hgets.journal
    have hclean : taken.isDirty s = false := by
      rw [(hloaded.fitted hc hmiss).isDirty_eq hloaded.carries, hframe]
    have hbefore : cache.isDirty s = false := by
      rw [isDirty, hmiss]
    have hsettled : ∀ t, taken.isDirty t = false → LawfulDevice.block taken.device t = a t := by
      intro t ht
      rw [hblock]
      exact h.settle hc hsettling hputs ht
    have hdue := hloaded.deviceWrites
    rw [← List.flatMap_singleton (f := cache.due)] at hdue
    refine ⟨[i], List.nodup_singleton i, hsettling, hclean.trans hbefore.symm,
      ⟨fun {j t} hj hhole => ?_, hsettled⟩, hwritten'.trans hwritten, ?_, ?_, hwrites'.trans hwrites⟩
    · rcases hloaded.carries_cases hj with ⟨rfl, rfl⟩ | ⟨hji, hj⟩
      · -- what was read is the content of the disk, and the sector was not dirty
        have hfill : fill = .readThrough := by
          cases fill with
          | readThrough => rfl
          | overwrite => exact absurd rfl hhole
        rw [hframe, ← hsettled t hclean, hblock]
        exact hb hfill
      · rw [hloaded.other j hji]
        exact h.data_eq hj
    · rw [hloaded.deviceReads, hreads', hreads]
      omega
    · rw [hdue, hwrites', hwrites]
      omega

end Access

end Cache

end InodeStore
