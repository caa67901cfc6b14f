import InodeStore.Proofs.Inode.Lengthening

/-!
# `Proofs.Inode.Files` — what is asked about a file

`FileAt p x d f` is a file that can be used: it is on record, its sectors and that of its descriptor are
taken, and none of them twice. Its record is all that the questions about it depend on: length, kind,
content, the sector of a byte (`FileRecord.sectorAt`) and the list of its sectors. `releaseInode` gives
back exactly these sectors, each of them once.
-/

namespace InodeStore.Inode

open Routine

/-- The sector that holds a byte. -/
def FileRecord.sectorAt (f : FileRecord) (offset : Nat) : Option SectorId :=
  if offset < f.bytes.size then
    (Position.of? (offset / sectorSize)).bind fun place =>
      ((spots (dataBlocks f.bytes.size)).zip f.owned).lookup (.data place)
  else none

/-- All sectors of a file with its descriptor at `x`. -/
def FileRecord.sectors (f : FileRecord) (x : SectorId) : List SectorId := f.owned ++ [x]

/-- A file that can be used. -/
structure FileAt (p : Plain) (x : SectorId) (d : Descriptor) (f : FileRecord) : Prop where
  record : OnRecord p.block x d f
  hung : Hung p d (spots (dataBlocks d.size))
  taken : p.freeMap.taken x.toNat = true
  inside : x.toNat < p.freeMap.sectors
  own : x ∉ f.owned

variable {p p' : Plain} {x : SectorId} {d : Descriptor} {f : FileRecord} {offset count : Nat}

theorem FileAt.permits (h : FileAt p x d f) : p.Permits true x :=
  ⟨Nat.lt_of_lt_of_le h.inside h.hung.fits, fun _ => h.taken⟩

theorem FileAt.nodup (h : FileAt p x d f) : (f.sectors x).Nodup := by
  refine List.nodup_append.mpr ⟨?_, List.nodup_singleton x, ?_⟩
  · rw [← h.record.owned]
    exact h.hung.nodup
  · intro s hs t ht he
    rw [List.mem_singleton.mp ht] at he
    exact h.own (he ▸ hs)

/-- The sectors of a file are taken sectors of the map. -/
theorem FileAt.mem (h : FileAt p x d f) {s : SectorId} (hs : s ∈ f.sectors x) :
    s.toNat < p.freeMap.sectors ∧ p.freeMap.taken s.toNat = true := by
  rcases List.mem_append.mp hs with hs | hs
  · rw [← h.record.owned] at hs
    obtain ⟨t, ht, rfl⟩ := List.mem_map.mp hs
    exact ⟨h.hung.inside t ht, h.hung.taken t ht⟩
  · rw [List.mem_singleton.mp hs]
    exact ⟨h.inside, h.taken⟩

/-! ## Questions -/

theorem FileAt.load_runs (h : FileAt p x d f) : Runs true (load x) p (.ok d) p :=
  Inode.load_runs h.record.stored h.permits

theorem FileAt.length_runs (h : FileAt p x d f) :
    Runs true (length ⟨x⟩) p (.ok f.bytes.size) p :=
  h.record.holds.size ▸ h.load_runs.bind (Runs.pure _)

theorem FileAt.isDir_runs (h : FileAt p x d f) : Runs true (isDir ⟨x⟩) p (.ok f.isDir) p :=
  h.record.isDir ▸ h.load_runs.bind (Runs.pure _)

theorem FileAt.read_runs (h : FileAt p x d f) :
    Runs true (read ⟨x⟩ offset count) p
      (.ok (f.bytes.extract offset (min (offset + count) f.bytes.size))) p :=
  Inode.read_runs h.permits h.record.stored h.record.holds h.hung.open

/-- What a list is mapped to can be looked up. -/
theorem lookup_zip_map {l : List Spot} (g : Spot → SectorId) {t : Spot} (ht : t ∈ l) :
    (l.zip (l.map g)).lookup t = some (g t) := by
  induction l with
  | nil => cases ht
  | cons u rest ih =>
    rw [List.map_cons, List.zip_cons_cons, List.lookup_cons]
    by_cases he : t = u
    · rw [he, beq_self_eq_true]
    · rw [beq_false_of_ne he]
      exact ih ((List.mem_cons.mp ht).resolve_left he)

/-- The sector of a byte is known from the record. -/
theorem OnRecord.sectorAt_eq (h : OnRecord p.block x d f) {place : Position}
    (hoffset : offset < f.bytes.size) (hplace : place.number = offset / sectorSize) :
    f.sectorAt offset = some (sectorOf p.block d (.data place)) := by
  have hsize := h.holds.size
  have hlt : place.number < dataBlocks d.size := hplace ▸ hsize ▸ div_lt_dataBlocks hoffset
  unfold FileRecord.sectorAt
  rw [if_pos hoffset, ← hplace, Position.of?_number, Option.bind_some, ← h.owned, ← hsize]
  exact lookup_zip_map _ (data_mem_spots (dataBlocks_le h.stored.size) hlt)

section Stored

variable {guarded : Bool} (h : Stored p.block x d) (hx : p.Permits guarded x)
include h hx

/-- A byte is found where the descriptor leads, whatever else is true of the sectors. -/
theorem sectorOfByte_finds {place : Position} (hway : Navigable guarded p d (dataBlocks d.size))
    (hoffset : offset < d.size) (hplace : place.number = offset / sectorSize) :
    Runs guarded (sectorOfByte ⟨x⟩ offset) p (.ok (sectorOf p.block d (.data place))) p :=
  (Inode.load_runs h hx).bind (sectorAt_runs h.size hway hoffset hplace)

theorem sectorOfByte_refused (hoffset : d.size ≤ offset) :
    Runs guarded (sectorOfByte ⟨x⟩ offset) p (.error (.refused .outOfRange)) p :=
  (Inode.load_runs h hx).bind (sectorAt_refused hoffset)

end Stored

/-- **The sector of a byte**, if the file has that byte. -/
theorem FileAt.sectorOfByte_runs (h : FileAt p x d f) :
    Runs true (sectorOfByte ⟨x⟩ offset) p (match f.sectorAt offset with
      | some s => .ok s
      | none => .error (.refused .outOfRange)) p := by
  have hstored := h.record.stored
  have hsize := h.record.holds.size
  by_cases hoffset : offset < d.size
  · obtain ⟨place, -, hplace⟩ := locate?_eq hstored.size hoffset
    rw [h.record.sectorAt_eq (hsize ▸ hoffset) hplace]
    exact sectorOfByte_finds hstored h.permits h.hung.open.navigable hoffset hplace
  · rw [FileRecord.sectorAt, if_neg (hsize ▸ hoffset)]
    exact sectorOfByte_refused hstored h.permits (Nat.le_of_not_lt hoffset)

/-! ## All sectors -/

theorem tours_list (guarded : Bool) (l seen : List SectorId) :
    Tours guarded (fun seen s => (pure (s :: seen) : Routine (List SectorId))) l seen p
      (l.reverse ++ seen) p := by
  induction l generalizing seen with
  | nil => exact .nil
  | cons s rest ih =>
    rw [List.reverse_cons, List.append_assoc]
    exact .cons (Runs.pure _) rfl (fun _ hs => hs) (ih (s :: seen))

/-- The sectors that are listed are those of the spots in use, whatever else is true of them. -/
theorem ownedSectors_lists {guarded : Bool} (h : Stored p.block x d) (hx : p.Permits guarded x)
    (hway : Navigable guarded p d (dataBlocks d.size)) :
    Runs guarded (ownedSectors x) p (.ok (tree p.block d (dataBlocks d.size) ++ [x])) p := by
  apply (Inode.load_runs h hx).bind
  have hrun := visitOwned_runs h.size hway (tours_list guarded (tree p.block d (dataBlocks d.size)) [])
  have hlist : (x :: ((tree p.block d (dataBlocks d.size)).reverse ++ [])).reverse =
      tree p.block d (dataBlocks d.size) ++ [x] := by
    rw [List.append_nil, List.reverse_cons, List.reverse_reverse]
  exact hlist ▸ hrun.bind (Runs.pure _)

/-- **The list of a file's sectors.** -/
theorem FileAt.ownedSectors_runs (h : FileAt p x d f) :
    Runs true (ownedSectors x) p (.ok (f.sectors x)) p := by
  have hrun := ownedSectors_lists h.record.stored h.permits h.hung.open.navigable
  rwa [h.record.owned] at hrun

/-- The store once sectors were given back. -/
def given (p : Plain) (l : List SectorId) : Plain :=
  { p with freeMap := p.freeMap.giveAll l, gave := l.reverse ++ p.gave }

theorem given_append (p : Plain) (l l' : List SectorId) : given (given p l) l' = given p (l ++ l') := by
  unfold given FreeMap.giveAll
  rw [List.foldl_append, List.reverse_append, List.append_assoc]

theorem tours_release {l : List SectorId} (hmap : p.freeMap.Lawful) (hl : l.Nodup)
    (hs : ∀ s ∈ l, s.toNat < p.freeMap.sectors ∧ p.freeMap.taken s.toNat = true) (released : Nat) :
    Tours false (fun released s => do release s; return released + 1) l released p
      (released + l.length) (given p l) := by
  induction l generalizing p released with
  | nil => exact .nil
  | cons s rest ih =>
    obtain ⟨hlt, htaken⟩ := hs s List.mem_cons_self
    have hrest := ih (p := given p [s]) (hmap.assign hlt false) (List.nodup_cons.mp hl).2 (fun t ht => ?_)
      (released + 1)
    · rw [given_append, List.singleton_append] at hrest
      rw [List.length_cons, ← Nat.add_assoc, Nat.add_right_comm]
      exact .cons ((Runs.release hmap hlt htaken).bind (Runs.pure _)) rfl
        (fun t ht => ⟨ht.1, nofun⟩) hrest
    · obtain ⟨hlt', htaken'⟩ := hs t (List.mem_cons_of_mem _ ht)
      have hne : t.toNat ≠ s.toNat := fun he =>
        (List.nodup_cons.mp hl).1 (UInt32.toNat_inj.mp he ▸ ht)
      refine ⟨hlt', ?_⟩
      show (p.freeMap.assign s.toNat false).taken t.toNat = true
      rw [FreeMap.taken_assign (hmap.group_lt hlt), if_neg hne]
      exact htaken'

/-- **A file's sectors are given back**, each of them once. -/
theorem FileAt.releaseInode_runs (h : FileAt p x d f) :
    Runs false (releaseInode x) p (.ok ()) (given p (f.sectors x)) := by
  have hload : Runs false (load x) p (.ok d) p :=
    Inode.load_runs h.record.stored ⟨h.permits.1, nofun⟩
  apply hload.bind
  have hmem : ∀ s ∈ f.owned, s.toNat < p.freeMap.sectors ∧ p.freeMap.taken s.toNat = true :=
    fun s hs => h.mem (List.mem_append_left _ hs)
  have hnodup : f.owned.Nodup := (List.nodup_append.mp h.nodup).1
  have htour := tours_release h.hung.lawful hnodup hmem 0
  rw [← h.record.owned] at htour
  have hopen : ∀ t ∈ spots (dataBlocks d.size), t.isIndex = true →
      p.Permits false (sectorOf p.block d t) := fun t ht _ => ⟨(h.hung.open t ht).1, nofun⟩
  apply (visitOwned_runs h.record.stored.size hopen htour).bind
  rw [h.record.owned]
  obtain ⟨hlawful, hsectors, -, htaken⟩ :=
    FreeMap.foldl_assign h.hung.lawful false (l := f.owned) fun s hs => (hmem s hs).1
  have hx : (given p f.owned).freeMap.taken x.toNat = true := by
    apply (htaken x).trans
    rw [if_neg h.own]
    exact h.taken
  have hrelease : Runs false (release x) (given p f.owned) (.ok ()) (given (given p f.owned) [x]) :=
    Runs.release hlawful (Nat.lt_of_lt_of_eq h.inside hsectors.symm) hx
  exact (given_append p f.owned [x]) ▸ hrelease.bind (Runs.emit _)

end InodeStore.Inode
