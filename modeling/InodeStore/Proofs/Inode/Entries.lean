import InodeStore.Proofs.Inode.Layout

/-!
# `Proofs.Inode.Entries` — the list of a file's sectors without its index blocks

The sectors of a file are listed in the order they were taken in, an index block before the blocks that hang on
it. So every sector has a place in the list that does not depend on the file (`entry_of_spots`), and without
those of index blocks the list has one entry for each data block, in order (`getElem?_dataEntries`).
-/

namespace InodeStore

/-- Is that the place of an index block in the list? The first index block comes after the blocks of the
    descriptor, the second after the blocks of the first, and then there is one before each 128 blocks. -/
def isIndexEntry (i : Nat) : Bool := i = 12 || i = 141 || (142 ≤ i && (i - 142) % 129 = 0)

theorem isIndexEntry_iff {i : Nat} :
    isIndexEntry i = true ↔ i = 12 ∨ i = 141 ∨ 142 ≤ i ∧ (i - 142) % 129 = 0 := by
  simp [isIndexEntry, or_assoc]

/-- The list without the index blocks. -/
def dataEntries (sectors : List SectorId) : List SectorId :=
  (sectors.zipIdx.filter fun entry => !isIndexEntry entry.2).map Prod.fst

/-! ## Places -/

/-- The place of a spot's sector in the list. -/
def Spot.entry : Spot → Nat
  | .index => 12
  | .outerIndex => 141
  | .innerIndex outer => 142 + 129 * outer.val
  | .data (.direct slot) => slot.val
  | .data (.indirect slot) => 13 + slot.val
  | .data (.doubly outer inner) => 143 + 129 * outer.val + inner.val

theorem isIndexEntry_entry (t : Spot) : isIndexEntry t.entry = t.isIndex := by
  have hiff : isIndexEntry t.entry = true ↔ t.isIndex = true := by
    rw [isIndexEntry_iff]
    cases t with
    | index => simp [Spot.entry, Spot.isIndex]
    | outerIndex => simp [Spot.entry, Spot.isIndex]
    | innerIndex outer => simp [Spot.entry, Spot.isIndex]
    | data place =>
      simp only [Spot.isIndex, Bool.false_eq_true, iff_false]
      cases place <;> simp only [Spot.entry] <;> omega
  exact Bool.eq_iff_iff.mpr hiff

namespace Inode

variable {place : Position} {t : Spot} {start i n : Nat}

/-- A file whose last block is at a place has that block for the last entry. -/
theorem length_spots_number (place : Position) :
    (spots (place.number + 1)).length = (Spot.data place).entry + 1 := by
  have hlength := length_spots_le (Nat.succ_le_of_lt place.number_lt)
  rw [hlength]
  cases place with
  | direct slot => grind [Position.number, Spot.entry]
  | indirect slot => grind [Position.number, Spot.entry]
  | doubly outer inner => grind [Position.number, Spot.entry]

/-- What is taken with a block comes right before it. -/
theorem map_entry_spotsAt (hstart : start + (spotsAt place).length = (Spot.data place).entry + 1) :
    (spotsAt place).map Spot.entry = List.range' start (spotsAt place).length := by
  cases place with
  | direct slot =>
    obtain rfl : start = slot.val := Nat.succ.inj hstart
    rfl
  | indirect slot =>
    by_cases hfirst : slot.val = 0
    · have hspots : spotsAt (.indirect slot) = [.index, .data (.indirect slot)] := by simp [spotsAt, hfirst]
      rw [hspots] at hstart ⊢
      simp only [List.length_cons, List.length_nil, Spot.entry] at hstart
      obtain rfl : start = 12 := by omega
      simp [Spot.entry, List.range', hfirst]
    · have hspots : spotsAt (.indirect slot) = [.data (.indirect slot)] := by simp [spotsAt, hfirst]
      rw [hspots] at hstart ⊢
      obtain rfl : start = (Spot.data (.indirect slot)).entry := Nat.succ.inj hstart
      rfl
  | doubly outer inner =>
    by_cases hinner : inner.val = 0
    · by_cases houter : outer.val = 0
      · have hspots : spotsAt (.doubly outer inner) =
            [.outerIndex, .innerIndex outer, .data (.doubly outer inner)] := by simp [spotsAt, hinner, houter]
        rw [hspots] at hstart ⊢
        simp only [List.length_cons, List.length_nil, Spot.entry] at hstart
        obtain rfl : start = 141 := by omega
        simp [Spot.entry, List.range', hinner, houter]
      · have hspots : spotsAt (.doubly outer inner) = [.innerIndex outer, .data (.doubly outer inner)] := by
          simp [spotsAt, hinner, houter]
        rw [hspots] at hstart ⊢
        simp only [List.length_cons, List.length_nil, Spot.entry] at hstart
        obtain rfl : start = 142 + 129 * outer.val := by omega
        simp [Spot.entry, List.range', hinner]
        omega
    · have hspots : spotsAt (.doubly outer inner) = [.data (.doubly outer inner)] := by simp [spotsAt, hinner]
      rw [hspots] at hstart ⊢
      obtain rfl : start = (Spot.data (.doubly outer inner)).entry := Nat.succ.inj hstart
      rfl

/-- The blocks of a file are taken in the order of their entries. -/
theorem map_entry_spots (hn : n ≤ maxFileBlocks) : (spots n).map Spot.entry = List.range (spots n).length := by
  induction n with
  | zero => rfl
  | succ n ih =>
    obtain ⟨place, hplace⟩ := Option.isSome_iff_exists.mp ((Position.of?_isSome n).mpr hn)
    have hlength := length_spots_number place
    rw [Position.number_of_of? hplace, spots_succ, spotsOf_of_of? hplace, List.length_append] at hlength
    rw [spots_succ, spotsOf_of_of? hplace, List.map_append, ih (Nat.le_of_succ_le hn),
      map_entry_spotsAt hlength, List.length_append, List.range_eq_range', List.range_eq_range',
      ← List.range'_append_1, Nat.zero_add]

/-- **The place of a spot** does not depend on the file. -/
theorem entry_of_spots (hn : n ≤ maxFileBlocks) (h : (spots n)[i]? = some t) : i = t.entry := by
  obtain ⟨hi, -⟩ := List.getElem?_eq_some_iff.mp h
  have hentry : ((spots n).map Spot.entry)[i]? = some t.entry := by rw [List.getElem?_map, h]; rfl
  rw [map_entry_spots hn, List.getElem?_range hi] at hentry
  exact Option.some.inj hentry

/-- A spot that is filled has an entry, which is that of its sector. -/
theorem getElem?_tree (hn : n ≤ maxFileBlocks) (ht : t.due < n) (b : SectorArray) (d : Descriptor) :
    (tree b d n)[t.entry]? = some (sectorOf b d t) := by
  obtain ⟨i, hi⟩ := List.mem_iff_getElem?.mp ((mem_spots hn).mpr ht)
  rw [← entry_of_spots hn hi, tree, List.getElem?_map, hi]
  rfl

/-! ## Data blocks -/

/-- The data blocks of a file of `n` blocks, in order. -/
def dataSpots (n : Nat) : List Spot := (spots n).filter fun t => !t.isIndex

theorem dataSpots_succ (hplace : Position.of? n = some place) :
    dataSpots (n + 1) = dataSpots n ++ [.data place] := by
  have hblock : (spotsAt place).filter (fun t => !t.isIndex) = [.data place] := by
    cases place with
    | direct slot => rfl
    | indirect slot => by_cases h : slot.val = 0 <;> simp [spotsAt, h, Spot.isIndex]
    | doubly outer inner =>
      by_cases h : inner.val = 0
      · by_cases h' : outer.val = 0 <;> simp [spotsAt, h, h', Spot.isIndex]
      · simp [spotsAt, h, Spot.isIndex]
  rw [dataSpots, spots_succ, spotsOf_of_of? hplace, List.filter_append, hblock]
  rfl

theorem length_dataSpots (hn : n ≤ maxFileBlocks) : (dataSpots n).length = n := by
  induction n with
  | zero => rfl
  | succ n ih =>
    obtain ⟨place, hplace⟩ := Option.isSome_iff_exists.mp ((Position.of?_isSome n).mpr hn)
    rw [dataSpots_succ hplace, List.length_append, ih (Nat.le_of_succ_le hn)]
    rfl

theorem getElem?_dataSpots (hn : n ≤ maxFileBlocks) (hplace : place.number < n) :
    (dataSpots n)[place.number]? = some (.data place) := by
  induction n with
  | zero => cases hplace
  | succ n ih =>
    obtain ⟨last, hlast⟩ := Option.isSome_iff_exists.mp ((Position.of?_isSome n).mpr hn)
    have hcount := length_dataSpots (Nat.le_of_succ_le hn)
    rw [dataSpots_succ hlast]
    by_cases he : place.number = n
    · obtain rfl : last = place := Position.number_injective ((Position.number_of_of? hlast).trans he.symm)
      rw [he, List.getElem?_append_right (Nat.le_of_eq hcount), hcount, Nat.sub_self]
      rfl
    · rw [List.getElem?_append_left (by omega)]
      exact ih (Nat.le_of_succ_le hn) (by omega)

/-- **Without index blocks** the list has the data blocks, in order. -/
theorem dataEntries_tree (hn : n ≤ maxFileBlocks) (b : SectorArray) (d : Descriptor) :
    dataEntries (tree b d n) = (dataSpots n).map (sectorOf b d) := by
  have hsame : ∀ entry ∈ (spots n).zipIdx, (!isIndexEntry entry.2) = !entry.1.isIndex := by
    rintro ⟨t, i⟩ hentry
    have hplace : i = t.entry := entry_of_spots hn (List.mem_zipIdx_iff_getElem?.mp hentry)
    rw [hplace, isIndexEntry_entry]
  have hspots : ((spots n).zipIdx.filter fun entry => !entry.1.isIndex).map Prod.fst = dataSpots n := by
    have hfst := List.filter_map (f := Prod.fst) (p := fun t : Spot => !t.isIndex) (l := (spots n).zipIdx)
    rw [List.zipIdx_map_fst] at hfst
    exact hfst.symm
  have hnumbers : ((tree b d n).zipIdx.filter fun entry => !isIndexEntry entry.2) =
      ((spots n).zipIdx.filter fun entry => !entry.1.isIndex).map (Prod.map (sectorOf b d) id) := by
    rw [tree, List.zipIdx_map, List.filter_map, ← List.filter_congr hsame]
    rfl
  rw [dataEntries, hnumbers, List.map_map, ← hspots, List.map_map]
  rfl

theorem length_dataEntries (hn : n ≤ maxFileBlocks) (b : SectorArray) (d : Descriptor) :
    (dataEntries (tree b d n)).length = n := by
  rw [dataEntries_tree hn, List.length_map, length_dataSpots hn]

/-- The entry of a data block. -/
theorem getElem?_dataEntries (hn : n ≤ maxFileBlocks) (hplace : place.number < n) (b : SectorArray)
    (d : Descriptor) : (dataEntries (tree b d n))[place.number]? = some (sectorOf b d (.data place)) := by
  rw [dataEntries_tree hn, List.getElem?_map, getElem?_dataSpots hn hplace]
  rfl

end Inode

end InodeStore
