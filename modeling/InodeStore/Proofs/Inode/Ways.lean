import InodeStore.Proofs.Inode.Looking
import InodeStore.Proofs.Store.Touches

/-!
# `Proofs.Inode.Ways` — the way to a block of a file

The way to a block leads from the descriptor through the index blocks above it (`above`), which are looked at on
every way to the block (`follow_uses`). So what a read looks at is known from the spots of a file: the
descriptor, and for every block that it reads from the spots on the way there and the block itself
(`FileAt.read_uses`). Every spot of a file is on the way to one of its blocks (`mem_spotsTo_due`).
-/

namespace InodeStore.Inode

open Routine

/-! ## Spots -/

/-- The index blocks on the way to a block, from the descriptor on. -/
def above : Position → List Spot
  | .direct _ => []
  | .indirect _ => [.index]
  | .doubly outer _ => [.outerIndex, .innerIndex outer]

/-- The spots that lead to block `k`, and its own. -/
def spotsTo (k : Nat) : List Spot :=
  ((Position.of? k).map fun place => above place ++ [.data place]).getD []

theorem spotsTo_of_of? {k : Nat} {place : Position} (h : Position.of? k = some place) :
    spotsTo k = above place ++ [.data place] := by
  unfold spotsTo
  rw [h]
  rfl

variable {place : Position} {t : Spot} {n k : Nat}

theorem isIndex_of_mem_above (ht : t ∈ above place) : t.isIndex = true := by
  cases place <;> simp [above] at ht <;> rcases ht with rfl | rfl <;> rfl

/-- What is above a block is due with it, or before it. -/
theorem due_le_of_mem_above (ht : t ∈ above place) : t.due ≤ place.number := by
  cases place with
  | direct slot => cases ht
  | indirect slot =>
    obtain rfl := List.mem_singleton.mp ht
    exact Nat.le_add_right _ _
  | doubly outer inner =>
    simp only [above, List.mem_cons, List.not_mem_nil, or_false] at ht
    simp only [Position.number]
    rcases ht with rfl | rfl
    · simp only [Spot.due]
      omega
    · simp only [Spot.due]
      omega

theorem mem_spots_of_mem_above (hn : n ≤ maxFileBlocks) (hplace : place.number < n) (ht : t ∈ above place) :
    t ∈ spots n := (mem_spots hn).mpr (Nat.lt_of_le_of_lt (due_le_of_mem_above ht) hplace)

/-- The spots that lead to a block are those of a file that has the block. -/
theorem mem_spots_of_mem_spotsTo (hn : n ≤ maxFileBlocks) (hk : k < n) (ht : t ∈ spotsTo k) : t ∈ spots n := by
  obtain ⟨place, hplace⟩ := Option.isSome_iff_exists.mp ((Position.of?_isSome k).mpr (by omega))
  have hnumber := Position.number_of_of? hplace
  rw [spotsTo_of_of? hplace, List.mem_append, List.mem_singleton] at ht
  rcases ht with ht | rfl
  · exact mem_spots_of_mem_above hn (by omega) ht
  · exact (mem_spots hn).mpr (by simp only [Spot.due]; omega)

/-- **Every spot** is one that leads to the block with which it is due. -/
theorem mem_spotsTo_due (ht : t.due < maxFileBlocks) : t ∈ spotsTo t.due := by
  obtain ⟨place, hplace⟩ := Option.isSome_iff_exists.mp ((Position.of?_isSome t.due).mpr ht)
  have hmem : t ∈ spotsAt place := mem_spotsAt.mpr (Position.number_of_of? hplace).symm
  rw [spotsTo_of_of? hplace]
  cases place with
  | direct slot => exact hmem
  | indirect slot =>
    simp only [spotsAt, above, List.mem_append, List.mem_ite_nil_right, List.mem_singleton] at hmem ⊢
    tauto
  | doubly outer inner =>
    simp only [spotsAt, above, List.mem_append, List.mem_ite_nil_right, List.mem_cons, List.not_mem_nil,
      or_false] at hmem ⊢
    tauto

/-! ## Ways -/

section Ways

variable {δ : Type} {m : Nat} [BlockDevice δ] [LawfulDevice δ] {guarded : Bool} {p : Plain} {d : Descriptor}
  {x : SectorId} {f : FileRecord}

/-- On the way to a block the index blocks above it are looked at. -/
theorem follow_uses (hm : 0 < m) (hn : n ≤ maxFileBlocks) (h : Navigable guarded p d n)
    (hplace : place.number < n) : Uses δ m (follow d place) p ((above place).map (sectorOf p.block d)) := by
  have hopen : ∀ t ∈ above place, p.Permits guarded (sectorOf p.block d t) := fun t ht =>
    h t (mem_spots_of_mem_above hn hplace ht) (isIndex_of_mem_above ht)
  cases place with
  | direct slot => exact Uses.pure _
  | indirect slot =>
    exact (Uses.view d.indirect).bind (Runs.view (hopen .index (by simp [above]))) hm (Uses.pure _)
  | doubly outer inner =>
    exact (Uses.view d.doublyIndirect).bind (Runs.view (hopen .outerIndex (by simp [above]))) hm
      ((Uses.view _).bind (Runs.view (hopen (.innerIndex outer) (by simp [above]))) hm (Uses.pure _))

theorem FileAt.sectorOfByte_uses (h : FileAt p x d f) (hm : 0 < m) (offset : Nat) :
    ∃ l, Uses δ m (sectorOfByte ⟨x⟩ offset) p (x :: l) ∧ l ⊆ tree p.block d (dataBlocks d.size) := by
  have hsize := h.record.stored.size
  by_cases hoffset : offset < d.size
  · obtain ⟨place, hlocate, hnumber⟩ := locate?_eq hsize hoffset
    have hlt : place.number < dataBlocks d.size := hnumber ▸ div_lt_dataBlocks hoffset
    refine ⟨(above place).map (sectorOf p.block d), load_uses.bind h.load_runs hm ?_, ?_⟩
    · unfold sectorAt
      rw [hlocate]
      exact follow_uses hm (dataBlocks_le hsize) h.hung.open.navigable hlt
    · exact List.map_subset _ fun t ht => mem_spots_of_mem_above (dataBlocks_le hsize) hlt ht
  · refine ⟨[], load_uses.bind h.load_runs hm ?_, List.nil_subset _⟩
    unfold sectorAt
    rw [locate?_beyond (Nat.le_of_not_lt hoffset)]
    exact fun _ _ _ => rfl

/-- What a read of spans looks at. -/
theorem readSpans_uses {first last count : Nat} (hm : 0 < m) (parts : List Bytes) (hsize : d.size ≤ maxFileSize)
    (hopen : Open guarded p d (dataBlocks d.size)) (hlast : last ≤ d.size) (hfirst : first < last)
    (hk : first / sectorSize ≤ k) (hcount : k + count = dataBlocks last) :
    Uses δ m (readSpans d parts ((List.range' k count).map (Span.inBlock first last))) p
      (((List.range' k count).flatMap spotsTo).map (sectorOf p.block d)) := by
  change first / 512 ≤ k at hk
  unfold dataBlocks at hcount
  induction count generalizing k parts with
  | zero => exact Uses.pure _
  | succ count ih =>
    have hn := dataBlocks_le hsize
    have hstart : max first (512 * k) < last := by omega
    obtain ⟨place, hplace, hnumber, hlt⟩ :=
      locate?_block hsize hk (Nat.lt_of_lt_of_le hstart hlast)
    have hof : Position.of? k = some place := hnumber ▸ Position.of?_number place
    rw [List.range'_succ, List.map_cons, List.flatMap_cons, spotsTo_of_of? hof, List.map_append, List.map_append,
      List.append_assoc, readSpans]
    simp only [Span.inBlock, hplace]
    refine (follow_uses hm hn hopen.navigable hlt).bind (follow_runs hn hopen.navigable hlt) hm ?_
    exact (Uses.view _).bind (Runs.view (hopen _ (data_mem_spots hn hlt))) hm (ih _ (by omega) (by omega))

/-- The blocks that the bytes from `first` up to `last` lie in. -/
def blocksBetween (first last : Nat) : List Nat :=
  if first < last then List.range' (first / sectorSize) (dataBlocks last - first / sectorSize) else []

/-- A file has a sector for each of its blocks and index blocks, and its descriptor. -/
theorem FileAt.length_sectors (h : FileAt p x d f) : (f.sectors x).length = totalBlocks d.size + 1 := by
  rw [FileRecord.sectors, List.length_append, ← h.record.owned, ← length_spots h.record.stored.size]
  exact congrArg (· + 1) (List.length_map _)

/-- **A read** looks at the descriptor, and at the blocks that it reads from and those on the way there. -/
theorem FileAt.read_uses (h : FileAt p x d f) (hm : 0 < m) (offset count : Nat) :
    Uses δ m (read ⟨x⟩ offset count) p
      (x :: ((blocksBetween offset (min (offset + count) d.size)).flatMap spotsTo).map (sectorOf p.block d)) := by
  refine load_uses.bind h.load_runs hm ?_
  unfold blocksBetween
  by_cases hsome : offset < min (offset + count) d.size
  · rw [spans_eq hsome, if_pos hsome]
    exact readSpans_uses hm [] h.record.stored.size h.hung.open (Nat.min_le_right _ _) hsome (Nat.le_refl _)
      (Nat.add_sub_cancel' (Nat.le_of_lt (div_lt_dataBlocks hsome)))
  · rw [spans, if_neg hsome, if_neg hsome]
    exact Uses.pure _

end Ways

end InodeStore.Inode
