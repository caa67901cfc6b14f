import InodeStore.Inode.File
import InodeStore.Proofs.Inode.Growing

/-!
# `Proofs.Inode.Reading` — what a file holds and what a read answers

`Holds b d bytes` says that the blocks of an array which a descriptor leads to are those of a byte string,
with zeros after its last byte. `load`, `follow` and `sectorAt` find their way by the descriptor, and
`read_runs` is what a read answers: the bytes that are asked for and there are.
-/

namespace InodeStore.Inode

open Routine

variable {guarded : Bool} {p : Plain} {d : Descriptor} {x : SectorId} {bytes : Bytes} {place : Position}
  {n : Nat}

/-! ## The descriptor -/

/-- A sector holds a descriptor of a file that is not too long. -/
structure Stored (b : SectorArray) (x : SectorId) (d : Descriptor) : Prop where
  decode : Descriptor.decode (b x) = d
  valid : d.isValid = true
  size : d.size ≤ maxFileSize

theorem load_runs (h : Stored p.block x d) (hx : p.Permits guarded x) :
    Runs guarded (load x) p (.ok d) p := by
  apply (Runs.view hx).bind
  simp only [h.decode, h.valid, Nat.not_lt.mpr h.size]
  exact Runs.pure d

/-! ## From an offset to a sector -/

/-- The blocks of spots in use may be used. -/
def Open (guarded : Bool) (p : Plain) (d : Descriptor) (n : Nat) : Prop :=
  ∀ t ∈ spots n, p.Permits guarded (sectorOf p.block d t)

theorem Hung.open (h : Hung p d (spots n)) : Open true p d n := fun _ ht => h.permits ht

/-- Those of index blocks may be used, so that one can find one's way. -/
def Navigable (guarded : Bool) (p : Plain) (d : Descriptor) (n : Nat) : Prop :=
  ∀ t ∈ spots n, t.isIndex = true → p.Permits guarded (sectorOf p.block d t)

theorem Open.navigable (h : Open guarded p d n) : Navigable guarded p d n := fun t ht _ => h t ht

theorem data_mem_spots (hn : n ≤ maxFileBlocks) (hplace : place.number < n) :
    .data place ∈ spots n := (mem_spots hn).mpr hplace

/-- A file that has a block has the index blocks that lead to it. -/
theorem parent_mem_spots {t up : Spot} {slot : Fin 128} (hn : n ≤ maxFileBlocks) (ht : t ∈ spots n)
    (hp : t.parent? = some (up, slot)) : up ∈ spots n := by
  rw [mem_spots hn] at ht ⊢
  refine Nat.lt_of_le_of_lt ?_ ht
  cases t with
  | data place =>
    cases place <;> cases hp <;> simp only [Spot.due, Position.number] <;> omega
  | _ => cases hp <;> simp only [Spot.due] <;> omega

theorem follow_runs (hn : n ≤ maxFileBlocks) (h : Navigable guarded p d n) (hplace : place.number < n) :
    Runs guarded (follow d place) p (.ok (sectorOf p.block d (.data place))) p := by
  have hdata := data_mem_spots hn hplace
  cases place with
  | direct slot => exact Runs.pure _
  | indirect slot =>
    exact (Runs.view (h .index (parent_mem_spots hn hdata rfl) rfl)).bind (Runs.pure _)
  | doubly outer inner =>
    have hinner := parent_mem_spots hn hdata rfl
    have houter := parent_mem_spots hn hinner rfl
    exact (Runs.view (h .outerIndex houter rfl)).bind ((Runs.view (h (.innerIndex outer) hinner rfl)).bind
      (Runs.pure _))

/-- The place of the block that holds a byte. -/
theorem locate?_eq {offset : Nat} (hsize : d.size ≤ maxFileSize) (hoffset : offset < d.size) :
    ∃ place, locate? d offset = some place ∧ place.number = offset / sectorSize := by
  have hblock : offset / sectorSize < maxFileBlocks := by
    have hmax : maxFileSize = maxFileBlocks * 512 := rfl
    show offset / 512 < _
    omega
  obtain ⟨place, hplace⟩ := Option.isSome_iff_exists.mp ((Position.of?_isSome _).mpr hblock)
  refine ⟨place, ?_, Position.number_of_of? hplace⟩
  rw [locate?, if_pos hoffset, hplace]

theorem locate?_beyond {offset : Nat} (hoffset : d.size ≤ offset) : locate? d offset = none := by
  rw [locate?, if_neg (Nat.not_lt.mpr hoffset)]

/-- The block of a byte is one of the file's. -/
theorem div_lt_dataBlocks {offset size : Nat} (h : offset < size) :
    offset / sectorSize < dataBlocks size := by
  show offset / 512 < (size + 511) / 512
  omega

theorem sectorAt_runs {offset : Nat} (hsize : d.size ≤ maxFileSize)
    (hway : Navigable guarded p d (dataBlocks d.size)) (hoffset : offset < d.size)
    (hplace : place.number = offset / sectorSize) :
    Runs guarded (sectorAt d offset) p (.ok (sectorOf p.block d (.data place))) p := by
  obtain ⟨place', hlocate, hnumber⟩ := locate?_eq hsize hoffset
  obtain rfl : place' = place := Position.number_injective (hnumber.trans hplace.symm)
  unfold sectorAt
  rw [hlocate]
  exact follow_runs (dataBlocks_le hsize) hway (hplace ▸ div_lt_dataBlocks hoffset)

theorem sectorAt_refused {offset : Nat} (hoffset : d.size ≤ offset) :
    Runs guarded (sectorAt d offset) p (.error (.refused .outOfRange)) p := by
  unfold sectorAt
  rw [locate?_beyond hoffset]
  exact .halt

/-! ## Content -/

/-- Block `k` of a byte string, with zeros after the last byte. -/
def blockOf (bytes : Bytes) (k : Nat) : Block :=
  Vector.ofFn fun i => bytes[sectorSize * k + i.val]?.getD 0

/-- The blocks that a descriptor leads to are those of a byte string. -/
structure Holds (b : SectorArray) (d : Descriptor) (bytes : Bytes) : Prop where
  size : d.size = bytes.size
  data : ∀ place : Position, place.number < dataBlocks bytes.size →
    b (sectorOf b d (.data place)) = blockOf bytes place.number

/-- A part of a block is a part of the byte string. -/
theorem slice_blockOf {k first last : Nat} (hfirst : 512 * k ≤ first) (hlast : last ≤ 512 * (k + 1))
    (hbytes : last ≤ bytes.size) :
    (blockOf bytes k).slice (first - 512 * k) (last - first) = bytes.extract first last := by
  unfold Block.slice
  apply Array.ext
  · simp only [Array.size_extract, Vector.size_toArray]
    omega
  · intro i hi hi'
    have hlt : i < last - first := by
      rw [Array.size_extract] at hi'
      omega
    have hsum : 512 * k + (first - 512 * k + i) = first + i := by omega
    rw [Array.getElem_extract, Array.getElem_extract]
    simp only [blockOf, Vector.getElem_toArray, Vector.getElem_ofFn, hsum]
    rw [Array.getElem?_eq_getElem (by omega)]
    rfl

/-! ## Reading -/

/-- The blocks that bytes lie in. -/
theorem spans_eq {first last : Nat} (h : first < last) :
    spans first last = (List.range' (first / sectorSize) (dataBlocks last - first / sectorSize)).map
      (Span.inBlock first last) := if_pos h

/-- The place of block `k`, found by its first byte that is asked for. -/
theorem locate?_block {first k : Nat} (hsize : d.size ≤ maxFileSize) (hk : first / 512 ≤ k)
    (hstart : max first (512 * k) < d.size) :
    ∃ place, locate? d (max first (512 * k)) = some place ∧ place.number = k ∧
      place.number < dataBlocks d.size := by
  have hdiv : max first (512 * k) / 512 = k := by omega
  obtain ⟨place, hplace, hnumber⟩ := locate?_eq hsize hstart
  have hlt := div_lt_dataBlocks hstart
  exact ⟨place, hplace, hnumber.trans hdiv, hnumber ▸ hlt⟩

/-- What is read of block `k`. -/
theorem slice_part {first last k : Nat} (hk : first / 512 ≤ k) (hlast : last ≤ bytes.size) :
    (blockOf bytes k).slice (max first (512 * k) % 512)
        (min last (512 * (k + 1)) - max first (512 * k)) =
      bytes.extract (max first (512 * k)) (min last (512 * (k + 1))) := by
  have hmod : max first (512 * k) % 512 = max first (512 * k) - 512 * k := by omega
  rw [hmod]
  exact slice_blockOf (Nat.le_max_right _ _) (Nat.min_le_right _ _) (by omega)

/-- The part of block `k` and what is behind it are what is asked for from block `k` on. -/
theorem extract_part {first k : Nat} (last : Nat) (hk : first / 512 ≤ k) :
    bytes.extract (max first (512 * k)) (min last (512 * (k + 1))) ++
      bytes.extract (max first (512 * (k + 1))) last = bytes.extract (max first (512 * k)) last := by
  by_cases hend : last ≤ 512 * (k + 1)
  · have hempty : bytes.extract (max first (512 * (k + 1))) last = #[] :=
      Array.extract_empty_of_stop_le_start (by omega)
    rw [Nat.min_eq_left hend, hempty, Array.append_empty]
  · rw [Nat.min_eq_right (by omega), show max first (512 * (k + 1)) = 512 * (k + 1) by omega,
      Array.extract_append_extract]
    congr 1 <;> omega

/-- The parts are read one after the other and put together at the end. -/
theorem readSpans_runs {first last k count : Nat} (parts : List Bytes) (hsize : d.size ≤ maxFileSize)
    (h : Holds p.block d bytes) (hopen : Open guarded p d (dataBlocks d.size)) (hlast : last ≤ d.size)
    (hfirst : first < last) (hk : first / sectorSize ≤ k) (hcount : k + count = dataBlocks last) :
    Runs guarded (readSpans d parts ((List.range' k count).map (Span.inBlock first last))) p
      (.ok (parts.reverse.foldl (· ++ ·) #[] ++ bytes.extract (max first (sectorSize * k)) last)) p := by
  change first / 512 ≤ k at hk
  unfold dataBlocks at hcount
  -- `parts` are the bytes before block `k`, the last part first
  induction count generalizing k parts with
  | zero =>
    have hempty : bytes.extract (max first (512 * k)) last = #[] :=
      Array.extract_empty_of_stop_le_start (by omega)
    show Runs guarded _ p (.ok (_ ++ bytes.extract (max first (512 * k)) last)) p
    rw [hempty, Array.append_empty]
    exact Runs.pure _
  | succ count ih =>
    have hn := dataBlocks_le hsize
    have hstart : max first (512 * k) < last := by omega
    obtain ⟨place, hplace, hnumber, hlt⟩ :=
      locate?_block hsize hk (Nat.lt_of_lt_of_le hstart hlast)
    rw [List.range'_succ, List.map_cons, readSpans]
    simp only [Span.inBlock, hplace]
    apply (follow_runs hn hopen.navigable hlt).bind
    apply (Runs.view (hopen _ (data_mem_spots hn hlt))).bind
    rw [h.data place (h.size ▸ hlt), hnumber, slice_part hk (h.size ▸ hlast), ← extract_part last hk,
      ← Array.append_assoc]
    have hrest := @ih (k + 1)
      (bytes.extract (max first (512 * k)) (min last (512 * (k + 1))) :: parts) (by omega) (by omega)
    rw [List.reverse_cons, List.foldl_append] at hrest
    exact hrest

/-- **A read** answers with the bytes that are asked for and there are. -/
theorem read_runs {offset count : Nat} (hx : p.Permits guarded x) (hd : Stored p.block x d)
    (h : Holds p.block d bytes) (hopen : Open guarded p d (dataBlocks d.size)) :
    Runs guarded (read ⟨x⟩ offset count) p
      (.ok (bytes.extract offset (min (offset + count) bytes.size))) p := by
  apply (load_runs hd hx).bind
  rw [h.size]
  by_cases hsome : offset < min (offset + count) bytes.size
  · have hlast : min (offset + count) bytes.size ≤ d.size := h.size ▸ Nat.min_le_right _ _
    have hblocks := div_lt_dataBlocks hsome
    have hstart : max offset (sectorSize * (offset / sectorSize)) = offset :=
      Nat.max_eq_left (Nat.mul_div_le _ _)
    have hrun := readSpans_runs [] hd.size h hopen hlast hsome (Nat.le_refl _)
      (Nat.add_sub_cancel' (Nat.le_of_lt hblocks))
    rw [hstart] at hrun
    rw [spans_eq hsome]
    exact (Array.empty_append ▸ hrun :)
  · have hempty : bytes.extract offset (min (offset + count) bytes.size) = #[] :=
      Array.extract_empty_of_stop_le_start (by omega)
    rw [spans, if_neg hsome, hempty]
    exact Runs.pure _

end InodeStore.Inode
