import InodeStore.Proofs.Inode.Words
import InodeStore.Proofs.Session.Ledger

/-!
# `Proofs.Inode.Parts` — reading and writing in machine words

A machine does not cut a range of bytes into spans beforehand. It takes part after part, each up to the end
of its block, and keeps two offsets: one in the file, one in the buffer. `Checked.read` and `Checked.write`
go on like this, with every sum, difference and slice checked.

No check fails, whatever the offset is: part by part the same calls are made as span by span (`read_eq`,
`write_eq`). An offset too large for a sum ends a write with a refusal, and a read with no bytes.
-/

namespace InodeStore.Checked

open Routine Inode

variable {first last offset : Nat} {d : Descriptor} {handle : Handle} {data buffer : Bytes}

/-! ## Parts of a range -/

/-- One part of a range of bytes: all of it that is in one block. -/
structure Part where
  /-- Where it starts in its block. -/
  skip : Nat
  /-- Where it ends in its block. -/
  stop : Nat
  /-- The offset behind it. -/
  next : Nat
  /-- The bytes of the range up to its end. -/
  done : Nat

/-- The first part of the bytes from `first` up to `last`, after `count` others. -/
def part (first last count : Nat) : Except Fault Part := do
  let skip := first % sectorSize
  let room ← sub sectorSize skip
  let rest ← sub last first
  let size := min room rest
  return ⟨skip, ← add skip size, ← add first size, ← add count size⟩

/-- The end of the block of a byte, or of the range if that comes first. -/
def breakAt (first last : Nat) : Nat := min last (sectorSize * (first / sectorSize + 1))

theorem lt_breakAt (h : first < last) : first < breakAt first last := by
  show first < min last (512 * (first / 512 + 1))
  omega

theorem breakAt_le (first last : Nat) : breakAt first last ≤ last := Nat.min_le_left _ _

theorem part_eq (count : Nat) (h : first < last) (hlast : last < UInt64.size)
    (hcount : count + (last - first) < UInt64.size) :
    part first last count =
      .ok ⟨first % sectorSize, first % sectorSize + (breakAt first last - first), breakAt first last,
        count + (breakAt first last - first)⟩ := by
  have hsize : UInt64.size = 18446744073709551616 := rfl
  have hmod : first % 512 < 512 := Nat.mod_lt _ (by decide)
  have hmin : min (512 - first % 512) (last - first) = breakAt first last - first := by
    show _ = min last (512 * (first / 512 + 1)) - first
    omega
  have hbreak : breakAt first last ≤ last := breakAt_le first last
  have hlt := lt_breakAt h
  show (sub 512 (first % 512) >>= fun room => sub last first >>= fun rest =>
    add (first % 512) (min room rest) >>= fun stop => add first (min room rest) >>= fun next =>
      add count (min room rest) >>= fun done => pure (⟨first % 512, stop, next, done⟩ : Part)) = _
  rw [sub_eq (Nat.le_of_lt hmod), sub_eq (Nat.le_of_lt h)]
  simp only [bind, Except.bind, hmin]
  rw [add_eq (by omega), add_eq (by omega), add_eq (by omega)]
  simp only [Nat.add_sub_cancel' (Nat.le_of_lt hlt)]
  rfl

/-- A part is not empty, and inside of the range. -/
theorem next_of_part {count : Nat} {here : Part} (h : part first last count = .ok here)
    (hmore : first < last) : first < here.next ∧ here.next ≤ last := by
  have hmod : first % 512 < 512 := Nat.mod_lt _ (by decide)
  obtain ⟨room, hroom, h⟩ := of_bind h
  obtain ⟨rest, hrest, h⟩ := of_bind h
  obtain ⟨stop, -, h⟩ := of_bind h
  obtain ⟨next, hnext, h⟩ := of_bind h
  obtain ⟨done, -, h⟩ := of_bind h
  obtain rfl := Except.ok.inj h
  have hroom : room = 512 - first % 512 := sub_ok hroom
  have hrest : rest = last - first := sub_ok hrest
  have hnext : next = first + min room rest := add_ok hnext
  constructor <;> simp only <;> omega

/-! ## Reading -/

/-- Bytes put over a part of a buffer that is there and as long as they are. -/
def overwrite (buffer : Bytes) (first last : Nat) (bytes : Bytes) : Except Fault Bytes := do
  range buffer.size first last
  if bytes.size = last - first then .ok (patched buffer first bytes) else .error .indexOutOfBounds

/-- A part of a byte string that is there. -/
def slice (bytes : Bytes) (first last : Nat) : Except Fault Bytes := do
  range bytes.size first last
  return bytes.extract first last

/-- Read the bytes from `first` up to `last` into a buffer in which `count` bytes are done. -/
def readFrom (d : Descriptor) (buffer : Bytes) (first last count : Nat) : Routine (Nat × Bytes) :=
  if _hmore : first < last then
    match _hpart : part first last count with
    | .error e => fault e
    | .ok here => do
      match ← checked (locate? d first) with
      | none => return (count, buffer)
      | some place => do
        let block ← view (← follow d place)
        let bytes ← checked (slice block.toBytes here.skip here.stop)
        let buffer ← checked (overwrite buffer count here.done bytes)
        readFrom d buffer here.next last here.done
  else return (count, buffer)
termination_by last - first
decreasing_by
  have := next_of_part _hpart _hmore
  omega

/-- Read the bytes of a file from `offset` on into a buffer. A sum that is too large is taken for the
    largest number there is. -/
def read (handle : Handle) (offset : Nat) (buffer : Bytes) : Routine (Nat × Bytes) := do
  let d ← load handle.sector
  let last := min (offset + buffer.size) (UInt64.size - 1)
  readFrom d buffer offset (min last d.size) 0

/-! ## Writing -/

/-- Put bytes at the offset `first` of a file and up to `last`, of which `count` bytes are done. -/
def writeFrom (d : Descriptor) (data : Bytes) (first last count : Nat) : Routine Nat :=
  if _hmore : first < last then
    match _hpart : part first last count with
    | .error e => fault e
    | .ok here => do
      match ← checked (locate? d first) with
      | none => return count
      | some place => do
        let sector ← follow d place
        let bytes ← checked (slice data count here.done)
        if bytes.size = sectorSize then store sector (Block.ofBytes bytes)
        else
          checked (range sectorSize here.skip here.stop)
          update sector fun block => block.splice here.skip bytes
        writeFrom d data here.next last here.done
  else return count
termination_by last - first
decreasing_by
  have := next_of_part _hpart _hmore
  omega

/-- Put bytes inside a file. -/
def writeInside (d : Descriptor) (offset : Nat) (data : Bytes) : Routine Nat := do
  let last ← checked (add offset data.size)
  writeFrom d data offset last 0

/-- Put bytes into a file at an offset and lengthen it first if need be. A sum that is no number is too
    large for a file. -/
def write (handle : Handle) (offset : Nat) (data : Bytes) : Routine Nat := do
  if ← isDenied handle then
    emit (.writeDenied handle.sector)
    return 0
  else if data.isEmpty then return 0
  else
    match add offset data.size with
    | .error _ => refuse .fileTooLarge
    | .ok last =>
      if maxFileSize < last then refuse .fileTooLarge
      else
        let d ← load handle.sector
        if last ≤ d.size then writeInside d offset data
        else
          exclusively handle do
            let d ← load handle.sector
            let d ← if d.size < last then extend handle.sector d last else pure d
            writeInside d offset data

/-- The sector that holds byte `offset` of a file. -/
def sectorOfByte (handle : Handle) (offset : Nat) : Routine SectorId := do
  let d ← load handle.sector
  match ← checked (locate? d offset) with
  | some place => follow d place
  | none => refuse .outOfRange

/-! ## Part by part -/

/-- The first span of a range is that up to the first block boundary. -/
theorem spans_cons (h : first < last) :
    spans first last = ⟨first, breakAt first last⟩ :: spans (breakAt first last) last := by
  have hblocks : first / 512 < InodeStore.dataBlocks last := div_lt_dataBlocks h
  obtain ⟨count, hcount⟩ := Nat.exists_eq_add_of_lt hblocks
  have hhere : Span.inBlock first last (first / 512) = ⟨first, breakAt first last⟩ := by
    have hmax : max first (512 * (first / 512)) = first := Nat.max_eq_left (Nat.mul_div_le _ _)
    show (⟨max first (512 * (first / 512)), breakAt first last⟩ : Span) = _
    rw [hmax]
  have hcount' : InodeStore.dataBlocks last - first / 512 = count + 1 := by omega
  rw [spans_eq h]
  show (List.range' (first / 512) (InodeStore.dataBlocks last - first / 512)).map _ = _
  rw [hcount', List.range'_succ, List.map_cons, hhere]
  congr 1
  have hlast : InodeStore.dataBlocks last = (last + 511) / 512 := rfl
  by_cases hend : last ≤ 512 * (first / 512 + 1)
  · have hbreak : breakAt first last = last := Nat.min_eq_left hend
    have hzero : count = 0 := by omega
    rw [hbreak, hzero, spans, if_neg (Nat.lt_irrefl last)]
    rfl
  · have hbreak : breakAt first last = 512 * (first / 512 + 1) :=
      Nat.min_eq_right (Nat.le_of_not_le hend)
    have hdiv : 512 * (first / 512 + 1) / 512 = first / 512 + 1 := Nat.mul_div_cancel_left _ (by decide)
    have hrest : InodeStore.dataBlocks last - (first / 512 + 1) = count := by omega
    rw [hbreak, spans_eq (Nat.lt_of_not_le hend)]
    show _ = (List.range' (512 * (first / 512 + 1) / 512) (InodeStore.dataBlocks last - _)).map _
    rw [hdiv, hrest]
    apply List.map_congr_left
    intro k hk
    have hk := (List.mem_range'_1.mp hk).1
    show (⟨max first (512 * k), _⟩ : Span) = ⟨max (512 * (first / 512 + 1)) (512 * k), _⟩
    congr 1
    omega

theorem slice_eq {bytes : Bytes} (h : first ≤ last) (h' : last ≤ bytes.size) :
    slice bytes first last = .ok (bytes.extract first last) := by
  unfold slice
  rw [range_eq h h']
  rfl

/-- A part ends inside of its block. -/
theorem part_stop_le (first last : Nat) : first % 512 + (breakAt first last - first) ≤ 512 := by
  show first % 512 + (min last (512 * (first / 512 + 1)) - first) ≤ 512
  omega

theorem slice_block (block : Block) (first last : Nat) :
    slice block.toBytes (first % 512) (first % 512 + (breakAt first last - first)) =
      .ok (block.slice (first % 512) (breakAt first last - first)) := by
  have hsize : block.toBytes.size = 512 := block.size_toArray
  exact slice_eq (Nat.le_add_right _ _) (hsize ▸ part_stop_le first last)

theorem size_overlay {front : Bytes} (hfront : front.size ≤ buffer.size) :
    (overlay buffer front).size = buffer.size := by
  unfold overlay
  rw [Array.size_append, Array.size_extract]
  omega

/-- Bytes read next are put behind those read before. -/
theorem overwrite_overlay {front bytes : Bytes} {count : Nat} (hcount : bytes.size = count)
    (h : front.size + count ≤ buffer.size) :
    overwrite (overlay buffer front) front.size (front.size + count) bytes =
      .ok (overlay buffer (front ++ bytes)) := by
  subst hcount
  have hsize : (overlay buffer front).size = buffer.size := size_overlay (by omega)
  unfold overwrite
  rw [range_eq (Nat.le_add_right _ _) (hsize.symm ▸ h)]
  show (if bytes.size = _ then _ else _) = _
  rw [if_pos (Nat.add_sub_cancel_left _ _).symm]
  congr 1
  have hnothing : front.extract (front.size + bytes.size) buffer.size = #[] :=
    Array.extract_empty_of_size_le_start (Nat.le_add_right _ _)
  have hnothing' : (buffer.extract front.size buffer.size).extract (0 - front.size) 0 = #[] :=
    Array.extract_empty_of_stop_le_start (Nat.zero_le _)
  have hrest : (buffer.extract front.size buffer.size).extract bytes.size (buffer.size - front.size) =
      buffer.extract (front.size + bytes.size) buffer.size := by
    rw [Array.extract_extract]
    congr 1
    omega
  unfold patched overlay at *
  rw [hsize, Array.extract_append, Array.extract_append, Nat.sub_self, Array.extract_size, hnothing',
    hnothing, Nat.add_sub_cancel_left, hrest, Array.append_empty, Array.empty_append, Array.size_append]

/-- Part by part, as much is read as span by span. -/
theorem readFrom_eq (front : Bytes) (parts : List Bytes) (hlast : last < UInt64.size)
    (hbuffer : buffer.size < UInt64.size) (hroom : front.size + (last - first) ≤ buffer.size)
    (hfront : parts.reverse.foldl (· ++ ·) #[] = front) :
    readFrom d (overlay buffer front) first last front.size =
      readSpans d parts (spans first last) >>= fun bytes => pure (bytes.size, overlay buffer bytes) := by
  -- what is read so far is in front of the buffer
  induction hleft : last - first using Nat.strong_induction_on generalizing first front parts with
  | _ left ih =>
    rw [readFrom]
    by_cases hmore : first < last
    · rw [dif_pos hmore, spans_cons hmore, readSpans]
      have hpart := part_eq front.size hmore hlast (by omega)
      split
      · next e he => 
        rw [hpart] at he
        cases he
      · next here he =>
        rw [hpart] at he
        cases he
        rw [locate?_eq]
        show (match Inode.locate? d first with
          | none => _
          | some place => _) = _
        cases Inode.locate? d first with
        | none =>
          rw [hfront]
          rfl
        | some place =>
          have hnext := breakAt_le first last
          have hlt := lt_breakAt hmore
          refine Eq.trans (congrArg (follow d place >>= ·) (funext fun s => ?_)) (bind_assoc ..).symm
          refine Eq.trans (congrArg (view s >>= ·) (funext fun block => ?_)) (bind_assoc ..).symm
          have hsize : (block.slice (first % 512) (breakAt first last - first)).size =
              breakAt first last - first := by
            have hstop := part_stop_le first last
            unfold Block.slice
            rw [Array.size_extract, block.size_toArray]
            omega
          rw [slice_block block first last]
          show (checked (overwrite _ _ (front.size + (breakAt first last - first)) _) >>= _) = _
          rw [overwrite_overlay hsize (by omega)]
          have hrest := ih (last - breakAt first last) (by omega)
            (front ++ block.slice (first % 512) (breakAt first last - first))
            (block.slice (first % 512) (breakAt first last - first) :: parts)
            (by rw [Array.size_append]; omega)
            (by rw [List.reverse_cons, List.foldl_append, hfront]; rfl) rfl
          rw [Array.size_append, hsize] at hrest
          exact hrest
    · rw [dif_neg hmore, spans, if_neg hmore, readSpans, hfront]
      rfl

/-- **A read** into a buffer, whatever the offset is. -/
theorem read_eq (h : buffer.size < UInt64.size) :
    read handle offset buffer = Operation.readInto handle offset buffer := by
  unfold read Operation.readInto Inode.read
  refine Eq.trans (congrArg (load handle.sector >>= ·) (funext fun d => ?_)) (bind_assoc ..).symm
  have hd := size_lt d
  have hsize : UInt32.size < UInt64.size - 1 := by decide
  have hlast : min (min (offset + buffer.size) (UInt64.size - 1)) d.size =
      min (offset + buffer.size) d.size := by omega
  have hempty : overlay buffer #[] = buffer := by
    unfold overlay
    rw [Array.empty_append]
    exact Array.extract_size
  have hroom : (#[] : Bytes).size + (min (offset + buffer.size) d.size - offset) ≤ buffer.size := by
    simp only [Array.size_empty]
    omega
  have hread : readFrom d (overlay buffer #[]) offset (min (offset + buffer.size) d.size) 0 = _ :=
    readFrom_eq #[] [] (by omega) h hroom rfl
  rw [hempty] at hread
  show readFrom d buffer offset (min _ d.size) 0 = _
  rw [hlast]
  exact hread

/-- Part by part, as much is written as span by span. -/
theorem writeFrom_eq {count : Nat} (hlast : last < UInt64.size) (hfirst : first = offset + count)
    (hdata : offset + data.size = last) :
    writeFrom d data first last count = writeSpans d offset data count (spans first last) := by
  induction hleft : last - first using Nat.strong_induction_on generalizing first count with
  | _ left ih =>
    rw [writeFrom]
    by_cases hmore : first < last
    · rw [dif_pos hmore, spans_cons hmore]
      have hpart := part_eq count hmore hlast (by omega)
      split
      · next e he =>
        rw [hpart] at he
        cases he
      · next here he =>
        rw [hpart] at he
        cases he
        rw [locate?_eq]
        show (match Inode.locate? d first with
          | none => _
          | some place => _) = _
        cases hlocate : Inode.locate? d first with
        | none =>
          rw [writeSpans]
          simp only [hlocate]
        | some place =>
          have hnext := breakAt_le first last
          have hlt := lt_breakAt hmore
          rw [writeSpans_cons hlocate]
          refine congrArg (follow d place >>= ·) (funext fun s => ?_)
          have hbytes : data.extract (first - offset) (breakAt first last - offset) =
              data.extract count (count + (breakAt first last - first)) := by
            congr 1 <;> omega
          have hsize : (data.extract count (count + (breakAt first last - first))).size =
              breakAt first last - first := by
            rw [Array.size_extract]
            omega
          have hslice : slice data count (count + (breakAt first last - first)) =
              .ok (data.extract count (count + (breakAt first last - first))) :=
            slice_eq (by omega) (by omega)
          have hstop : range sectorSize (first % sectorSize)
              (first % sectorSize + (breakAt first last - first)) = .ok () :=
            range_eq (Nat.le_add_right _ _) (part_stop_le first last)
          have hrest : writeFrom d data (breakAt first last) last (count + (breakAt first last - first)) = _ :=
            ih (last - breakAt first last) (by omega) (by omega) rfl
          rw [hslice, hbytes, hsize]
          show (if (data.extract count (count + (breakAt first last - first))).size = sectorSize then _
            else checked (range _ _ _) >>= _) = _
          rw [hstop, hsize, hrest]
          split <;> rfl
    · rw [dif_neg hmore, spans, if_neg hmore, writeSpans]

theorem writeInside_eq (h : offset + data.size < UInt64.size) :
    writeInside d offset data = Inode.writeInside d offset data := by
  unfold writeInside Inode.writeInside
  rw [add_eq h]
  exact writeFrom_eq h rfl rfl

/-- **A write**, whatever the offset is. -/
theorem write_eq : write handle offset data = Inode.write handle offset data := by
  have hmax : maxFileSize < UInt64.size := by decide
  unfold write Inode.write
  refine congrArg (isDenied handle >>= ·) (funext fun denied => ?_)
  by_cases hdenied : denied = true
  · rw [if_pos hdenied, if_pos hdenied]
  rw [if_neg hdenied, if_neg hdenied]
  by_cases hempty : data.isEmpty = true
  · rw [if_pos hempty, if_pos hempty]
  rw [if_neg hempty, if_neg hempty]
  by_cases hlong : maxFileSize < offset + data.size
  · rw [if_pos hlong]
    by_cases hfits : offset + data.size < UInt64.size
    · rw [add_eq hfits]
      exact if_pos hlong
    · have hadd : add offset data.size = .error .sumOverflow := if_neg hfits
      rw [hadd]
  · have hfits : offset + data.size < UInt64.size := by omega
    rw [if_neg hlong, add_eq hfits]
    show (if maxFileSize < offset + data.size then _ else _) = _
    rw [if_neg hlong]
    simp only [writeInside_eq hfits, extend_eq hfits]

theorem sectorOfByte_eq : sectorOfByte handle offset = Inode.sectorOfByte handle offset := by
  unfold sectorOfByte Inode.sectorOfByte
  refine congrArg (load handle.sector >>= ·) (funext fun d => ?_)
  rw [locate?_eq]
  unfold sectorAt
  cases Inode.locate? d offset <;> rfl

end InodeStore.Checked
