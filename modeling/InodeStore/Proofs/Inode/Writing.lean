import InodeStore.Proofs.Inode.Reading

/-!
# `Proofs.Inode.Writing` — bytes put inside a file

`patched` is a byte string with another one put over it. A write inside of a file makes its blocks those
of the patched string, block by block (`Halfway`), and changes no other block (`writeInside_runs`). A
part that is a whole block is stored, any other is spliced into the block that is there; both give the
block of the patched string (`ofBytes_part`, `splice_part`).
-/

namespace InodeStore.Inode

open Routine

variable {p : Plain} {d : Descriptor} {x : SectorId} {bytes data : Bytes} {offset k n : Nat}
  {place : Position}

/-! ## Byte strings -/

/-- A byte string with another one put over it. -/
def patched (bytes : Bytes) (offset : Nat) (data : Bytes) : Bytes :=
  bytes.extract 0 offset ++ data ++ bytes.extract (offset + data.size) bytes.size

theorem size_patched (h : offset + data.size ≤ bytes.size) :
    (patched bytes offset data).size = bytes.size := by
  unfold patched
  simp only [Array.size_append, Array.size_extract]
  omega

/-- The bytes of a patched string. -/
theorem getElem?_patched (h : offset + data.size ≤ bytes.size) (i : Nat) :
    (patched bytes offset data)[i]? =
      if offset ≤ i ∧ i < offset + data.size then data[i - offset]? else bytes[i]? := by
  have hfront : (bytes.extract 0 offset).size = offset := by
    rw [Array.size_extract]
    omega
  unfold patched
  rw [Array.getElem?_append, Array.getElem?_append, Array.size_append, hfront,
    Array.getElem?_extract, Array.getElem?_extract]
  by_cases h₁ : i < offset
  · rw [if_pos (by omega), if_pos h₁, if_pos (by omega), if_neg (by omega), Nat.zero_add]
  · by_cases h₂ : i < offset + data.size
    · rw [if_pos h₂, if_neg h₁, if_pos (by omega)]
    · rw [if_neg h₂, if_neg (by omega : ¬ (offset ≤ i ∧ i < offset + data.size))]
      by_cases h₃ : i < bytes.size
      · rw [if_pos (by omega), show offset + data.size + (i - (offset + data.size)) = i by omega]
      · rw [if_neg (by omega), Array.getElem?_eq_none (by omega)]

/-- A block that the other string does not reach is as it was. -/
theorem blockOf_patched_of_beyond (h : offset + data.size ≤ bytes.size)
    (hk : sectorSize * (k + 1) ≤ offset ∨ offset + data.size ≤ sectorSize * k) :
    blockOf (patched bytes offset data) k = blockOf bytes k := by
  unfold blockOf
  apply Vector.ext
  intro i hi
  rw [Vector.getElem_ofFn, Vector.getElem_ofFn, getElem?_patched h, if_neg]
  change 512 * (k + 1) ≤ offset ∨ offset + data.size ≤ 512 * k at hk
  show ¬ (offset ≤ 512 * k + i ∧ 512 * k + i < offset + data.size)
  omega

/-- The part of the other string that goes to block `k`. -/
def partOf (offset : Nat) (data : Bytes) (k : Nat) : Bytes :=
  data.extract (max offset (512 * k) - offset) (min (offset + data.size) (512 * (k + 1)) - offset)

/-- The bytes of a part. -/
theorem getElem?_partOf (hk' : 512 * k < offset + data.size) (i : Nat) :
    (partOf offset data k)[i]? =
      if max offset (512 * k) + i < min (offset + data.size) (512 * (k + 1)) then
        data[max offset (512 * k) + i - offset]? else none := by
  unfold partOf
  rw [Array.getElem?_extract]
  by_cases h : max offset (512 * k) + i < min (offset + data.size) (512 * (k + 1))
  · rw [if_pos h, if_pos (by omega)]
    congr 1
    omega
  · rw [if_neg h, if_neg (by omega)]

theorem size_partOf (hk : offset < 512 * (k + 1)) (hk' : 512 * k < offset + data.size) :
    (partOf offset data k).size = min (offset + data.size) (512 * (k + 1)) - max offset (512 * k) := by
  unfold partOf
  rw [Array.size_extract]
  omega

/-- The bytes of a block of the patched string. -/
theorem getElem_blockOf_patched (h : offset + data.size ≤ bytes.size) {i : Nat} (hi : i < 512) :
    (blockOf (patched bytes offset data) k)[i] =
      if offset ≤ 512 * k + i ∧ 512 * k + i < offset + data.size then
        data[512 * k + i - offset]?.getD 0 else (blockOf bytes k)[i] := by
  unfold blockOf
  rw [Vector.getElem_ofFn, Vector.getElem_ofFn, getElem?_patched h]
  exact apply_ite (Option.getD · 0) _ _ _

/-- A part that is a whole block makes the block. -/
theorem ofBytes_part (h : offset + data.size ≤ bytes.size) (hk : offset < 512 * (k + 1))
    (hk' : 512 * k < offset + data.size) (hsize : (partOf offset data k).size = 512) :
    Block.ofBytes (partOf offset data k) = blockOf (patched bytes offset data) k := by
  rw [size_partOf hk hk'] at hsize
  apply Vector.ext
  intro i hi
  have hstart : max offset (512 * k) + i = 512 * k + i := by omega
  rw [getElem_blockOf_patched h hi, if_pos (by omega), Block.ofBytes, Vector.getElem_ofFn,
    getElem?_partOf hk', if_pos (by show max offset (512 * k) + i < _; omega), hstart]

/-- Any other part makes the block out of the one that is there. -/
theorem splice_part (h : offset + data.size ≤ bytes.size) (hk : offset < 512 * (k + 1))
    (hk' : 512 * k < offset + data.size) :
    (blockOf bytes k).splice (max offset (512 * k) % 512) (partOf offset data k) =
      blockOf (patched bytes offset data) k := by
  have hmod : max offset (512 * k) % 512 = max offset (512 * k) - 512 * k := by omega
  apply Vector.ext
  intro i hi
  have hget := Block.get_splice (blockOf bytes k) (max offset (512 * k) % 512)
    (partOf offset data k) ⟨i, hi⟩
  have hold : (blockOf bytes k).get ⟨i, hi⟩ = (blockOf bytes k)[i] := rfl
  apply hget.trans
  rw [getElem_blockOf_patched h hi, hmod, getElem?_partOf hk', hold]
  show (if max offset (512 * k) - 512 * k ≤ i then _ else (blockOf bytes k)[i]) = _
  -- a byte of the block is before the part, in it or behind it
  by_cases hstart : max offset (512 * k) - 512 * k ≤ i
  · have hindex : max offset (512 * k) + (i - (max offset (512 * k) - 512 * k)) = 512 * k + i := by omega
    rw [if_pos hstart, show (⟨i, hi⟩ : Fin 512).val = i from rfl, hindex]
    by_cases hin : 512 * k + i < offset + data.size
    · have hlt : 512 * k + i - offset < data.size := by omega
      rw [if_pos (by omega), if_pos (by omega), Array.getElem?_eq_getElem hlt, Option.getD_some,
        Option.getD_some]
    · rw [if_neg (by omega), if_neg (by omega), Option.getD_none]
  · rw [if_neg hstart, if_neg (by omega)]

/-! ## Blocks -/

/-- What a write changes at most: data blocks of the file. -/
structure Changed (p p' : Plain) (d : Descriptor) (n : Nat) : Prop where
  hung : Hung p' d (spots n)
  same : ∀ t ∈ spots n, sectorOf p'.block d t = sectorOf p.block d t
  frame : ∀ y, (∀ place, place.number < n → y ≠ sectorOf p.block d (.data place)) →
    p'.block y = p.block y
  rest : p' = { p with block := p'.block }

theorem Changed.refl (h : Hung p d (spots n)) : Changed p p d n :=
  ⟨h, fun _ _ => rfl, fun _ _ => rfl, rfl⟩

theorem Changed.trans {p₁ p₂ : Plain} (hn : n ≤ maxFileBlocks) (h : Changed p p₁ d n)
    (h' : Changed p₁ p₂ d n) : Changed p p₂ d n where
  hung := h'.hung
  same t ht := (h'.same t ht).trans (h.same t ht)
  frame y hy := by
    refine (h'.frame y ?_).trans (h.frame y hy)
    intro place hplace
    rw [h.same _ (data_mem_spots hn hplace)]
    exact hy place hplace
  rest := by
    have hrest := h'.rest
    rw [h.rest] at hrest
    exact hrest

/-- Data blocks are told apart from each other and from index blocks by their sectors. -/
theorem Hung.injective {done : List Spot} (h : Hung p d done) {t t' : Spot} (ht : t ∈ done)
    (ht' : t' ∈ done) (he : sectorOf p.block d t = sectorOf p.block d t') : t = t' :=
  List.inj_on_of_nodup_map h.nodup ht ht' he

/-- A data block may be replaced. -/
theorem Hung.put_data (h : Hung p d (spots n)) (hn : n ≤ maxFileBlocks) (hplace : place.number < n)
    (b : Block) : Changed p (p.put (sectorOf p.block d (.data place)) b) d n := by
  have hdata := data_mem_spots hn hplace
  have hsame : ∀ t ∈ spots n, sectorOf (p.put (sectorOf p.block d (.data place)) b).block d t =
      sectorOf p.block d t := by
    apply sectorOf_congr h.closed (fun _ _ => rfl)
    intro t ht up slot hp
    have hup := h.closed t ht up slot hp
    -- slots are in index blocks, and this is a data block
    have hne : sectorOf p.block d up ≠ sectorOf p.block d (.data place) := by
      intro he
      have hi := Spot.isIndex_of_parent? hp
      rw [h.injective hup hdata he] at hi
      cases hi
    show (Function.update p.block _ b (sectorOf p.block d up)).pointer slot = _
    rw [Function.update_of_ne hne]
  refine ⟨⟨h.lawful, h.fits, h.closed, ?_, ?_, ?_⟩, hsame, ?_, rfl⟩
  · rw [List.map_congr_left hsame]
    exact h.nodup
  · intro t ht
    rw [hsame t ht]
    exact h.taken t ht
  · intro t ht
    rw [hsame t ht]
    exact h.inside t ht
  · intro y hy
    exact Function.update_of_ne (hy place hplace) _ _

/-- The blocks before block `k` are those of the new string, the others those of the old one. -/
def Halfway (p : Plain) (d : Descriptor) (n k : Nat) (old new : Bytes) : Prop :=
  ∀ place : Position, place.number < n →
    p.block (sectorOf p.block d (.data place)) =
      blockOf (if place.number < k then new else old) place.number

/-- One more block is that of the new string. -/
theorem Halfway.put {old new : Bytes} (h : Halfway p d n k old new) (hp : Hung p d (spots n))
    (hn : n ≤ maxFileBlocks) (hk : k < n) (hplace : place.number = k) :
    Halfway (p.put (sectorOf p.block d (.data place)) (blockOf new k)) d n (k + 1) old new := by
  have hlt : place.number < n := hplace ▸ hk
  intro place' hplace'
  rw [(hp.put_data hn hlt _).same _ (data_mem_spots hn hplace')]
  show Function.update p.block _ _ (sectorOf p.block d (.data place')) = _
  by_cases he : place'.number = k
  · obtain rfl : place' = place := Position.number_injective (he.trans hplace.symm)
    rw [Function.update_self, if_pos (by omega), he]
  · have hne : sectorOf p.block d (.data place') ≠ sectorOf p.block d (.data place) := by
      intro hs
      have := hp.injective (data_mem_spots hn hplace') (data_mem_spots hn hlt) hs
      cases this
      exact he hplace
    rw [Function.update_of_ne hne, h place' hplace']
    congr 1
    by_cases hlt' : place'.number < k
    · rw [if_pos hlt', if_pos (by omega)]
    · rw [if_neg hlt', if_neg (by omega)]

/-! ## Writing -/

/-- The routine that writes a part and goes on, as a sequence. -/
theorem writeSpans_cons {origin written first last : Nat} {rest : List Span}
    (hlocate : locate? d first = some place) :
    writeSpans d origin data written (⟨first, last⟩ :: rest) =
      follow d place >>= fun sector =>
        (if (data.extract (first - origin) (last - origin)).size = sectorSize then
            store sector (Block.ofBytes (data.extract (first - origin) (last - origin)))
          else update sector fun block =>
            block.splice (first % sectorSize) (data.extract (first - origin) (last - origin))) >>= fun _ =>
          writeSpans d origin data (written + (data.extract (first - origin) (last - origin)).size)
            rest := by
  rw [writeSpans]
  simp only [hlocate]
  refine congrArg _ (funext ?_)
  intro sector
  by_cases h : (data.extract (first - origin) (last - origin)).size = sectorSize
  · rw [if_pos h, if_pos h]
  · rw [if_neg h, if_neg h]

/-- A part makes its block that of the patched string. One that is a whole block is stored without a look
    at what is there. -/
theorem part_runs {s : SectorId} (hs : p.Permits true s) (hold : p.block s = blockOf bytes k)
    (hlast : offset + data.size ≤ bytes.size) (hk : offset < 512 * (k + 1))
    (hk' : 512 * k < offset + data.size) :
    Runs true (if (partOf offset data k).size = sectorSize then
        store s (Block.ofBytes (partOf offset data k))
      else update s fun block => block.splice (max offset (512 * k) % 512) (partOf offset data k)) p
      (.ok ()) (p.put s (blockOf (patched bytes offset data) k)) := by
  by_cases hfull : (partOf offset data k).size = 512
  · rw [if_pos hfull, ofBytes_part hlast hk hk' hfull]
    exact Runs.store _ hs
  · have hupdate := Runs.update
      (fun block => block.splice (max offset (512 * k) % 512) (partOf offset data k)) hs
    rw [hold, splice_part hlast hk hk'] at hupdate
    rw [if_neg hfull]
    exact hupdate

/-- Block `k` of the file becomes that of the patched string. -/
theorem writeSpan_runs (hsize : d.size ≤ maxFileSize) (hp : Hung p d (spots (dataBlocks d.size)))
    (hlast : offset + data.size ≤ bytes.size) (hk : offset < 512 * (k + 1))
    (hk' : 512 * k < offset + data.size) (hplace : place.number = k)
    (hlt : place.number < dataBlocks d.size)
    (h : Halfway p d (dataBlocks d.size) k bytes (patched bytes offset data)) :
    let s := sectorOf p.block d (.data place)
    let p' := p.put s (blockOf (patched bytes offset data) k)
    Runs true (if (partOf offset data k).size = sectorSize then
        store s (Block.ofBytes (partOf offset data k))
      else update s fun block => block.splice (max offset (512 * k) % 512) (partOf offset data k)) p
      (.ok ()) p' ∧ Changed p p' d (dataBlocks d.size) ∧
      Halfway p' d (dataBlocks d.size) (k + 1) bytes (patched bytes offset data) := by
  intro s p'
  have hn := dataBlocks_le hsize
  have hold : p.block s = blockOf bytes k := by
    rw [h place hlt, hplace, if_neg (Nat.lt_irrefl k)]
  exact ⟨part_runs (hp.permits (data_mem_spots hn hlt)) hold hlast hk hk', hp.put_data hn hlt _,
    h.put hp hn (hplace ▸ hlt) hplace⟩

/-- The bytes of a part and those behind it are the bytes from block `k` on. -/
theorem size_part_add (hk : offset < 512 * (k + 1)) (hk' : 512 * k < offset + data.size) :
    (partOf offset data k).size + (offset + data.size - max offset (512 * (k + 1))) =
      offset + data.size - max offset (512 * k) := by
  rw [size_partOf hk hk']
  omega

/-- The parts are written one after the other. What every part keeps is `Halfway`. -/
theorem writeSpans_runs {count : Nat} (written : Nat) (hsize : d.size ≤ maxFileSize)
    (hp : Hung p d (spots (dataBlocks d.size))) (hd : d.size = bytes.size)
    (hlast : offset + data.size ≤ bytes.size) (hsome : 0 < data.size) (hk : offset / sectorSize ≤ k)
    (hcount : k + count = dataBlocks (offset + data.size))
    (h : Halfway p d (dataBlocks d.size) k bytes (patched bytes offset data)) :
    ∃ p', Runs true (writeSpans d offset data written ((List.range' k count).map
        (Span.inBlock offset (offset + data.size)))) p
        (.ok (written + (offset + data.size - max offset (sectorSize * k)))) p' ∧
      Changed p p' d (dataBlocks d.size) ∧
      Halfway p' d (dataBlocks d.size) (k + count) bytes (patched bytes offset data) := by
  change offset / 512 ≤ k at hk
  have hn := dataBlocks_le hsize
  induction count generalizing k p written with
  | zero =>
    unfold dataBlocks at hcount
    refine ⟨p, ?_, Changed.refl hp, h⟩
    have hzero : offset + data.size - max offset (512 * k) = 0 := by omega
    show Runs true _ p (.ok (written + (offset + data.size - max offset (512 * k)))) p
    rw [hzero]
    exact Runs.pure _
  | succ count ih =>
    have hk' : 512 * k < offset + data.size := by
      unfold dataBlocks at hcount
      omega
    have hstart : offset < 512 * (k + 1) := by omega
    obtain ⟨place, hlocate, hnumber, hlt⟩ :=
      locate?_block hsize hk (show max offset (512 * k) < d.size by omega)
    obtain ⟨hpart, hchanged, hhalfway⟩ := writeSpan_runs hsize hp hlast hstart hk' hnumber hlt h
    obtain ⟨p', hrun, hchanged', hdone⟩ := ih (k := k + 1)
      (written + (partOf offset data k).size) hchanged.hung (by omega) hhalfway (by omega)
    refine ⟨p', ?_, hchanged.trans hn hchanged', ?_⟩
    · change Runs true _ _ (.ok (_ + (offset + data.size - max offset (512 * (k + 1))))) _ at hrun
      rw [Nat.add_assoc, size_part_add hstart hk'] at hrun
      have hspan : Span.inBlock offset (offset + data.size) k =
          ⟨max offset (512 * k), min (offset + data.size) (512 * (k + 1))⟩ := rfl
      rw [List.range'_succ, List.map_cons, hspan, writeSpans_cons hlocate]
      exact (follow_runs hn hp.open.navigable hlt).bind (hpart.bind hrun)
    · rwa [Nat.add_right_comm] at hdone

/-- The blocks before the bytes are those of the new string already. -/
theorem Holds.halfway (h : Holds p.block d bytes) (hlast : offset + data.size ≤ bytes.size) :
    Halfway p d (dataBlocks d.size) (offset / sectorSize) bytes (patched bytes offset data) := by
  intro place hplace
  rw [h.data place (h.size ▸ hplace)]
  by_cases hlt : place.number < offset / 512
  · rw [if_pos hlt, blockOf_patched_of_beyond hlast]
    exact Or.inl (by show 512 * (place.number + 1) ≤ offset; omega)
  · rw [if_neg hlt]

/-- **A write inside of a file** puts the bytes over those that are there. -/
theorem writeInside_runs (hsize : d.size ≤ maxFileSize) (hp : Hung p d (spots (dataBlocks d.size)))
    (h : Holds p.block d bytes) (hlast : offset + data.size ≤ bytes.size) (hsome : 0 < data.size) :
    ∃ p', Runs true (writeInside d offset data) p (.ok data.size) p' ∧
      Changed p p' d (dataBlocks d.size) ∧ Holds p'.block d (patched bytes offset data) := by
  have hn := dataBlocks_le hsize
  have hfirst : offset < offset + data.size := by omega
  have hblocks : offset / 512 < dataBlocks (offset + data.size) := div_lt_dataBlocks hfirst
  obtain ⟨p', hrun, hchanged, hafter⟩ := writeSpans_runs 0 hsize hp h.size hlast hsome
    (Nat.le_refl _) (Nat.add_sub_cancel' (Nat.le_of_lt hblocks)) (h.halfway hlast)
  refine ⟨p', ?_, hchanged, h.size.trans (size_patched hlast).symm, ?_⟩
  · have hall : 0 + (offset + data.size - max offset (sectorSize * (offset / sectorSize))) =
        data.size := by
      show 0 + (offset + data.size - max offset (512 * (offset / 512))) = _
      omega
    unfold writeInside
    rw [spans_eq hfirst]
    rw [hall] at hrun
    exact hrun
  · intro place hplace
    have hplace : place.number < dataBlocks d.size := by
      rw [h.size, ← size_patched hlast]
      exact hplace
    have hblock := hafter place hplace
    rw [hblock, Nat.add_sub_cancel' (Nat.le_of_lt hblocks)]
    by_cases hlt : place.number < dataBlocks (offset + data.size)
    · rw [if_pos hlt]
    · rw [if_neg hlt, blockOf_patched_of_beyond hlast]
      unfold dataBlocks at hlt
      exact Or.inr (by show _ ≤ 512 * place.number; omega)

end InodeStore.Inode
