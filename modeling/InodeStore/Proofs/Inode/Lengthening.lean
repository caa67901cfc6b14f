import InodeStore.Proofs.Inode.Walk
import InodeStore.Proofs.Inode.Writing

/-!
# `Proofs.Inode.Lengthening` — files that are made and files that grow

`OnRecord` says what a sector holds the descriptor of: a file, whether it is a directory, its bytes and
the sectors it owns. A growth that gets done and is saved puts the longer file on record, with zeros after
the old bytes and the new sectors after the old ones (`Saved.onRecord`); one that halts leaves on record
what was there (`OnRecord.after_growth`).
-/

namespace InodeStore.Inode

open Routine

/-- What is on record about a file. -/
structure FileRecord where
  isDir : Bool
  bytes : Bytes
  /-- Data and index blocks, in the order they were taken in. -/
  owned : List SectorId

/-- A sector holds the descriptor of a file. -/
structure OnRecord (b : SectorArray) (x : SectorId) (d : Descriptor) (f : FileRecord) : Prop where
  stored : Stored b x d
  isDir : d.isDir = f.isDir
  holds : Holds b d f.bytes
  owned : tree b d (dataBlocks d.size) = f.owned

variable {p p' : Plain} {d d' : Descriptor} {x : SectorId} {f : FileRecord} {bytes : Bytes}
  {length n : Nat} {new : List SectorId}

/-! ## Zeros after the last byte -/

/-- A byte string with zeros after it. -/
def padded (bytes : Bytes) (length : Nat) : Bytes :=
  bytes ++ Array.replicate (length - bytes.size) 0

theorem size_padded (h : bytes.size ≤ length) : (padded bytes length).size = length := by
  unfold padded
  rw [Array.size_append, Array.size_replicate]
  omega

/-- Zeros after the last byte are no news to the blocks. -/
theorem blockOf_padded (bytes : Bytes) (length k : Nat) :
    blockOf (padded bytes length) k = blockOf bytes k := by
  unfold blockOf padded
  apply Vector.ext
  intro i hi
  rw [Vector.getElem_ofFn, Vector.getElem_ofFn, Array.getElem?_append]
  split
  · rfl
  · next h =>
    rw [Array.getElem?_eq_none (Nat.le_of_not_lt h), Array.getElem?_replicate]
    split <;> rfl

/-- Blocks after the last byte are zero. -/
theorem blockOf_beyond {k : Nat} (hk : dataBlocks bytes.size ≤ k) : blockOf bytes k = Block.zero := by
  unfold blockOf Block.zero
  apply Vector.ext
  intro i hi
  rw [Vector.getElem_ofFn, Vector.getElem_replicate, Array.getElem?_eq_none]
  · rfl
  · unfold dataBlocks at hk
    show bytes.size ≤ 512 * k + i
    omega

/-! ## Files on record -/

/-- The spots of a file hang soundly when its sectors are taken and none is owned twice. -/
theorem OnRecord.hung (h : OnRecord p.block x d f) (hmap : p.freeMap.Lawful)
    (hfits : p.freeMap.sectors ≤ p.count) (hnodup : f.owned.Nodup)
    (htaken : ∀ s ∈ f.owned, s.toNat < p.freeMap.sectors ∧ p.freeMap.taken s.toNat = true) :
    Hung p d (spots (dataBlocks d.size)) := by
  have hmem : ∀ t ∈ spots (dataBlocks d.size), sectorOf p.block d t ∈ f.owned := fun t ht =>
    h.owned ▸ List.mem_map_of_mem ht
  exact ⟨hmap, hfits, fun t ht up slot hp => parent_mem_spots (dataBlocks_le h.stored.size) ht hp,
    (congrArg List.Nodup h.owned).mpr hnodup, fun t ht => (htaken _ (hmem t ht)).2,
    fun t ht => (htaken _ (hmem t ht)).1⟩

/-- What keeps a file on record: its descriptor, the slots in use and the data blocks. -/
theorem OnRecord.congr {b b' : SectorArray} (h : OnRecord b x d f) (hx : b' x = b x)
    (hsame : ∀ t ∈ spots (dataBlocks d.size), sectorOf b' d t = sectorOf b d t)
    (hdata : ∀ place : Position, place.number < dataBlocks d.size →
      b' (sectorOf b d (.data place)) = b (sectorOf b d (.data place))) : OnRecord b' x d f where
  stored := ⟨hx ▸ h.stored.decode, h.stored.valid, h.stored.size⟩
  isDir := h.isDir
  holds := by
    refine ⟨h.holds.size, ?_⟩
    intro place hplace
    have hplace' : place.number < dataBlocks d.size := h.holds.size ▸ hplace
    rw [hsame _ (data_mem_spots (dataBlocks_le h.stored.size) hplace'), hdata place hplace',
      h.holds.data place hplace]
  owned := (List.map_congr_left hsame).trans h.owned

/-- A file stays on record when neither its descriptor nor a sector it owns changes. -/
theorem OnRecord.frame {b b' : SectorArray} (h : OnRecord b x d f) (hx : b' x = b x)
    (howned : ∀ s ∈ f.owned, b' s = b s) : OnRecord b' x d f := by
  have hmem : ∀ t ∈ spots (dataBlocks d.size), sectorOf b d t ∈ f.owned := fun t ht =>
    h.owned ▸ List.mem_map_of_mem ht
  have hn := dataBlocks_le h.stored.size
  refine h.congr hx ?_ fun place hplace => howned _ (hmem _ (data_mem_spots hn hplace))
  exact sectorOf_congr (fun t ht up slot hp => parent_mem_spots hn ht hp) (fun _ _ => rfl)
    fun t ht up slot hp => by rw [howned _ (hmem up (parent_mem_spots hn ht hp))]

/-! ## Growth of a file on record -/

/-- A sector in use is not among the new ones. -/
theorem Growth.not_mem {done : List Spot} (h : Growth p p' d done new) {s : SectorId}
    (hs : p.freeMap.taken s.toNat = true) : s ∉ new := h.fresh.not_mem hs

/-- Data blocks are not changed by a growth. -/
theorem Growth.data {done : List Spot} (h : Growth p p' d done new) (hd : Hung p d done)
    {t : Spot} (ht : t ∈ done) (hi : t.isIndex = false) :
    p'.block (sectorOf p.block d t) = p.block (sectorOf p.block d t) := by
  apply h.frame _ (h.not_mem (hd.taken t ht))
  intro u hu hui he
  rw [hd.injective ht hu he, hui] at hi
  cases hi

/-- **A growth leaves on record** the file that was to grow. -/
theorem OnRecord.after_growth (h : OnRecord p.block x d f) (hd : Hung p d (spots (dataBlocks d.size)))
    (hx : p.freeMap.taken x.toNat = true) (hown : x ∉ f.owned)
    (hg : Growth p p' d (spots (dataBlocks d.size)) new) : OnRecord p'.block x d f := by
  refine h.congr ?_ (hg.kept hd.closed) fun place hplace =>
    hg.data hd (data_mem_spots (dataBlocks_le h.stored.size) hplace) rfl
  -- the descriptor's sector is neither new nor one of an index block
  refine hg.frame x (hg.not_mem hx) fun t ht _ he => hown ?_
  rw [he, ← h.owned]
  exact List.mem_map_of_mem ht

/-- The sectors of the longer file. -/
theorem Completed.tree_eq {m : Nat} (h : Completed p p' d d' (spots n) (spotsFrom n m) new) :
    tree p'.block d' (n + m) = tree p.block d n ++ new := by
  rw [tree, spots, spotsFrom_add, Nat.zero_add, List.map_append, h.sectors,
    List.map_congr_left h.same]
  rfl

/-- The length in a descriptor does not matter for its sectors. -/
theorem sectorOf_withLength (b : SectorArray) (d : Descriptor) (length : UInt32) (t : Spot) :
    sectorOf b { d with length } t = sectorOf b d t := by
  cases t with
  | data place => cases place <;> rfl
  | _ => rfl

/-- The descriptor of the longer file. -/
def lengthened (d : Descriptor) (length : Nat) : Descriptor := { d with length := UInt32.ofNat length }

theorem size_lengthened (h : length ≤ maxFileSize) : (lengthened d length).size = length := by
  have hmax : maxFileSize = 8460288 := rfl
  exact UInt32.toNat_ofNat_of_lt' (show length < 4294967296 by omega)

/-- A growth that got done, saved. -/
structure Saved (p p₁ : Plain) (x : SectorId) (d d' : Descriptor) (length : Nat)
    (new : List SectorId) : Prop where
  size : d.size ≤ length
  fits : length ≤ maxFileSize
  valid : d.isValid = true
  hung : Hung p d (spots (dataBlocks d.size))
  taken : p.freeMap.taken x.toNat = true
  own : x ∉ tree p.block d (dataBlocks d.size)
  growth : Growth p p₁ d (spots (dataBlocks d.size)) new
  completed : Completed p p₁ d d' (spots (dataBlocks d.size))
    (spotsFrom (dataBlocks d.size) (dataBlocks length - dataBlocks d.size)) new

section Saved

variable {p₁ : Plain}

theorem Saved.blocks (h : Saved p p₁ x d d' length new) :
    dataBlocks d.size + (dataBlocks length - dataBlocks d.size) = dataBlocks length := by
  have := h.size
  unfold dataBlocks
  omega

theorem Saved.tree_eq (h : Saved p p₁ x d d' length new) :
    tree p₁.block d' (dataBlocks length) = tree p.block d (dataBlocks d.size) ++ new := by
  rw [← h.blocks]
  exact h.completed.tree_eq

/-- The descriptor's sector is none of the longer file's. -/
theorem Saved.ne (h : Saved p p₁ x d d' length new) {t : Spot} (ht : t ∈ spots (dataBlocks length)) :
    sectorOf p₁.block d' t ≠ x := by
  intro he
  have hmem : x ∈ tree p₁.block d' (dataBlocks length) := he ▸ List.mem_map_of_mem ht
  rw [h.tree_eq] at hmem
  rcases List.mem_append.mp hmem with hold | hnew
  · exact h.own hold
  · exact h.growth.not_mem h.taken hnew

/-- Saving the descriptor moves no sector of the file. -/
theorem Saved.same (h : Saved p p₁ x d d' length new) (b : Block) :
    ∀ t ∈ spots (dataBlocks length),
      sectorOf (p₁.put x b).block (lengthened d' length) t = sectorOf p₁.block d' t := by
  intro t ht
  apply (sectorOf_withLength _ _ _ t).trans
  have hn := dataBlocks_le h.fits
  refine sectorOf_congr (fun t ht up slot hp => parent_mem_spots hn ht hp) (fun _ _ => rfl)
    ?_ t ht
  intro t ht up slot hp
  rw [p₁.block_put_of_ne (h.ne (parent_mem_spots hn ht hp))]

/-- The spots of the longer file hang soundly. -/
theorem Saved.hung_after (h : Saved p p₁ x d d' length new) (b : Block) :
    Hung (p₁.put x b) (lengthened d' length) (spots (dataBlocks length)) := by
  have hstanding := h.completed.standing
  have hspots : spots (dataBlocks d.size) ++
      spotsFrom (dataBlocks d.size) (dataBlocks length - dataBlocks d.size) =
        spots (dataBlocks length) := by
    conv => rhs; rw [← h.blocks, spots, spotsFrom_add, Nat.zero_add]
  rw [hspots] at hstanding
  refine ⟨hstanding.lawful, hstanding.fits, hstanding.closed, ?_, ?_, ?_⟩
  · rw [List.map_congr_left (h.same b)]
    exact hstanding.nodup
  · intro t ht
    rw [h.same b t ht]
    exact hstanding.taken t ht
  · intro t ht
    rw [h.same b t ht]
    exact hstanding.inside t ht

theorem Saved.stored (h : Saved p p₁ x d d' length new) :
    Stored (p₁.put x (lengthened d' length).encode).block x (lengthened d' length) where
  decode := by rw [p₁.block_put_self, Descriptor.decode_encode]
  valid := by
    have hvalid := h.valid
    unfold Descriptor.isValid at hvalid ⊢
    rw [← h.completed.magic] at hvalid
    exact hvalid
  size := (size_lengthened h.fits).symm ▸ h.fits

theorem Saved.holds (h : Saved p p₁ x d d' length new) (hholds : Holds p.block d bytes) (b : Block) :
    Holds (p₁.put x b).block (lengthened d' length) (padded bytes length) := by
  have hbytes : bytes.size ≤ length := hholds.size ▸ h.size
  have hn := dataBlocks_le h.fits
  refine ⟨(size_lengthened h.fits).trans (size_padded hbytes).symm, ?_⟩
  intro place hplace
  rw [size_padded hbytes] at hplace
  have hmem := data_mem_spots hn hplace
  rw [h.same b _ hmem, blockOf_padded, p₁.block_put_of_ne (h.ne hmem)]
  -- a block from before is as it was, a new one is all zeros
  by_cases hlt : place.number < dataBlocks d.size
  · have hmem' := data_mem_spots (dataBlocks_le (Nat.le_trans h.size h.fits)) hlt
    rw [h.completed.same _ hmem', h.growth.data h.hung hmem' rfl,
      hholds.data place (hholds.size ▸ hlt)]
  · have hblocks := h.blocks
    have hmem' : .data place ∈
        spotsFrom (dataBlocks d.size) (dataBlocks length - dataBlocks d.size) := by
      rw [mem_spotsFrom (by omega), hblocks]
      exact ⟨Nat.le_of_not_lt hlt, hplace⟩
    rw [h.completed.zero _ hmem' rfl, blockOf_beyond (hholds.size ▸ Nat.le_of_not_lt hlt)]

/-- **The longer file is on record**, with zeros after the old bytes. -/
theorem Saved.onRecord (h : Saved p p₁ x d d' length new) (hholds : Holds p.block d bytes) :
    OnRecord (p₁.put x (lengthened d' length).encode).block x (lengthened d' length)
      ⟨d.isDir, padded bytes length, tree p.block d (dataBlocks d.size) ++ new⟩ where
  stored := h.stored
  isDir := h.completed.isDir
  holds := h.holds hholds _
  owned := by
    rw [size_lengthened h.fits, ← h.tree_eq]
    exact List.map_congr_left (h.same _)

/-- Every other block is as it was. -/
theorem Saved.frame (h : Saved p p₁ x d d' length new) (b : Block) {y : SectorId} (hy : y ≠ x)
    (hnew : y ∉ new) (hown : y ∉ tree p.block d (dataBlocks d.size)) :
    (p₁.put x b).block y = p.block y :=
  (p₁.block_put_of_ne hy b).trans
    (h.growth.frame y hnew fun _ ht _ he => hown (he ▸ List.mem_map_of_mem ht))

end Saved

end InodeStore.Inode
