import InodeStore.Proofs.Inode.Entries
import InodeStore.Proofs.Inode.Handwork
import InodeStore.Proofs.Store.Coalescing

/-!
# `Proofs.Inode.Bytewise` — a file that grows by a byte

A byte behind the last one is written with uses of the descriptor, of the index blocks above the byte's block and of
the block itself (`way`), and of new blocks if there are any. Afterwards those of the way are the sectors used last,
the block in front (`front`). That is at most four sectors, and until the next byte is written one more is used, or
two where an index block is new; then the old one is not needed any more. So in a cache of five frames every sector
that has been changed is still there when it is changed again (`next_coalesces`).
-/

namespace InodeStore.Inode

open Cache

/-! ## The way to a block -/

/-- The sectors on the way to a block, from the descriptor on. -/
def way (g : Spot → SectorId) (x : SectorId) (k : Nat) : List SectorId := x :: (spotsTo k).map g

/-- The sectors used last once a file has `length` bytes, if its last byte was just written. -/
def front (g : Spot → SectorId) (x : SectorId) (length : Nat) : List SectorId :=
  if length = 0 then [] else (way g x ((length - 1) / sectorSize)).reverse

/-- The uses for the byte that makes a file of `length` bytes longer. -/
def byteTouches (g : Spot → SectorId) (x : SectorId) (length : Nat) : List Touch :=
  .look x :: .look x :: (fillsFrom g (dataBlocks length) (dataBlocks (length + 1) - dataBlocks length) ++
    .soil x :: strokesBetween g length (length + 1))

variable {g : Spot → SectorId} {x : SectorId} {k length : Nat} {place prev : Position}
  {charged : List SectorId}

/-- After the descriptor was looked at twice, the uses for a new block keep the sectors on the way to it at the
    front. -/
def Advances (g : Spot → SectorId) (x : SectorId) (charged : List SectorId) (prev place : Position) : Prop :=
  ∃ last, Coalesces 5 (way g x prev.number).reverse charged (.look x :: .look x :: fills g place) last
    (((spotsAt place).map g).reverse ++ charged) ∧ way g x place.number ⊆ last

theorem advances_direct {slot : Fin 12} (hprev : prev.number + 1 = (Position.direct slot).number)
    (hfresh : ((spotsAt (.direct slot)).map g ++ charged).Nodup) : Advances g x charged prev (.direct slot) := by
  rw [Advances, way, way, spotsTo_of_of? (Position.of?_number prev), spotsTo_of_of? (Position.of?_number _)]
  have hs : g (.data (.direct slot)) ∉ charged := (List.nodup_cons.mp hfresh).1
  cases prev with
  | direct slot' => exact ⟨_, .again [_] [] rfl (.again [] [_] rfl (.fresh hs (by simp) .done)), by simp [above]⟩
  | _ =>
    simp only [Position.number] at hprev
    omega

theorem advances_indirect {slot : Fin 128} (hprev : prev.number + 1 = (Position.indirect slot).number)
    (hfresh : ((spotsAt (.indirect slot)).map g ++ charged).Nodup) : Advances g x charged prev (.indirect slot) := by
  rw [Advances, way, way, spotsTo_of_of? (Position.of?_number prev), spotsTo_of_of? (Position.of?_number _)]
  by_cases hslot : slot.val = 0
  · -- the index block is new
    simp only [spotsAt, fills, if_pos hslot] at hfresh ⊢
    obtain ⟨hindex, hdata, -⟩ := by simpa using hfresh
    cases prev with
    | direct slot' =>
      exact ⟨_, .again [_] [] rfl (.again [] [_] rfl (.fresh hindex.2 (by simp)
        (.fresh (by simp [Ne.symm hindex.1, hdata]) (by simp) (.again [_] [_, _] rfl .done)))), by simp [above]⟩
    | _ =>
      simp only [Position.number] at hprev
      omega
  · simp only [spotsAt, fills, if_neg hslot] at hfresh ⊢
    have hdata : g (.data (.indirect slot)) ∉ charged := (List.nodup_cons.mp hfresh).1
    cases prev with
    | indirect slot' =>
      exact ⟨_, .again [_, _] [] rfl (.again [] [_, _] rfl (.fresh hdata (by simp)
        (.again [_, _, _] [] rfl .done))), by simp [above]⟩
    | _ =>
      simp only [Position.number] at hprev
      omega

theorem advances_doubly {outer inner : Fin 128} (hprev : prev.number + 1 = (Position.doubly outer inner).number)
    (hfresh : ((spotsAt (.doubly outer inner)).map g ++ charged).Nodup) :
    Advances g x charged prev (.doubly outer inner) := by
  rw [Advances, way, way, spotsTo_of_of? (Position.of?_number prev), spotsTo_of_of? (Position.of?_number _)]
  by_cases hinner : inner.val = 0
  · by_cases houter : outer.val = 0
    · -- both index blocks are new
      simp only [spotsAt, fills, hinner, houter, and_self, if_true] at hfresh ⊢
      obtain ⟨hfirst, hsecond, hdata, -⟩ := by simpa using hfresh
      cases prev with
      | indirect slot' =>
        exact ⟨_, .again [_, _] [] rfl (.again [] [_, _] rfl (.fresh hfirst.2.2 (by simp)
          (.fresh (by simp [Ne.symm hfirst.1, hsecond]) (by simp) (.again [_] [_, _, _] rfl
            (.trim [_, _, _] [_, _] (.fresh (by simp [Ne.symm hfirst.2.1, Ne.symm hsecond.1, hdata]) (by simp)
              (.again [_, _] [_] rfl .done))))))), by simp [above]⟩
      | _ =>
        simp only [Position.number] at hprev
        omega
    · -- the index block for the data block is
      simp only [spotsAt, fills, hinner, houter, and_true, if_true, if_false] at hfresh ⊢
      obtain ⟨hindex, hdata, -⟩ := by simpa using hfresh
      cases prev with
      | doubly outer' inner' =>
        exact ⟨_, .again [_, _, _] [] rfl (.again [] [_, _, _] rfl (.fresh hindex.2 (by simp)
          (.again [_, _, _, _] [] rfl (.trim [_, _, _] [_, _] (.fresh (by simp [Ne.symm hindex.1, hdata]) (by simp)
            (.again [_, _] [_] rfl .done)))))), by simp [above]⟩
      | _ =>
        simp only [Position.number] at hprev
        omega
  · simp only [spotsAt, fills, hinner, and_false, if_false] at hfresh ⊢
    have hdata : g (.data (.doubly outer inner)) ∉ charged := (List.nodup_cons.mp hfresh).1
    cases prev with
    | doubly outer' inner' =>
      obtain rfl : outer' = outer := by
        simp only [Position.number] at hprev
        omega
      exact ⟨_, .again [_, _, _] [] rfl (.again [] [_, _, _] rfl (.again [_, _, _] [] rfl
        (.fresh hdata (by simp) (.again [_, _, _, _] [] rfl .done)))), by simp [above]⟩
    | _ =>
      simp only [Position.number] at hprev
      omega

/-- **A new block** is hung next to the one before it. -/
theorem advances (hprev : prev.number + 1 = place.number) (hfresh : ((spotsAt place).map g ++ charged).Nodup) :
    Advances g x charged prev place := by
  cases place with
  | direct slot => exact advances_direct hprev hfresh
  | indirect slot => exact advances_indirect hprev hfresh
  | doubly outer inner => exact advances_doubly hprev hfresh

/-! ## Bytes -/

/-- The bytes are put into a block on the way to it. -/
theorem sector?_strokes (g : Spot → SectorId) (x : SectorId) (k : Nat) :
    (Touch.soil x :: strokes g k).map Touch.sector? = (way g x k).map some := by
  rw [way, List.map_cons, List.map_cons, strokes, List.map_map, List.map_map]
  refine congrArg _ (List.map_congr_left fun t _ => ?_)
  rw [Function.comp_apply]
  split <;> rfl

theorem nodup_way {n : Nat} (hn : n ≤ maxFileBlocks) (hk : k < n) (h : (x :: (spots n).map g).Nodup) :
    (way g x k).Nodup := by
  obtain ⟨hx, hspots⟩ := List.nodup_cons.mp h
  have hsub : spotsTo k ⊆ spots n := fun t ht => mem_spots_of_mem_spotsTo hn hk ht
  refine List.nodup_cons.mpr ⟨fun hmem => hx (List.map_subset g hsub hmem), ?_⟩
  refine List.Nodup.map_on (fun t ht u hu => List.inj_on_of_nodup_map hspots (hsub ht) (hsub hu)) ?_
  obtain ⟨place, hplace⟩ := Option.isSome_iff_exists.mp ((Position.of?_isSome k).mpr (by omega))
  rw [spotsTo_of_of? hplace]
  cases place <;> simp [above]

theorem strokesBetween_byte (g : Spot → SectorId) (length : Nat) :
    strokesBetween g length (length + 1) = strokes g (length / sectorSize) := by
  have hcount : dataBlocks (length + 1) - length / sectorSize = 1 := by
    show (length + 1 + 511) / 512 - length / 512 = 1
    omega
  rw [strokesBetween, blocksBetween, if_pos (Nat.lt_succ_self length), hcount]
  exact List.append_nil _

/-- The sectors that have been changed once a file has `length` bytes, if it was written byte by byte. -/
def changedSectors (g : Spot → SectorId) (x : SectorId) (length : Nat) : List SectorId :=
  if length = 0 then [] else x :: (spots (dataBlocks length)).map g

/-! Where the sectors stay the same, so do the ways. -/

theorem way_congr {g' : Spot → SectorId} {n : Nat} (hn : n ≤ maxFileBlocks) (hk : k < n)
    (h : ∀ t ∈ spots n, g' t = g t) : way g' x k = way g x k :=
  congrArg (x :: ·) (List.map_congr_left fun t ht => h t (mem_spots_of_mem_spotsTo hn hk ht))

theorem front_congr {g' : Spot → SectorId} (x : SectorId) (hlength : length ≤ maxFileSize)
    (h : ∀ t ∈ spots (dataBlocks length), g' t = g t) : front g' x length = front g x length := by
  unfold front
  split
  · rfl
  · next hsome =>
    have hk : (length - 1) / sectorSize < dataBlocks length := by
      show (length - 1) / 512 < (length + 511) / 512
      omega
    rw [way_congr (dataBlocks_le hlength) hk h]

theorem changedSectors_congr {g' : Spot → SectorId} (x : SectorId) (h : ∀ t ∈ spots (dataBlocks length), g' t = g t) :
    changedSectors g' x length = changedSectors g x length := by
  unfold changedSectors
  rw [List.map_congr_left h]

/-- The sectors of a file are those that are changed where it is written byte by byte. -/
theorem FileAt.sectors_perm {p : Plain} {d : Descriptor} {f : FileRecord} (h : FileAt p x d f) (hsome : 0 < d.size) :
    (changedSectors (sectorOf p.block d) x d.size).Perm (f.sectors x) := by
  rw [changedSectors, if_neg (Nat.ne_of_gt hsome), FileRecord.sectors, ← h.record.owned, tree]
  exact (List.perm_append_singleton x _).symm

/-- The first byte: nothing has been changed before. -/
theorem first_coalesces (hway : (way g x 0).Nodup) :
    Coalesces 5 [] [] (byteTouches g x 0) (way g x 0).reverse (changedSectors g x 1) := by
  have hne : x ≠ g (.data (.direct 0)) := by
    intro he
    exact (List.nodup_cons.mp hway).1 (he ▸ List.mem_cons_self)
  show Coalesces 5 [] [] [.look x, .look x, .soil (g (.data (.direct 0))), .soil x, .soil (g (.data (.direct 0)))]
    [g (.data (.direct 0)), x] [x, g (.data (.direct 0))]
  exact .glance (.glance (.fresh List.not_mem_nil (by simp)
    (.fresh (by simpa using hne) (by simp) (.again [_] [] rfl .done))))

/-- The sectors on the way are brought into their order at the front. -/
theorem sweep_way {first : List SectorId} (hway : (way g x k).Nodup) (hfirst : way g x k ⊆ first) :
    Coalesces 5 first charged (.soil x :: strokes g k) (way g x k).reverse charged :=
  .sweep (sector?_strokes g x k) hway hfirst

/-- A byte of a block that is there. -/
theorem inside_coalesces (hway : (way g x k).Nodup) :
    Coalesces 5 (way g x k).reverse charged (.look x :: .look x :: .soil x :: strokes g k) (way g x k).reverse
      charged := by
  have hfirst : (way g x k).reverse = ((spotsTo k).map g).reverse ++ x :: [] := by
    rw [way, List.reverse_cons]
  have hsweep : Coalesces 5 (x :: ([] ++ (((spotsTo k).map g).reverse ++ []))) charged (.soil x :: strokes g k)
      (way g x k).reverse charged := sweep_way hway (by simp [way])
  rw [hfirst] at hsweep ⊢
  exact .again _ [] rfl (.again [] _ rfl hsweep)

/-- The first byte of a new block. -/
theorem block_coalesces (hk : k + 1 < maxFileBlocks) (hway : (way g x (k + 1)).Nodup)
    (hcharged : charged.Perm (x :: (spots (k + 1)).map g)) (hnodup : (x :: (spots (k + 2)).map g).Nodup) :
    ∃ charged', Coalesces 5 (way g x k).reverse charged
        (.look x :: .look x :: (fillsFrom g (k + 1) 1 ++ .soil x :: strokes g (k + 1))) (way g x (k + 1)).reverse
        charged' ∧
      charged'.Perm (x :: (spots (k + 2)).map g) := by
  obtain ⟨prev, hprev⟩ := Option.isSome_iff_exists.mp ((Position.of?_isSome k).mpr (by omega))
  obtain ⟨place, hplace⟩ := Option.isSome_iff_exists.mp ((Position.of?_isSome (k + 1)).mpr hk)
  have hnumber := Position.number_of_of? hprev
  have hnumber' := Position.number_of_of? hplace
  have hsplit : (x :: (spots (k + 2)).map g).Perm (((spotsAt place).map g) ++ charged) := by
    rw [spots_succ, spotsOf_of_of? hplace, List.map_append, ← List.cons_append]
    exact List.perm_append_comm.trans (hcharged.symm.append_left _)
  have hnext : prev.number + 1 = place.number := by omega
  obtain ⟨last, hfills, hfirst⟩ := advances (x := x) hnext (hsplit.nodup_iff.mp hnodup)
  rw [hnumber] at hfills
  rw [hnumber'] at hfirst
  have hone : fillsFrom g (k + 1) 1 = fills g place := by
    rw [fillsFrom, List.range'_one, List.flatMap_singleton, hplace]
    rfl
  rw [hone]
  exact ⟨_, hfills.append (sweep_way hway hfirst), ((List.reverse_perm _).append_right _).trans hsplit.symm⟩

/-- **The next byte** uses sectors that are at the front or have not been changed before. -/
theorem next_coalesces (hlength : length < maxFileSize) (hcharged : charged.Perm (changedSectors g x length))
    (hnodup : (changedSectors g x (length + 1)).Nodup) :
    ∃ charged', Coalesces 5 (front g x length) charged (byteTouches g x length) (front g x (length + 1)) charged' ∧
      charged'.Perm (changedSectors g x (length + 1)) := by
  have hblocks := dataBlocks_le (Nat.succ_le_of_lt hlength)
  have hk : length / 512 < dataBlocks (length + 1) := div_lt_dataBlocks (Nat.lt_succ_self length)
  have hchanged : changedSectors g x (length + 1) = x :: (spots (dataBlocks (length + 1))).map g :=
    if_neg (Nat.succ_ne_zero length)
  have hway : (way g x (length / 512)).Nodup := nodup_way hblocks hk (hchanged ▸ hnodup)
  have hlast : front g x (length + 1) = (way g x (length / 512)).reverse := if_neg (Nat.succ_ne_zero length)
  by_cases hzero : length = 0
  · subst hzero
    obtain rfl : charged = [] := List.perm_nil.mp hcharged
    exact ⟨_, first_coalesces hway, .refl _⟩
  rw [changedSectors, if_neg hzero] at hcharged
  rw [front, if_neg hzero, hlast, byteTouches, strokesBetween_byte]
  by_cases hinside : length % 512 = 0
  · obtain ⟨k, rfl⟩ : ∃ k, length = 512 * (k + 1) := ⟨length / 512 - 1, by omega⟩
    have hold : dataBlocks (512 * (k + 1)) = k + 1 := by
      unfold dataBlocks
      omega
    have hnew : dataBlocks (512 * (k + 1) + 1) = k + 2 := by
      unfold dataBlocks
      omega
    have hprev : (512 * (k + 1) - 1) / sectorSize = k := by
      show (512 * (k + 1) - 1) / 512 = k
      omega
    have hnow : 512 * (k + 1) / sectorSize = k + 1 := Nat.mul_div_cancel_left _ (by decide)
    rw [hchanged, hnew] at hnodup ⊢
    rw [hnew] at hblocks
    rw [hold] at hcharged
    rw [show 512 * (k + 1) / 512 = k + 1 from hnow] at hway ⊢
    have hone : k + 2 - (k + 1) = 1 := by omega
    rw [hold, hprev, hone]
    exact block_coalesces (by omega) hway hcharged hnodup
  · have hprev : (length - 1) / sectorSize = length / 512 := by
      show (length - 1) / 512 = _
      omega
    have hsame : dataBlocks (length + 1) = dataBlocks length := by
      unfold dataBlocks
      omega
    rw [hchanged, hsame, hprev, Nat.sub_self]
    exact ⟨charged, inside_coalesces hway, hcharged⟩

/-! ## Overwriting -/

/-- The sectors of the blocks in which the first bytes of a file are. -/
def firstBlocks (g : Spot → SectorId) (last : Nat) : List SectorId := (dataSpots (dataBlocks last)).map g

theorem length_firstBlocks (g : Spot → SectorId) {last : Nat} (hlast : last ≤ maxFileSize) :
    (firstBlocks g last).length = dataBlocks last := by
  rw [firstBlocks, List.length_map, length_dataSpots (dataBlocks_le hlast)]

/-- They are what is changed where bytes are put over the first ones. -/
theorem soiled_strokes (g : Spot → SectorId) {count : Nat} (hcount : count ≤ maxFileBlocks) :
    ((List.range' 0 count).flatMap (strokes g)).filterMap Touch.soiled? = (dataSpots count).map g := by
  induction count with
  | zero => rfl
  | succ count ih =>
    obtain ⟨place, hplace⟩ := Option.isSome_iff_exists.mp ((Position.of?_isSome count).mpr hcount)
    have hnone : ((above place).map fun t => Touch.look (g t)).filterMap Touch.soiled? = [] := by
      rw [List.filterMap_map]
      exact List.filterMap_eq_nil_iff.mpr fun t _ => rfl
    rw [List.range'_concat, List.flatMap_append, List.filterMap_append, ih (Nat.le_of_succ_le hcount),
      dataSpots_succ hplace, List.map_append, List.flatMap_singleton, Nat.zero_add, Nat.one_mul,
      strokes_of_of? hplace, List.filterMap_append, hnone]
    rfl

/-- **Bytes that are put over the first ones of a file** change its first blocks, each of them once. -/
theorem overwrite_coalesces {m last : Nat} {first : List SectorId} (hm : 0 < m) (hlast : last ≤ maxFileSize)
    (hfresh : ((firstBlocks g last).reverse ++ charged).Nodup) :
    Coalesces m first charged (.look x :: strokesBetween g 0 last) [] ((firstBlocks g last).reverse ++ charged) := by
  have hstrokes : strokesBetween g 0 last = (List.range' 0 (dataBlocks last)).flatMap (strokes g) := by
    unfold strokesBetween blocksBetween
    split
    · rfl
    · next hnone =>
      obtain rfl : last = 0 := by omega
      rfl
  have hsoiled : (Touch.look x :: strokesBetween g 0 last).filterMap Touch.soiled? = firstBlocks g last := by
    rw [List.filterMap_cons_none rfl, hstrokes, soiled_strokes g (dataBlocks_le hlast), firstBlocks]
  have hall : ∀ touch ∈ Touch.look x :: strokesBetween g 0 last, touch.sector? ≠ none := by
    intro touch htouch
    rcases List.mem_cons.mp htouch with rfl | htouch
    · exact Option.some_ne_none x
    · obtain ⟨k, -, hmem⟩ := List.mem_flatMap.mp htouch
      obtain ⟨t, -, rfl⟩ := List.mem_map.mp hmem
      split <;> exact Option.some_ne_none _
  rw [← hsoiled] at hfresh ⊢
  exact .scatter hm hall hfresh

section FirstBlocks

variable {p : Plain} {d : Descriptor} {f : FileRecord} {last : Nat} {s : SectorId} (h : FileAt p x d f)
include h

/-- They are found where the first bytes are looked for. -/
theorem FileAt.sectorOfByte_firstBlocks (hlast : last ≤ d.size)
    (hs : (firstBlocks (sectorOf p.block d) last)[k]? = some s) :
    Runs true (sectorOfByte ⟨x⟩ (sectorSize * k)) p (.ok s) p := by
  have hlong := Nat.le_trans hlast h.record.stored.size
  have hn := dataBlocks_le hlong
  obtain ⟨hk, -⟩ := List.getElem?_eq_some_iff.mp hs
  rw [length_firstBlocks _ hlong] at hk
  obtain ⟨place, hplace⟩ := Option.isSome_iff_exists.mp ((Position.of?_isSome k).mpr (by omega))
  obtain rfl := Position.number_of_of? hplace
  rw [firstBlocks, List.getElem?_map, getElem?_dataSpots hn hk] at hs
  obtain rfl := Option.some.inj hs
  refine sectorOfByte_finds h.record.stored h.permits h.hung.open.navigable ?_ ?_
  · show 512 * place.number < d.size
    change place.number < (last + 511) / 512 at hk
    omega
  · exact (Nat.mul_div_cancel_left place.number (by decide : 0 < sectorSize)).symm

/-- The file owns them. -/
theorem FileAt.firstBlocks_sublist (hlast : last ≤ d.size) :
    (firstBlocks (sectorOf p.block d) last).Sublist f.owned := by
  rw [← h.record.owned, tree, ← spots_append_spotsBetween hlast, List.map_append]
  exact (List.filter_sublist.map _).trans (List.sublist_append_left _ _)

end FirstBlocks

end InodeStore.Inode
