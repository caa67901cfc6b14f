import InodeStore.Proofs.Inode.Discretion
import InodeStore.Proofs.Inode.Handles
import InodeStore.Proofs.Inode.Ways
import InodeStore.Proofs.Store.Treading

/-!
# `Proofs.Inode.Handwork` — what is done to the cache when a file grows and is written

A new sector is changed when it is filled with zeros, and the block that has its slot when its number is put
there: `fills` are the uses for one new block, in the order in which its spots are filled. So the uses that a
growth makes are known from the spots that are new and from the sectors that they have afterwards
(`FileAt.extend_treads`). Bytes that are put inside of a file are put block by block: the index blocks above a
block are looked at and the block is changed (`FileAt.writeInside_treads`).
-/

namespace InodeStore.Inode

open Routine

/-! ## One new block -/

/-- The uses for a new block, by the sectors of its spots. -/
def fills (g : Spot → SectorId) : Position → List Touch
  | .direct slot => [.soil (g (.data (.direct slot)))]
  | .indirect slot =>
    (if slot.val = 0 then [.soil (g .index)] else []) ++
      [.soil (g (.data (.indirect slot))), .soil (g .index)]
  | .doubly outer inner =>
    (if outer.val = 0 ∧ inner.val = 0 then [.soil (g .outerIndex)] else []) ++
      ((if inner.val = 0 then [.soil (g (.innerIndex outer)), .soil (g .outerIndex)] else [.look (g .outerIndex)]) ++
        [.soil (g (.data (.doubly outer inner))), .soil (g (.innerIndex outer))])

/-- They are of the block and those above it. -/
theorem fills_congr {g g' : Spot → SectorId} {place : Position} (habove : ∀ t ∈ above place, g t = g' t)
    (hdata : g (.data place) = g' (.data place)) : fills g place = fills g' place := by
  cases place with
  | direct slot => simp only [fills, hdata]
  | indirect slot => simp only [fills, hdata, habove .index (by simp [above])]
  | doubly outer inner =>
    simp only [fills, hdata, habove .outerIndex (by simp [above]), habove (.innerIndex outer) (by simp [above])]

section Growing

variable {δ : Type} {m : Nat} [BlockDevice δ] [LawfulDevice δ] {p p' : Plain} {d d' : Descriptor}
  {done l : List Spot} {spot up : Spot} {slot : Fin 128} {s y : SectorId} {place : Position}

theorem takeZeroed_treads (hm : 0 < m) (h : Hung p d done) (hs : p.freeMap.nextFree? = some s) :
    Treads δ m takeZeroed p s (zeroed p s) [.soil s] := by
  have hlt := h.lawful.lt_sectors (h.lawful.nextFree?_free hs)
  have hpermits : ({ p with freeMap := p.freeMap.assign s.toNat true, took := s :: p.took } :
      Plain).Permits true s :=
    ⟨Nat.lt_of_lt_of_le hlt h.fits, fun _ => (taken_zeroed h.lawful hlt s).mpr (Or.inl rfl)⟩
  exact (Treads.allocate hm h.lawful hs).bind hm ((Treads.store hpermits).bind hm (Treads.pure s))

/-- The slot of a new sector is written. -/
theorem link_treads (h : Hung p d done) (hspot : Fillable done (spot :: l)) (hs : p.freeMap.nextFree? = some s)
    (hp : spot.parent? = some (up, slot)) :
    Treads δ m (update (sectorOf p.block d up) (Block.withPointer slot s)) (zeroed p s) () (hung p d spot s)
      [.soil (sectorOf p.block d up)] := by
  have hlearns : Learns true (fun _ => True) (update (sectorOf p.block d up) (Block.withPointer slot s)) (zeroed p s)
      (.ok ()) (hung p d spot s) := link_learns h hspot hs hp fun _ _ => trivial
  exact ⟨hlearns.runs, Touches.update _ _⟩

/-- A sector for a spot of the descriptor's. -/
theorem root_treads {c : Prop} [Decidable c] (hm : 0 < m) (h : Hung p d done) (hroot : spot.parent? = none)
    (hg : Grows p d (if c then [spot] else []) (.ok d') p') :
    Treads δ m (if c then takeZeroed >>= fun s => pure (setRoot d spot s) else pure d) p d' p'
      (if c then [.soil (sectorOf p'.block d' spot)] else []) := by
  by_cases hc : c
  · simp only [if_pos hc] at hg ⊢
    cases hg with
    | @next _ _ _ _ _ s _ hsome hrest =>
      cases hrest
      have hself : sectorOf (hung p d spot s).block (setRoot d spot s) spot = s := by
        rw [sectorOf_root hroot, root_setRoot_self hroot]
      have hsame : zeroed p s = hung p d spot s := by
        unfold hung
        rw [hang_of_root hroot]
        rfl
      rw [hself]
      exact (takeZeroed_treads hm h hsome).bind hm (hsame ▸ Treads.pure _)
  · simp only [if_neg hc] at hg ⊢
    cases hg
    exact Treads.pure d

/-- A sector for a spot of a slot. -/
theorem leaf_treads (hm : 0 < m) (h : Hung p d done) (hspot : Fillable done [.data place])
    (hp : (Spot.data place).parent? = some (up, slot)) (hy : y = sectorOf p.block d up)
    (hg : Grows p d [.data place] (.ok d') p') :
    Treads δ m (do
      let data ← takeZeroed
      update y (Block.withPointer slot data)
      return d) p d' p' [.soil (sectorOf p'.block d' (.data place)), .soil y] := by
  subst hy
  cases hg with
  | @next _ _ _ _ _ s _ hsome hrest =>
    cases hrest
    have hself := (h.ready hspot hsome).sectorOf_hang_self
    have hroot : setRoot d (.data place) s = d := by
      cases place with
      | direct slot => cases hp
      | _ => rfl
    rw [show sectorOf (hung p d (.data place) s).block (setRoot d (.data place) s) (.data place) = s from hself, hroot]
    exact (takeZeroed_treads hm h hsome).bind hm ((link_treads h hspot hsome hp).bind hm (Treads.pure d))

/-- The index block for a block that hangs in the second index block, made if there is none. -/
theorem inner_treads {outer : Fin 128} {c : Prop} [Decidable c] (hm : 0 < m) (h : Hung p d done)
    (hspot : Fillable done (if c then [.innerIndex outer] else [])) (hdone : ¬ c → .innerIndex outer ∈ done)
    (hg : Grows p d (if c then [.innerIndex outer] else []) (.ok d') p') :
    Treads δ m (if c then do
        let index ← takeZeroed
        update d.doublyIndirect (Block.withPointer outer index)
        pure index
      else do pure ((← view d.doublyIndirect).pointer outer)) p (sectorOf p'.block d' (.innerIndex outer)) p'
      (if c then [.soil (sectorOf p'.block d' (.innerIndex outer)), .soil d.doublyIndirect]
        else [.look d.doublyIndirect]) := by
  by_cases hc : c
  · simp only [if_pos hc] at hg hspot ⊢
    cases hg with
    | @next _ _ _ _ _ s _ hsome hrest =>
      cases hrest
      have hself := (h.ready hspot hsome).sectorOf_hang_self
      rw [show sectorOf (hung p d (.innerIndex outer) s).block (setRoot d (.innerIndex outer) s) (.innerIndex outer) = s
        from hself]
      exact (takeZeroed_treads hm h hsome).bind hm ((link_treads h hspot hsome rfl).bind hm (Treads.pure s))
  · simp only [if_neg hc] at hg ⊢
    cases hg
    exact (Treads.view (h.permits (h.closed _ (hdone hc) _ _ rfl))).bind hm (Treads.pure _)

/-- **A new block** is hung at its place. -/
theorem attach_treads (hm : 0 < m) (h : Hung p d done) (hspot : Fillable done (spotsAt place))
    (hdone : ∀ outer inner, place = .doubly outer inner → inner.val ≠ 0 → .innerIndex outer ∈ done)
    (hg : Grows p d (spotsAt place) (.ok d') p') :
    Treads δ m (attach d place) p d' p' (fills (sectorOf p'.block d') place) := by
  cases place with
  | direct slot => exact root_treads (c := True) hm h rfl hg
  | indirect slot =>
    rw [attach_indirect]
    obtain ⟨hfirst, hsecond⟩ := fillable_append.mp hspot
    rcases hg.of_append with ⟨cause, hstop, -⟩ | ⟨d₁, p₁, hg₁, hg₂⟩
    · cases hstop
    · obtain ⟨-, hcompleted⟩ := grows_spec hg₁ h hfirst
      obtain ⟨-, hcompleted'⟩ := grows_spec hg₂ hcompleted.standing hsecond
      have hindex := hcompleted'.same .index (hsecond.1.2 _ _ rfl)
      rw [fills, hindex]
      refine Treads.bind ?_ hm (leaf_treads hm hcompleted.standing hsecond rfl rfl hg₂)
      exact root_treads hm h rfl hg₁
  | doubly outer inner =>
    rw [attach_doubly]
    obtain ⟨hfirst, hrest⟩ := fillable_append.mp hspot
    obtain ⟨hsecond, hthird⟩ := fillable_append.mp hrest
    rcases hg.of_append with ⟨cause, hstop, -⟩ | ⟨d₁, p₁, hg₁, hg'⟩
    · cases hstop
    rcases Grows.of_append hg' with ⟨cause, hstop, -⟩ | ⟨d₂, p₂, hg₂, hg₃⟩
    · cases hstop
    obtain rfl : d₂ = d₁ := hg₂.inner_descriptor
    obtain ⟨-, hcompleted₁⟩ := grows_spec hg₁ h hfirst
    obtain ⟨-, hcompleted₂⟩ := grows_spec hg₂ hcompleted₁.standing hsecond
    obtain ⟨-, hcompleted₃⟩ := grows_spec hg₃ hcompleted₂.standing hthird
    -- both index blocks are where they are put, or were before
    have hinner := hthird.1.2 _ _ rfl
    have hinner' := hcompleted₃.same _ hinner
    have houter' := hcompleted₃.same .outerIndex (hcompleted₂.standing.closed _ hinner _ _ rfl)
    have houter : sectorOf p₂.block d₂ .outerIndex = sectorOf p₁.block d₂ .outerIndex := rfl
    rw [fills, hinner', houter', houter]
    refine Treads.bind (root_treads hm h rfl hg₁) hm (Treads.bind ?_ hm
      (leaf_treads hm hcompleted₂.standing hthird rfl rfl hg₃))
    refine inner_treads hm hcompleted₁.standing hsecond (fun hne => ?_) hg₂
    exact List.mem_append_left _ (hdone outer inner rfl hne)

/-! ## Growth -/

/-- The uses for some new blocks, one after the other. -/
def fillsFrom (g : Spot → SectorId) (k count : Nat) : List Touch :=
  (List.range' k count).flatMap fun k => ((Position.of? k).map (fills g)).getD []

omit [BlockDevice δ] [LawfulDevice δ] in
theorem fillsFrom_congr {g g' : Spot → SectorId} (k count : Nat) (hk : k + count ≤ maxFileBlocks)
    (h : ∀ t ∈ spots (k + count), g t = g' t) : fillsFrom g k count = fillsFrom g' k count := by
  refine List.flatMap_congr fun j hj => ?_
  have hbound := List.mem_range'_1.mp hj
  cases hplace : Position.of? j with
  | none => rfl
  | some place =>
    have hnumber := Position.number_of_of? hplace
    refine fills_congr (fun t ht => h t ?_) (h _ (data_mem_spots hk (by omega)))
    exact mem_spots_of_mem_above hk (by omega) ht

theorem growFrom_treads {k count : Nat} (hm : 0 < m) (h : Hung p d (spots k)) (hk : k + count ≤ maxFileBlocks)
    (hg : Grows p d (spotsFrom k count) (.ok d') p') :
    Treads δ m (growFrom k d count) p d' p' (fillsFrom (sectorOf p'.block d') k count) := by
  induction count generalizing k p d with
  | zero =>
    cases hg
    exact Treads.pure _
  | succ count ih =>
    obtain ⟨place, hplace⟩ := Option.isSome_iff_exists.mp ((Position.of?_isSome k).mpr (by omega))
    have hnumber := Position.number_of_of? hplace
    have hspot : Fillable (spots k) (spotsAt place) := fillable_spotsAt hplace
    -- the inner index block was filled with the first block in it
    have hdone : ∀ outer inner, place = .doubly outer inner → inner.val ≠ 0 → .innerIndex outer ∈ spots k := by
      rintro outer inner rfl hne
      exact innerIndex_mem_spots (by omega) hplace hne
    rw [spotsFrom, spotsOf_of_of? hplace] at hg
    rw [growFrom]
    simp only [hplace]
    rcases hg.of_append with ⟨cause, hstop, -⟩ | ⟨d₁, p₁, hg₁, hg₂⟩
    · cases hstop
    obtain ⟨-, hcompleted⟩ := grows_spec hg₁ h hspot
    have hspots : spots k ++ spotsAt place = spots (k + 1) := by rw [spots_succ, spotsOf_of_of? hplace]
    have hstanding : Hung p₁ d₁ (spots (k + 1)) := hspots ▸ hcompleted.standing
    obtain ⟨-, hcompleted'⟩ := grows_spec hg₂ hstanding (fillable_spotsFrom (by omega))
    have hsame : fills (sectorOf p₁.block d₁) place = fills (sectorOf p'.block d') place := by
      refine fills_congr (fun t ht => (hcompleted'.same t ?_).symm) (hcompleted'.same _ ?_).symm
      · exact mem_spots_of_mem_above (by omega) (by omega) ht
      · exact data_mem_spots (by omega) (by omega)
    have hfirst : Treads δ m (attach d place) p d₁ p₁ (fills (sectorOf p₁.block d₁) place) :=
      attach_treads hm h hspot hdone hg₁
    rw [hsame] at hfirst
    have hlist : fillsFrom (sectorOf p'.block d') k (count + 1) =
        fills (sectorOf p'.block d') place ++ fillsFrom (sectorOf p'.block d') (k + 1) count := by
      rw [fillsFrom, List.range'_succ, List.flatMap_cons, hplace]
      rfl
    rw [hlist]
    exact hfirst.bind hm (ih hstanding (by omega) hg₂)

theorem grow_treads {length : Nat} (hm : 0 < m) (h : Hung p d (spots (dataBlocks d.size)))
    (hsize : d.size ≤ maxFileSize) (hlength : length ≤ maxFileSize)
    (hg : Grows p d (spotsBetween d.size length) (.ok d') p') :
    Treads δ m (grow d length) p (lengthened d' length) p'
      (fillsFrom (sectorOf p'.block d') (dataBlocks d.size) (dataBlocks length - dataBlocks d.size)) := by
  have hblocks := dataBlocks_le hsize
  have hblocks' := dataBlocks_le hlength
  unfold grow
  rw [if_neg (Nat.not_lt.mpr hlength)]
  have htreads := (growFrom_treads (δ := δ) hm h (by omega) hg).bind
    (f := fun d => (pure (lengthened d length) : Routine Descriptor)) hm (Treads.pure _)
  rwa [List.append_nil] at htreads

/-- Where the sectors for a longer file are there, they are hung. -/
theorem claim_grows {old length : Nat} {new : List SectorId} (h : Hung p d (spots (dataBlocks old)))
    (hlength : length ≤ maxFileSize) (hold : old ≤ length) (hclaim : claim p.freeMap old length = .ok new) :
    ∃ d' p', Grows p d (spotsBetween old length) (.ok d') p' ∧ Growth p p' d (spots (dataBlocks old)) new ∧
      Completed p p' d d' (spots (dataBlocks old)) (spotsBetween old length) new := by
  have hblocks := dataBlocks_le hlength
  have hblocks' := dataBlocks_mono hold
  obtain ⟨ending, p₁, hgrows⟩ := exists_grows p d (spotsBetween old length)
  obtain ⟨hgrowth, houtcome⟩ := grows_spec hgrows h (fillable_spotsFrom (by omega))
  unfold claim at hclaim
  rw [if_neg (Nat.not_lt.mpr hlength)] at hclaim
  split at hclaim
  · next hfull =>
    obtain rfl := Except.ok.inj hclaim
    cases ending with
    | ok d' => exact ⟨d', p₁, hgrows, hgrowth, houtcome⟩
    | error cause => exact absurd hfull (Nat.ne_of_lt houtcome.2)
  · cases hclaim

variable {x : SectorId} {f : FileRecord} {length : Nat} {new : List SectorId}

/-- **A file is lengthened**: its new blocks are filled, and its descriptor is written. -/
theorem FileAt.extend_treads (hm : 0 < m) (h : FileAt p x d f) (hsize : d.size ≤ length)
    (hlength : length ≤ maxFileSize) (hclaim : claim p.freeMap d.size length = .ok new) :
    ∃ p' grown, Treads δ m (extend x d length) p grown p'
        (fillsFrom (sectorOf p'.block grown) (dataBlocks d.size) (dataBlocks length - dataBlocks d.size) ++ [.soil x]) ∧
      Made p p' x grown (f.longer length new) new := by
  obtain ⟨d', p₁, hgrows, hgrowth, hcompleted⟩ := claim_grows h.hung hlength hsize hclaim
  have hsaved : Saved p p₁ x d d' length new :=
    ⟨hsize, hlength, h.record.stored.valid, h.hung, h.taken, h.record.owned ▸ h.own, hgrowth, hcompleted⟩
  obtain ⟨hsave, hmade⟩ := hsaved.made h.draft
  refine ⟨_, lengthened d' length, ?_, hmade⟩
  have hn := dataBlocks_le hlength
  have hblocks := hsaved.blocks
  have hsame := fillsFrom_congr (dataBlocks d.size) (dataBlocks length - dataBlocks d.size) (by omega)
    fun t ht => hsaved.same (lengthened d' length).encode t (hblocks ▸ ht)
  have hgrow := grow_treads (δ := δ) hm h.hung h.record.stored.size hlength hgrows
  rw [← hsame] at hgrow
  have hstore : Treads δ m (save x (lengthened d' length)) p₁ () _ [.soil x] := ⟨hsave, Touches.store _ _⟩
  have hbody : Treads δ m (do let grown ← grow d length; save x grown; return grown) p (lengthened d' length) _
      (_ ++ ([.soil x] ++ [])) := hgrow.bind hm (hstore.bind hm (Treads.pure (lengthened d' length)))
  obtain ⟨count, hreserving⟩ := hbody.reserving hm
  have hextend : Treads δ m (extend x d length) p (lengthened d' length) _ (_ ++ ([.soil x] ++ []) ++ ([] ++ [])) :=
    hreserving.bind hm ((Treads.emit _).bind hm (Treads.pure _))
  rw [List.append_nil, List.append_nil, List.append_nil] at hextend
  exact hextend

end Growing

/-- **A file that only gets longer** has its sectors where they were, and the new ones behind them. -/
theorem OnRecord.sectorOf_eq {b b' : SectorArray} {x : SectorId} {d d' : Descriptor} {f f' : FileRecord}
    {new : List SectorId} (h : OnRecord b x d f) (h' : OnRecord b' x d' f') (howned : f'.owned = f.owned ++ new)
    (hsize : d.size ≤ d'.size) :
    (∀ t ∈ spots (dataBlocks d.size), sectorOf b' d' t = sectorOf b d t) ∧
      (spotsBetween d.size d'.size).map (sectorOf b' d') = new := by
  have hall := h'.owned
  rw [tree, ← spots_append_spotsBetween hsize, List.map_append, howned, ← h.owned] at hall
  obtain ⟨hold, hnew⟩ := List.append_inj hall (by rw [tree, List.length_map, List.length_map])
  exact ⟨List.map_inj_left.mp hold, hnew⟩

/-! ## Bytes -/

/-- The uses for bytes that are put into block `k`: the index blocks above it are looked at, and it is changed. -/
def strokes (g : Spot → SectorId) (k : Nat) : List Touch :=
  (spotsTo k).map fun t => if t.isIndex then .look (g t) else .soil (g t)

theorem strokes_of_of? {g : Spot → SectorId} {k : Nat} {place : Position} (h : Position.of? k = some place) :
    strokes g k = (above place).map (fun t => .look (g t)) ++ [.soil (g (.data place))] := by
  rw [strokes, spotsTo_of_of? h, List.map_append, List.map_congr_left fun t ht => if_pos (isIndex_of_mem_above ht)]
  rfl

theorem strokes_congr {g g' : Spot → SectorId} {k n : Nat} (hn : n ≤ maxFileBlocks) (hk : k < n)
    (h : ∀ t ∈ spots n, g t = g' t) : strokes g k = strokes g' k :=
  List.map_congr_left fun t ht => by rw [h t (mem_spots_of_mem_spotsTo hn hk ht)]

section Writing

variable {δ : Type} {m : Nat} [BlockDevice δ] [LawfulDevice δ] {p : Plain} {d : Descriptor} {x : SectorId}
  {f : FileRecord} {bytes data : Bytes} {offset k : Nat}

theorem writeSpans_touches {count : Nat} (hm : 0 < m) (written : Nat) (hsize : d.size ≤ maxFileSize)
    (hp : Hung p d (spots (dataBlocks d.size))) (hd : d.size = bytes.size) (hlast : offset + data.size ≤ bytes.size)
    (hsome : 0 < data.size) (hk : offset / sectorSize ≤ k) (hcount : k + count = dataBlocks (offset + data.size))
    (h : Halfway p d (dataBlocks d.size) k bytes (patched bytes offset data)) :
    Touches δ m
      (writeSpans d offset data written ((List.range' k count).map (Span.inBlock offset (offset + data.size)))) p
      ((List.range' k count).flatMap (strokes (sectorOf p.block d))) := by
  change offset / 512 ≤ k at hk
  have hn := dataBlocks_le hsize
  induction count generalizing k p written with
  | zero => exact Touches.pure _
  | succ count ih =>
    have hk' : 512 * k < offset + data.size := by
      unfold dataBlocks at hcount
      omega
    have hstart : offset < 512 * (k + 1) := by omega
    obtain ⟨place, hlocate, hnumber, hlt⟩ :=
      locate?_block hsize hk (show max offset (512 * k) < d.size by omega)
    obtain ⟨hpart, hchanged, hhalfway⟩ := writeSpan_runs hsize hp hlast hstart hk' hnumber hlt h
    have hrest := ih (k := k + 1) (written + (partOf offset data k).size) hchanged.hung (by omega) hhalfway (by omega)
    -- no sector of the file moves
    have hmono := dataBlocks_mono (Nat.le_trans hlast (Nat.le_of_eq hd.symm))
    rw [List.flatMap_congr fun j hj => strokes_congr hn
      (by have hbound := List.mem_range'_1.mp hj; omega) hchanged.same] at hrest
    have hof : Position.of? k = some place := hnumber ▸ Position.of?_number place
    have hspan : Span.inBlock offset (offset + data.size) k =
        ⟨max offset (512 * k), min (offset + data.size) (512 * (k + 1))⟩ := rfl
    rw [List.range'_succ, List.map_cons, List.flatMap_cons, hspan, writeSpans_cons hlocate, strokes_of_of? hof,
      List.append_assoc]
    have hway := (follow_uses (δ := δ) hm hn hp.open.navigable hlt).touches follow_looks
    rw [List.map_map] at hway
    refine hway.bind (follow_runs hn hp.open.navigable hlt) hm (Touches.bind ?_ hpart hm hrest)
    show Touches δ m (if (partOf offset data k).size = sectorSize then _ else _) p _
    by_cases hfull : (partOf offset data k).size = sectorSize
    · rw [if_pos hfull]
      exact Touches.store _ _
    · rw [if_neg hfull]
      exact Touches.update _ _

/-- The uses for the bytes from `first` up to `last`. -/
def strokesBetween (g : Spot → SectorId) (first last : Nat) : List Touch :=
  (blocksBetween first last).flatMap (strokes g)

theorem strokesBetween_congr {g g' : Spot → SectorId} (first : Nat) {last : Nat} (hlast : last ≤ maxFileSize)
    (h : ∀ t ∈ spots (dataBlocks last), g t = g' t) : strokesBetween g first last = strokesBetween g' first last := by
  refine List.flatMap_congr fun k hk => strokes_congr (dataBlocks_le hlast) ?_ h
  unfold blocksBetween at hk
  split at hk
  · have hbound := List.mem_range'_1.mp hk
    omega
  · cases hk

/-- **Bytes are put inside of a file**, block by block. -/
theorem FileAt.writeInside_treads (hm : 0 < m) (h : FileAt p x d f) (hlast : offset + data.size ≤ f.bytes.size)
    (hsome : 0 < data.size) :
    ∃ p', Treads δ m (writeInside d offset data) p data.size p'
        (strokesBetween (sectorOf p.block d) offset (offset + data.size)) ∧
      FileAt p' x d (f.patched offset data) ∧ (∀ y, y ∉ f.owned → p'.block y = p.block y) ∧
      p' = { p with block := p'.block } := by
  obtain ⟨p', hrun, hfile, hframe, hrest⟩ := h.writeInside_runs hlast hsome
  refine ⟨p', ⟨hrun, ?_⟩, hfile, hframe, hrest⟩
  have hfirst : offset < offset + data.size := by omega
  have hblocks : offset / 512 < dataBlocks (offset + data.size) := div_lt_dataBlocks hfirst
  unfold writeInside strokesBetween blocksBetween
  rw [spans_eq hfirst, if_pos hfirst]
  exact writeSpans_touches hm 0 h.record.stored.size h.hung h.record.holds.size hlast hsome (Nat.le_refl _)
    (Nat.add_sub_cancel' (Nat.le_of_lt hblocks)) (h.record.holds.halfway hlast)

/-! ## Writing -/

variable {d' : Descriptor} {new : List SectorId} {p' : Plain} {count : Nat} {l : List Touch}

theorem FileAt.load_treads (h : FileAt p x d f) : Treads δ m (load x) p d p [.look x] :=
  Treads.of_uses h.load_runs load_uses (load_looks x)

/-- Nothing is used by a write that is denied. -/
theorem write_denied_treads (hm : 0 < m) (h : p.registry.isDenied ⟨x⟩ = true) :
    Treads δ m (write ⟨x⟩ offset data) p 0 p [] := by
  refine (Treads.perform .isDenied).bind hm ?_
  rw [if_pos h]
  exact (Treads.emit _).bind hm (Treads.pure 0)

/-- A write that is carried out. -/
theorem write_treads_of (hm : 0 < m) (h : FileAt p x d f) (hallowed : p.registry.isDenied ⟨x⟩ = false)
    (hdata : 0 < data.size) (hlong : offset + data.size ≤ maxFileSize)
    (hrun : Treads δ m (if offset + data.size ≤ d.size then writeInside d offset data
      else exclusively ⟨x⟩ (lengthenAndWrite x offset data)) p count p' l) :
    Treads δ m (write ⟨x⟩ offset data) p count p' (.look x :: l) := by
  have hsome : ¬ data.isEmpty = true := fun he =>
    Nat.ne_of_gt hdata (Array.isEmpty_iff_size_eq_zero.mp he)
  have hload : Treads δ m (load x >>= fun d => if offset + data.size ≤ d.size then writeInside d offset data
      else exclusively ⟨x⟩ (lengthenAndWrite x offset data)) p count p' ([.look x] ++ l) :=
    h.load_treads.bind hm hrun
  refine (Treads.perform .isDenied).bind hm ?_
  rw [hallowed, if_neg Bool.false_ne_true, if_neg hsome]
  show Treads δ m (if maxFileSize < offset + data.size then _ else _) p count p' _
  rw [if_neg (Nat.not_lt.mpr hlong)]
  exact hload

/-- **A write inside of a file.** -/
theorem FileAt.write_inside_treads (hm : 0 < m) (h : FileAt p x d f) (hallowed : p.registry.isDenied ⟨x⟩ = false)
    (hdata : 0 < data.size) (hinside : offset + data.size ≤ d.size) :
    ∃ p', Treads δ m (write ⟨x⟩ offset data) p data.size p'
        (.look x :: strokesBetween (sectorOf p.block d) offset (offset + data.size)) ∧
      FileAt p' x d (f.patched offset data) := by
  obtain ⟨p', hwrite, hfile, -⟩ := h.writeInside_treads (δ := δ) hm (h.record.holds.size ▸ hinside) hdata
  refine ⟨p', write_treads_of hm h hallowed hdata (Nat.le_trans hinside h.record.stored.size) ?_, hfile⟩
  rw [if_pos hinside]
  exact hwrite

/-- A file is lengthened to the end of the bytes, which are then put into it. -/
theorem FileAt.lengthenAndWrite_treads (hm : 0 < m) (h : FileAt p x d f) (hdata : 0 < data.size)
    (hlong : offset + data.size ≤ maxFileSize) (hbeyond : d.size < offset + data.size)
    (hclaim : claim p.freeMap d.size (offset + data.size) = .ok new) :
    ∃ p' d', Treads δ m (lengthenAndWrite x offset data) p data.size p' (.look x ::
        (fillsFrom (sectorOf p'.block d') (dataBlocks d.size) (dataBlocks (offset + data.size) - dataBlocks d.size) ++
          .soil x :: strokesBetween (sectorOf p'.block d') offset (offset + data.size))) ∧
      FileAt p' x d' (f.written offset data new) := by
  have hsize := h.record.holds.size
  obtain ⟨q, grown, hextend, hmade⟩ := h.extend_treads (δ := δ) hm (Nat.le_of_lt hbeyond) hlong hclaim
  have hsize' : offset + data.size = (f.longer (offset + data.size) new).bytes.size :=
    (size_padded (hsize ▸ Nat.le_of_lt hbeyond)).symm
  obtain ⟨p', hwrite, hfile, -, -⟩ := hmade.file.writeInside_treads (δ := δ) hm (Nat.le_of_eq hsize') hdata
  -- the bytes move no sector
  have hgrown : offset + data.size = grown.size := hsize'.trans hmade.file.record.holds.size.symm
  have hn := dataBlocks_le hlong
  have hblocks := Nat.add_sub_cancel' (dataBlocks_mono (Nat.le_of_lt hbeyond))
  obtain ⟨hsame, -⟩ := hmade.file.record.sectorOf_eq hfile.record (List.append_nil _).symm (Nat.le_refl _)
  rw [← hgrown] at hsame
  have hfills := fillsFrom_congr (dataBlocks d.size) (dataBlocks (offset + data.size) - dataBlocks d.size)
    (by omega) fun t ht => hsame t (hblocks ▸ ht)
  have hstrokes := strokesBetween_congr offset hlong hsame
  refine ⟨p', grown, ?_, ?_⟩
  · have hwritten := hextend.bind hm (f := fun d => writeInside d offset data) hwrite
    rw [List.append_assoc] at hwritten
    rw [hfills, hstrokes]
    have hload : Treads δ m (load x) p d p [.look x] := h.load_treads
    rw [lengthenAndWrite, ← List.singleton_append]
    refine hload.bind hm ?_
    rw [if_pos hbeyond]
    exact hwritten
  · unfold FileRecord.written
    rw [Nat.max_eq_right (hsize ▸ Nat.le_of_lt hbeyond)]
    exact hfile

/-- **A write beyond the end of a file** looks at the descriptor twice, fills the new blocks and puts the bytes into
    the longer file. -/
theorem FileAt.write_beyond_treads (hm : 0 < m) (h : FileAt p x d f) (hallowed : p.registry.isDenied ⟨x⟩ = false)
    (hdata : 0 < data.size) (hlong : offset + data.size ≤ maxFileSize) (hbeyond : d.size < offset + data.size)
    (hclaim : claim p.freeMap d.size (offset + data.size) = .ok new) :
    ∃ p' d', Treads δ m (write ⟨x⟩ offset data) p data.size p' (.look x :: .look x ::
        (fillsFrom (sectorOf p'.block d') (dataBlocks d.size) (dataBlocks (offset + data.size) - dataBlocks d.size) ++
          .soil x :: strokesBetween (sectorOf p'.block d') offset (offset + data.size))) ∧
      FileAt p' x d' (f.written offset data new) := by
  have hfile := h.withRegistry (Registry.setGrowing ⟨x⟩ true p.registry).state
  obtain ⟨q, d', hbody, hfile'⟩ := hfile.lengthenAndWrite_treads (δ := δ) hm hdata hlong hbeyond hclaim
  have hwrite := hbody.exclusively ⟨x⟩ hm
  refine ⟨{ q with registry := (Registry.setGrowing ⟨x⟩ false q.registry).state }, d',
    write_treads_of hm h hallowed hdata hlong ?_, hfile'.withRegistry _⟩
  rw [if_neg (Nat.not_le.mpr hbeyond)]
  exact hwrite

end Writing

end InodeStore.Inode
