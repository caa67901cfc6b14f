import InodeStore.Proofs.Session.Lengthening

/-!
# `Proofs.Session.Extending` — a file grows while others work

Each routine that takes part in the growth of a file has one lemma: what it takes to be secure, and where
the party stands after it. The lemmas are put together as the routines are, from `takeZeroed_secure` for one
sector to `extend_secure` for the whole growth, which puts the longer file on record.

There is always a sector to take: no file gets longer than all jobs make it (`Due.room`), and for that
there are sectors enough.
-/

namespace InodeStore

open Inode

namespace Plan

variable {P : Plan} {m m' : Moment} {t n : Nat} {x y s : SectorId} {d : Descriptor}
  {σ : Spot → SectorId} {l rest : List Spot} {pending pending' : List SectorId} {spot up : Spot}
  {slot : Fin 128}


/-! ## One sector -/

theorem Lengthening.allocate_secure (h : Lengthening t x n σ d l [] m) (hm : P.Intact m)
    (hroom : totalBlocks n + l.length < totalBlocks (P.target x)) :
    P.conduct.Secure t (fun s => Lengthening t x n σ d l [s]) Routine.allocate m := by
  have hperform : P.conduct.Secure t (fun answer m => ∃ s, answer = .ok s ∧
      Lengthening t x n σ d l [s] m) (Routine.perform .allocate) m := by
    refine .perform_ready (fun _ => rfl) fun m' hw => ?_
    obtain ⟨s, hdoes, hclaimed⟩ := (h.later hm hw).claimed hw.2 hroom
    exact ⟨.ok s, _, hdoes, fun m'' hw' => ⟨s, rfl, hclaimed.later hdoes.sound hw'⟩⟩
  apply hperform.bind
  intro answer m' hm' hlast
  obtain ⟨s, rfl, -⟩ := hlast.now hm'
  intro m'' hw
  obtain ⟨s', he, h⟩ := hlast m'' hw
  exact Except.ok.inj he ▸ h

/-- **A sector is taken and filled with zeros.** -/
theorem Lengthening.takeZeroed_secure (h : Lengthening t x n σ d l [] m) (hm : P.Intact m)
    (hroom : totalBlocks n + l.length < totalBlocks (P.target x)) :
    P.conduct.Secure t (fun s => Prepared t x n σ d l s) takeZeroed m := by
  apply (h.allocate_secure hm hroom).bind
  intro s m' hm' hlast
  have hzeroize : P.conduct.Secure t (fun _ => Prepared t x n σ d l s) (Routine.zeroize s) m' := by
    refine .perform_ready (fun _ => rfl) fun m'' hw => ?_
    have h := hlast m'' hw
    have hdoes := h.zeroed hw.2 Block.zero
    have hprepared : Prepared t x n σ d l s (m''.put s Block.zero) :=
      ⟨h.put hw.2 _, m''.plain.block_put_self s _⟩
    exact ⟨(), _, hdoes, fun _ hw' => hprepared.later hdoes.sound hw'⟩
  exact hzeroize.bind fun _ _ _ hlast => hlast

/-! ## One block -/

/-- A party has filled so many spots. -/
def Filled (t : Nat) (x : SectorId) (n : Nat) (l : List Spot) (d : Descriptor) (m : Moment) : Prop :=
  ∃ σ, Lengthening t x n σ d l [] m

theorem Lengthening.filled (h : Lengthening t x n σ d l [] m) (hm : P.Intact m) :
    P.conduct.Lasts t (Filled t x n l d) m := fun _ hw => ⟨σ, h.later hm hw⟩

theorem Lengthening.permits (h : Lengthening t x n σ d l pending m) (hm : P.Intact m) {u : Spot}
    (hu : u ∈ spots (dataBlocks n) ++ l) (hindex : u.isIndex = true) : m.plain.Permits true (σ u) :=
  hm.permits (hm.owns_frame (h.record? hm) (h.frame_index hu hindex))

/-- A sector for a spot of the descriptor's, if there is one to fill. -/
theorem Lengthening.root_secure {c : Prop} [Decidable c] (h : Lengthening t x n σ d l [] m)
    (hm : P.Intact m) (hroot : spot.parent? = none) (hdue : P.Due x n l (if c then [spot] else [])) :
    P.conduct.Secure t (Filled t x n (l ++ if c then [spot] else []))
      (if c then takeZeroed >>= fun s => pure (setRoot d spot s) else pure d) m := by
  by_cases hc : c
  · simp only [if_pos hc] at hdue ⊢
    apply (h.takeZeroed_secure hm hdue.lt).bind
    intro s m₁ _ hlast m₂ hw
    have h := hlast m₂ hw
    have hhung := h.hung hw.2 hdue
    rw [h.hang_root hroot] at hhung
    exact ⟨_, hhung⟩
  · simp only [if_neg hc, List.append_nil]
    exact .pure (h.filled hm)

/-- The slot of a new sector number is written. -/
theorem Prepared.link_secure (h : P.conduct.Lasts t (Prepared t x n σ d l s) m)
    (hdue : P.Due x n l (spot :: rest)) (hp : spot.parent? = some (up, slot)) :
    P.conduct.Secure t (fun _ => Lengthening t x n (Function.update σ spot s) (setRoot d spot s)
      (l ++ [spot]) []) (Routine.update (σ up) (Block.withPointer slot s)) m := by
  refine .perform_ready (fun _ => rfl) fun m' hw => ?_
  have hm : P.Intact m' := hw.2
  have h := h m' hw
  have hup := (h.ready hm hdue).reachable up slot hp
  have hindex := Spot.isIndex_of_parent? hp
  have hhung := h.hung hm hdue
  have hslots := h.keepsSlots hm hdue
  rw [h.hang_child hm hdue hp] at hhung hslots
  have hframe := h.frame_index hup hindex
  have hne := h.ne_self hm hup
  have hdoes : P.conduct.Does t m' (.update (σ up) (Block.withPointer slot s)) (.ok ())
      (m'.put (σ up) ((m'.plain.block (σ up)).withPointer slot s)) :=
    ⟨.update (h.permits hm hup hindex), hm.put h.holder hframe hne hslots,
      fun u hu => hm.respects_put h.holder hframe hne hslots hu⟩
  exact ⟨(), _, hdoes, hhung.lasts hdoes.sound⟩

/-- A sector for a spot of a slot. -/
theorem Lengthening.leaf_secure {place : Position} (h : Lengthening t x n σ d l [] m) (hm : P.Intact m)
    (hdue : P.Due x n l [.data place]) (hp : (Spot.data place).parent? = some (up, slot))
    (hy : y = σ up) :
    P.conduct.Secure t (Filled t x n (l ++ [.data place])) (do
      let data ← takeZeroed
      Routine.update y (Block.withPointer slot data)
      return d) m := by
  subst hy
  apply (h.takeZeroed_secure hm hdue.lt).bind
  intro s m₁ _ hlast
  have hroot : setRoot d (.data place) s = d := by
    cases place with
    | direct slot => cases hp
    | _ => rfl
  apply (Prepared.link_secure hlast hdue hp).bind
  intro _ m₂ _ hlast m₃ hw
  exact ⟨_, hroot ▸ hlast m₃ hw⟩

/-- The index block for a block that hangs in the second index block, made if there is none. -/
theorem Lengthening.inner_secure {outer : Fin 128} {c : Prop} [Decidable c]
    (h : Lengthening t x n σ d l [] m) (hm : P.Intact m)
    (hdue : P.Due x n l (if c then [.innerIndex outer] else []))
    (hdone : ¬ c → .innerIndex outer ∈ spots (dataBlocks n) ++ l) :
    P.conduct.Secure t (fun index m => ∃ σ, Lengthening t x n σ d
        (l ++ if c then [.innerIndex outer] else []) [] m ∧ index = σ (.innerIndex outer))
      (if c then do
        let index ← takeZeroed
        Routine.update d.doublyIndirect (Block.withPointer outer index)
        pure index
      else do pure ((← Routine.view d.doublyIndirect).pointer outer)) m := by
  -- if it is not its turn, the index block is there and its number is looked up
  by_cases hc : c
  · simp only [if_pos hc] at hdue ⊢
    have houter : d.doublyIndirect = σ .outerIndex :=
      h.leads .outerIndex (hdue.fillable.1.2 _ _ rfl)
    rw [houter]
    apply (h.takeZeroed_secure hm hdue.lt).bind
    intro s m₁ _ hlast
    apply (Prepared.link_secure hlast hdue rfl).bind
    intro _ m₂ _ hlast m₃ hw
    exact ⟨_, hlast m₃ hw, (Function.update_self (Spot.innerIndex outer) s σ).symm⟩
  · simp only [if_neg hc, List.append_nil]
    have hup := h.closed _ (hdone hc) _ _ rfl
    have houter : d.doublyIndirect = σ .outerIndex := h.leads .outerIndex hup
    have hview : P.conduct.Secure t (fun b m => Lengthening t x n σ d l [] m ∧
        b.pointer outer = σ (.innerIndex outer)) (Routine.view d.doublyIndirect) m := by
      refine .ask (fun _ => rfl) fun m₁ hw => ?_
      have h := h.later hm hw
      refine ⟨_, .view (houter ▸ h.permits hw.2 hup rfl), fun m₂ hw' => ⟨h.later hw.2 hw', ?_⟩⟩
      exact h.leads (.innerIndex outer) (hdone hc)
    exact hview.bind fun b m₁ _ hlast m₂ hw => ⟨σ, hlast m₂ hw⟩

/-- **A new block** is hung at its place. -/
theorem Lengthening.attach_secure {place : Position} (h : Lengthening t x n σ d l [] m) (hm : P.Intact m)
    (hdue : P.Due x n l (spotsAt place))
    (hdone : ∀ outer inner, place = .doubly outer inner → inner.val ≠ 0 →
      .innerIndex outer ∈ spots (dataBlocks n) ++ l) :
    P.conduct.Secure t (Filled t x n (l ++ spotsAt place)) (attach d place) m := by
  cases place with
  | direct slot => exact h.root_secure (c := True) hm rfl hdue
  | indirect slot =>
    rw [attach_indirect]
    obtain ⟨hfirst, hsecond⟩ := Due.split hdue
    apply (h.root_secure hm rfl hfirst).bind
    intro d' m₁ hm₁ hlast
    obtain ⟨σ₁, h₁⟩ := hlast.now hm₁
    have hup := hsecond.fillable.1.2 .index slot rfl
    have hleaf := h₁.leaf_secure hm₁ hsecond rfl (h₁.leads .index hup)
    rw [List.append_assoc] at hleaf
    exact hleaf
  | doubly outer inner =>
    rw [attach_doubly]
    obtain ⟨hfirst, hrest⟩ := Due.split hdue
    obtain ⟨hsecond, hthird⟩ := hrest.split
    apply (h.root_secure hm rfl hfirst).bind
    intro d' m₁ hm₁ hlast
    obtain ⟨σ₁, h₁⟩ := hlast.now hm₁
    have hinner : ¬ inner.val = 0 → Spot.innerIndex outer ∈ spots (dataBlocks n) ++
        (l ++ if outer.val = 0 ∧ inner.val = 0 then [.outerIndex] else []) := by
      intro hne
      rw [← List.append_assoc]
      exact List.mem_append_left _ (hdone outer inner rfl hne)
    apply (h₁.inner_secure hm₁ hsecond hinner).bind
    intro index m₂ hm₂ hlast
    obtain ⟨σ₂, h₂, hindex⟩ := hlast.now hm₂
    have hleaf := h₂.leaf_secure hm₂ hthird rfl hindex
    rw [List.append_assoc, List.append_assoc] at hleaf
    exact hleaf

/-! ## Many blocks -/

theorem Lengthening.growFrom_secure {k count : Nat} (h : Lengthening t x n σ d l [] m) (hm : P.Intact m)
    (hk : k + count ≤ maxFileBlocks) (hspots : spots (dataBlocks n) ++ l = spots k)
    (hdue : P.Due x n l (spotsFrom k count)) :
    P.conduct.Secure t (Filled t x n (l ++ spotsFrom k count)) (growFrom k d count) m := by
  induction count generalizing k d σ l m with
  | zero =>
    rw [spotsFrom, List.append_nil]
    exact .pure (h.filled hm)
  | succ count ih =>
    obtain ⟨place, hplace⟩ := Option.isSome_iff_exists.mp ((Position.of?_isSome k).mpr (by omega))
    -- the inner index block was filled with the first block in it
    have hdone : ∀ outer inner, place = .doubly outer inner → inner.val ≠ 0 →
        .innerIndex outer ∈ spots (dataBlocks n) ++ l := by
      rintro outer inner rfl hne
      have hnumber := Position.number_of_of? hplace
      rw [hspots, mem_spots (by omega), ← hnumber]
      show 140 + 128 * outer.val < 140 + 128 * outer.val + inner.val
      omega
    have hone : spotsOf k = spotsAt place := spotsOf_of_of? hplace
    rw [spotsFrom, hone] at hdue ⊢
    rw [growFrom]
    simp only [hplace]
    obtain ⟨hfirst, hrest⟩ := hdue.split
    apply (h.attach_secure hm hfirst hdone).bind
    intro d' m₁ hm₁ hlast
    obtain ⟨σ₁, h₁⟩ := hlast.now hm₁
    have hnext : spots (dataBlocks n) ++ (l ++ spotsAt place) = spots (k + 1) := by
      rw [← List.append_assoc, hspots, spots_succ, hone]
    have hsecure := ih h₁ hm₁ (by omega) hnext hrest
    rw [List.append_assoc] at hsecure
    exact hsecure

/-- A party's copy of the descriptor is that of the longer file. -/
def Complete (t : Nat) (x : SectorId) (n length : Nat) (d : Descriptor) (m : Moment) : Prop :=
  ∃ d₀, d = lengthened d₀ length ∧ Filled t x n (newSpots n length) d₀ m

/-- **All blocks of the longer file are made**, and nothing but its descriptor is left to be written. -/
theorem Lengthening.grow_secure {length : Nat} (h : Lengthening t x n σ d [] [] m) (hm : P.Intact m)
    (hn : n ≤ length) (hlength : length ≤ P.target x) :
    P.conduct.Secure t (Complete t x n length) (grow d length) m := by
  have hfits := Nat.le_trans hlength (P.target_le x)
  have hblocks := dataBlocks_mono hn
  have hblocks' := dataBlocks_le hfits
  have hsize : d.size = n := by
    have hrecord := (hm.size_le (h.record? hm)).2.1
    unfold Descriptor.size at hrecord ⊢
    rw [h.length, hrecord, h.size]
  unfold grow
  rw [if_neg (Nat.not_lt.mpr hfits), hsize]
  apply (h.growFrom_secure hm (by omega) (List.append_nil _) (due_newSpots hn hlength)).bind
  intro d₀ m₁ _ hlast m₂ hw
  exact ⟨d₀, rfl, hlast m₂ hw⟩

/-! ## The longer file -/

/-- The descriptor is saved, and the file on record is the longer one. -/
theorem save_secure {length : Nat} (h : P.conduct.Lasts t (Complete t x n length d) m) (hn : n ≤ length)
    (hlength : length ≤ P.target x) :
    P.conduct.Secure t (fun _ m => Stance t (some x) m ∧ m.Leads x d ∧ d.size = length) (save x d) m := by
  refine .perform_ready (fun _ => rfl) fun m₁ hw => ?_
  have hm : P.Intact m₁ := hw.2
  obtain ⟨d, rfl, σ, hlengthening⟩ := h m₁ hw
  have h : P.Grown t x n length σ d m₁ := ⟨hlengthening, hn, hlength⟩
  have hx := h.record? hm
  have hsaved := h.saved hm
  have hdoes : P.conduct.Does t m₁ (.store x (lengthened d length).encode) (.ok ())
      (m₁.saved x d length) :=
    ⟨.store (hm.permits (Intact.owns_self hx)), hsaved, fun u hu => h.respects_saved hm hu⟩
  have hstance : Stance t (some x) (m₁.saved x d length) := by
    constructor
    · intro z
      constructor
      · exact fun hz => congrArg some (h.only hz).symm
      · intro he
        rw [← Option.some.inj he]
        exact h.holder
    · intro z he
      rw [← Option.some.inj he]
      exact Function.update_self _ _ _
  have hlive : (P.archive.record? x).isSome = true := P.live_of_mem (hm.holder h.holder).2
  have hleads := hsaved.leads (hsaved.record? hlive)
  rw [Moment.descriptor_saved] at hleads
  exact ⟨(), _, hdoes, fun m₂ hw' => ⟨hstance.later hw', (hw'.1 x).leads hleads, size_lengthened h.fits⟩⟩

/-- **A file is lengthened** by the party that keeps the others from it. -/
theorem extend_secure {length : Nat} (h : Stance t (some x) m) (hm : P.Intact m)
    (hn : m.size x ≤ length) (hlength : length ≤ P.target x) :
    P.conduct.Secure t (fun d m => Stance t (some x) m ∧ m.Leads x d ∧ d.size = length)
      (extend x (m.descriptor x) length) m := by
  have hbody : P.conduct.Secure t (fun d m => Stance t (some x) m ∧ m.Leads x d ∧ d.size = length)
      (grow (m.descriptor x) length >>= fun grown => save x grown >>= fun _ => pure grown) m := by
    apply ((h.lengthening hm).grow_secure hm hn hlength).bind
    intro d m₁ _ hlast
    exact (save_secure hlast hn hlength).bind fun _ _ _ hlast => hlast
  unfold extend
  apply (hbody.reservingFrom []).bind
  rintro ⟨d, sectors⟩ m₁ _ hlast
  exact (Conduct.Secure.emit _ hlast).bind fun _ _ _ hlast => hlast

end Plan

end InodeStore
