import InodeStore.Proofs.Inode.Registry

/-!
# `Proofs.Inode.Roll` — handles and the entry they share

A handle is given out as a reference to an entry of the inode, and what is known of the inode is in that entry. A
`Roll` keeps the open inodes so: entries are numbered, a sector has one of them registered or none, and every handle
refers to the entry it was given out for, wherever that is registered by now. Opening looks for the registered entry
or makes one, a further handle refers to the entry of the first, the end of a handle counts in its own entry, and the
end of the last one takes the registration away. A handle that is dropped cannot be used any more, but counts.

In a sound roll the handles of a sector that are not closed refer to the entry that is registered there, and that
entry counts them (`Roll.Sound`). Every operation keeps a roll sound, and is the registry's on the function that the
roll is (`Roll.opened`).

## Contents
- `Share`, `Roll` and its operations.
- `Roll.Sound`, and what each operation makes of it.
- `Roll.opened`, and what it is after each operation.
-/

namespace InodeStore

/-! ## Handles by reference -/

/-- What has become of a handle. -/
inductive Fate where
  /-- It can be used. -/
  | held
  /-- It was lost without being closed. -/
  | dropped
  /-- It was closed. -/
  | closed
  deriving DecidableEq, Repr

/-- A handle as it was given out. -/
structure Share where
  /-- The sector of the descriptor. -/
  sector : SectorId
  /-- The number of the entry that it refers to. -/
  entry : Nat
  fate : Fate
  deriving DecidableEq, Repr

/-- What an operation is asked for through. -/
def Share.handle (share : Share) : Handle := ⟨share.sector⟩

/-- The handle was not closed. A dropped one was not, either. -/
def Share.Unclosed (share : Share) : Prop := share.fate ≠ .closed

instance (share : Share) : Decidable share.Unclosed := inferInstanceAs (Decidable (_ ≠ _))

/-- The open inodes by reference. -/
structure Roll where
  /-- How many entries were made. -/
  made : Nat
  /-- What the entries hold, or held when their registration was taken away. -/
  entries : Nat → OpenInode
  /-- The entry that is registered for a sector. -/
  registered : SectorId → Option Nat
  /-- The handles in the order they were given out in. -/
  shares : List Share
  /-- The handles through which a file was removed. -/
  removals : List Nat

namespace Roll

/-- Nothing was opened yet. -/
def blank : Roll := ⟨0, fun _ => .fresh, fun _ => none, [], []⟩

/-- Change what an entry holds. -/
def alter (roll : Roll) (e : Nat) (f : OpenInode → OpenInode) : Roll :=
  { roll with entries := Function.update roll.entries e (f (roll.entries e)) }

/-- Give out a handle that refers to an entry. -/
def give (roll : Roll) (s : SectorId) (e : Nat) : Roll :=
  let roll := roll.alter e fun inode => { inode with openCount := inode.openCount + 1 }
  { roll with shares := roll.shares ++ [⟨s, e, .held⟩] }

/-- Make an entry and register it. -/
def register (roll : Roll) (s : SectorId) : Roll :=
  { roll with
    made := roll.made + 1
    entries := Function.update roll.entries roll.made .fresh
    registered := Function.update roll.registered s (some roll.made) }

/-- Open the inode at a sector. -/
def openInode (roll : Roll) (s : SectorId) : Roll :=
  match roll.registered s with
  | some e => roll.give s e
  | none => (roll.register s).give s roll.made

/-- A handle comes to its end. -/
def settle (roll : Roll) (k : Nat) (share : Share) (fate : Fate) : Roll :=
  { roll with shares := roll.shares.set k { share with fate } }

/-- Close a handle. The last one takes the registration away. -/
def close (roll : Roll) (k : Nat) (share : Share) : Roll :=
  let roll := (roll.alter share.entry fun inode => { inode with openCount := inode.openCount - 1 }).settle
    k share .closed
  if 0 < (roll.entries share.entry).openCount then roll
  else { roll with registered := Function.update roll.registered share.sector none }

/-- Remove a file through a handle. -/
def remove (roll : Roll) (k : Nat) (share : Share) : Roll :=
  let roll := roll.alter share.entry fun inode => { inode with removed := true }
  { roll with removals := k :: roll.removals }

/-- A handle can be used. -/
def Holds (roll : Roll) (k : Nat) (share : Share) : Prop := roll.shares[k]? = some share ∧ share.fate = .held

/-- The handles on a sector that are not closed. -/
def holders (roll : Roll) (s : SectorId) : Nat :=
  roll.shares.countP fun share => share.sector = s ∧ share.Unclosed

/-- The file was removed through a handle that refers to an entry. -/
def Removed (roll : Roll) (e : Nat) : Prop :=
  ∃ k ∈ roll.removals, ∃ share, roll.shares[k]? = some share ∧ share.entry = e

end Roll

/-! ## Sound rolls -/

namespace Roll

variable {roll roll' : Roll} {s t : SectorId} {e k : Nat} {share : Share} {fate : Fate}
  {f : OpenInode → OpenInode}

/-- The handles that are not closed refer to what is registered for their sector, and that counts them. -/
structure Consistent (roll : Roll) : Prop where
  /-- Only entries that were made are referred to, … -/
  made : ∀ share ∈ roll.shares, share.entry < roll.made
  /-- … and registered, … -/
  below : ∀ {s e}, roll.registered s = some e → e < roll.made
  /-- … each for one sector. -/
  apart : ∀ {s t e}, roll.registered s = some e → roll.registered t = some e → s = t
  shared : ∀ share ∈ roll.shares, share.Unclosed → roll.registered share.sector = some share.entry
  counted : ∀ {s e}, roll.registered s = some e → (roll.entries e).openCount = roll.holders s
  given : ∀ k ∈ roll.removals, k < roll.shares.length
  marked : ∀ {s e}, roll.registered s = some e → ((roll.entries e).removed = true ↔ roll.Removed e)
  idle : ∀ {s e}, roll.registered s = some e → (roll.entries e).growing = false

/-- … and only entries with such a handle are registered. -/
structure Sound (roll : Roll) : Prop extends roll.Consistent where
  alive : ∀ {s e}, roll.registered s = some e → 0 < roll.holders s

theorem blank_sound : blank.Sound where
  made := nofun
  below := nofun
  apart := nofun
  shared := nofun
  counted := nofun
  given := nofun
  marked := nofun
  idle := nofun
  alive := nofun

theorem Holds.mem (h : roll.Holds k share) : share ∈ roll.shares := List.mem_of_getElem? h.1

theorem Holds.unclosed (h : roll.Holds k share) : share.Unclosed := by
  intro hclosed
  rw [h.2] at hclosed
  cases hclosed

/-- A handle that can be used refers to what is registered. -/
theorem Sound.registered (hsound : roll.Sound) (h : roll.Holds k share) :
    roll.registered share.sector = some share.entry := hsound.shared share h.mem h.unclosed

/-! ### Entries -/

theorem alter_entries (roll : Roll) (e : Nat) (f : OpenInode → OpenInode) (e' : Nat) :
    (roll.alter e f).entries e' = if e' = e then f (roll.entries e) else roll.entries e' :=
  Function.update_apply _ _ _ _

/-- Denials may change. -/
theorem Sound.alter (h : roll.Sound) (e : Nat) (hcount : ∀ inode, (f inode).openCount = inode.openCount)
    (hremoved : ∀ inode, (f inode).removed = inode.removed)
    (hidle : ∀ inode, (f inode).growing = inode.growing) : (roll.alter e f).Sound where
  made := h.made
  below := h.below
  apart := h.apart
  shared := h.shared
  given := h.given
  alive := h.alive
  counted {s e'} hreg := by
    have hsame : ((roll.alter e f).entries e').openCount = (roll.entries e').openCount := by
      rw [alter_entries]
      split
      · next he => rw [hcount, he]
      · rfl
    exact hsame.trans (h.counted hreg)
  marked {s e'} hreg := by
    have hsame : ((roll.alter e f).entries e').removed = (roll.entries e').removed := by
      rw [alter_entries]
      split
      · next he => rw [hremoved, he]
      · rfl
    rw [hsame]
    exact h.marked hreg
  idle {s e'} hreg := by
    have hsame : ((roll.alter e f).entries e').growing = (roll.entries e').growing := by
      rw [alter_entries]
      split
      · next he => rw [hidle, he]
      · rfl
    exact hsame.trans (h.idle hreg)

/-! ### Handles -/

theorem holders_give (roll : Roll) (s : SectorId) (e : Nat) (t : SectorId) :
    (roll.give s e).holders t = roll.holders t + if t = s then 1 else 0 := by
  unfold holders give
  rw [List.countP_append]
  congr 1
  by_cases ht : t = s
  · subst ht
    simp [Share.Unclosed]
  · simp [ht, Ne.symm ht]

/-- A handle that comes to its end counts until it is closed. -/
theorem holders_settle (h : roll.shares[k]? = some share) (hunclosed : share.Unclosed) (fate : Fate)
    (t : SectorId) : (roll.settle k share fate).holders t =
      roll.holders t - if t = share.sector ∧ fate = .closed then 1 else 0 := by
  obtain ⟨hk, hget⟩ := List.getElem?_eq_some_iff.mp h
  have hbefore : decide (share.sector = t ∧ share.Unclosed) = true ↔ t = share.sector := by
    rw [decide_eq_true_iff]
    exact ⟨fun h => h.1.symm, fun ht => ⟨ht.symm, hunclosed⟩⟩
  have hafter : decide (share.sector = t ∧ Share.Unclosed { share with fate }) = true ↔
      t = share.sector ∧ fate ≠ .closed := by
    rw [decide_eq_true_iff]
    exact ⟨fun h => ⟨h.1.symm, h.2⟩, fun h => ⟨h.1.symm, h.2⟩⟩
  unfold holders settle
  rw [List.countP_set hk, hget, if_congr hbefore rfl rfl, if_congr hafter rfl rfl]
  by_cases ht : t = share.sector
  · have hpos : 0 < roll.shares.countP fun share => decide (share.sector = t ∧ share.Unclosed) :=
      List.countP_pos_iff.mpr ⟨share, List.mem_of_getElem? h, hbefore.mpr ht⟩
    by_cases hfate : fate = .closed
    · rw [if_pos ht, if_neg fun h => h.2 hfate, if_pos ⟨ht, hfate⟩, Nat.add_zero]
    · rw [if_pos ht, if_pos ⟨ht, hfate⟩, if_neg fun h => hfate h.2]
      omega
  · rw [if_neg ht, if_neg fun h => ht h.1, if_neg fun h => ht h.1, Nat.add_zero]

/-- Handles given out later were not used to remove the file. -/
theorem removed_give (hgiven : ∀ k ∈ roll.removals, k < roll.shares.length) (s : SectorId) (e e' : Nat) :
    (roll.give s e).Removed e' ↔ roll.Removed e' := by
  refine exists_congr fun k => and_congr_right fun hk => ?_
  have hget : (roll.give s e).shares[k]? = roll.shares[k]? := List.getElem?_append_left (hgiven k hk)
  rw [hget]

theorem removed_settle (h : roll.shares[k]? = some share) (fate : Fate) (e : Nat) :
    (roll.settle k share fate).Removed e ↔ roll.Removed e := by
  refine exists_congr fun k' => and_congr_right fun _ => ?_
  show (∃ other, (roll.shares.set k { share with fate })[k']? = some other ∧ other.entry = e) ↔ _
  obtain ⟨hk, -⟩ := List.getElem?_eq_some_iff.mp h
  rw [List.getElem?_set]
  by_cases hk' : k = k'
  · subst hk'
    rw [if_pos rfl, if_pos hk, h]
    simp
  · rw [if_neg hk']

theorem mem_settle {other : Share} (h : roll.shares[k]? = some share)
    (hmem : other ∈ (roll.settle k share fate).shares) :
    ∃ before ∈ roll.shares, before.sector = other.sector ∧ before.entry = other.entry ∧
      (other = before ∨ other.fate = fate) := by
  rcases List.mem_or_eq_of_mem_set hmem with hmem | rfl
  · exact ⟨other, hmem, rfl, rfl, .inl rfl⟩
  · exact ⟨share, List.mem_of_getElem? h, rfl, rfl, .inr rfl⟩

/-- A handle is dropped. -/
theorem Sound.drop (hsound : roll.Sound) (h : roll.Holds k share) : (roll.settle k share .dropped).Sound := by
  have hholders : ∀ t, (roll.settle k share .dropped).holders t = roll.holders t := by
    intro t
    rw [holders_settle h.1 h.unclosed, if_neg (by simp), Nat.sub_zero]
  refine ⟨⟨?_, hsound.below, hsound.apart, ?_, ?_, ?_, ?_, hsound.idle⟩, ?_⟩
  · intro other hmem
    obtain ⟨before, hbefore, -, hentry, -⟩ := mem_settle h.1 hmem
    exact hentry ▸ hsound.made before hbefore
  · intro other hmem hunclosed
    rcases List.mem_or_eq_of_mem_set hmem with hmem | rfl
    · exact hsound.shared other hmem hunclosed
    · exact hsound.shared share h.mem h.unclosed
  · exact fun hreg => (hsound.counted hreg).trans (hholders _).symm
  · exact fun k' hk' => (hsound.given k' hk').trans_eq (List.length_set).symm
  · exact fun hreg => (hsound.marked hreg).trans (removed_settle h.1 _ _).symm
  · exact fun hreg => (hsound.alive hreg).trans_eq (hholders _).symm

/-- A further handle on an inode that is registered. -/
theorem Consistent.give (h : roll.Consistent) (hreg : roll.registered s = some e)
    (halive : ∀ {t e'}, roll.registered t = some e' → t ≠ s → 0 < roll.holders t) : (roll.give s e).Sound := by
  have hentries : ∀ e', (roll.give s e).entries e' = if e' = e then
      { roll.entries e with openCount := (roll.entries e).openCount + 1 } else roll.entries e' :=
    alter_entries roll e fun inode => { inode with openCount := inode.openCount + 1 }
  have hmem : ∀ share ∈ (roll.give s e).shares, share ∈ roll.shares ∨ share = ⟨s, e, .held⟩ := by
    intro share hshare
    rcases List.mem_append.mp hshare with hshare | hshare
    · exact .inl hshare
    · exact .inr (List.mem_singleton.mp hshare)
  refine ⟨⟨?_, h.below, h.apart, ?_, ?_, ?_, ?_, ?_⟩, ?_⟩
  · intro share hshare
    rcases hmem share hshare with hshare | rfl
    · exact h.made share hshare
    · exact h.below hreg
  · intro share hshare hunclosed
    rcases hmem share hshare with hshare | rfl
    · exact h.shared share hshare hunclosed
    · exact hreg
  · intro t e' ht
    have hcounted := h.counted ht
    rw [hentries, holders_give]
    by_cases he : e' = e
    · obtain rfl : t = s := h.apart (he ▸ ht) hreg
      rw [if_pos he, if_pos rfl, ← hcounted, he]
    · have hne : t ≠ s := fun hts => he (Option.some.inj (ht.symm.trans (hts ▸ hreg)))
      rw [if_neg he, if_neg hne, hcounted, Nat.add_zero]
  · intro k hk
    have := h.given k hk
    show k < (roll.shares ++ _).length
    rw [List.length_append]
    omega
  · intro t e' ht
    rw [hentries, removed_give h.given]
    by_cases he : e' = e
    · rw [if_pos he, ← he]
      exact h.marked ht
    · rw [if_neg he]
      exact h.marked ht
  · intro t e' ht
    rw [hentries]
    by_cases he : e' = e
    · rw [if_pos he, ← he]
      exact h.idle ht
    · rw [if_neg he]
      exact h.idle ht
  · intro t e' ht
    rw [holders_give]
    by_cases hts : t = s
    · rw [if_pos hts]
      omega
    · rw [if_neg hts]
      exact halive ht hts

/-- A new entry is registered where none is. -/
theorem Sound.register (h : roll.Sound) (hnone : roll.registered s = none) : (roll.register s).Consistent := by
  -- whatever is registered is the new entry or was registered before, and then it is another one
  have hreg : ∀ {t e}, (roll.register s).registered t = some e →
      t = s ∧ e = roll.made ∨ t ≠ s ∧ e ≠ roll.made ∧ roll.registered t = some e := by
    intro t e ht
    have ht : Function.update roll.registered s (some roll.made) t = some e := ht
    rw [Function.update_apply] at ht
    split at ht
    · next hts => exact .inl ⟨hts, (Option.some.inj ht).symm⟩
    · next hts => exact .inr ⟨hts, Nat.ne_of_lt (h.below ht), ht⟩
  have hentries : ∀ e, (roll.register s).entries e = if e = roll.made then .fresh else roll.entries e :=
    fun e => Function.update_apply _ _ _ _
  have hclosed : ∀ share ∈ roll.shares, share.Unclosed → share.sector ≠ s := by
    rintro share hmem hunclosed rfl
    cases hnone.symm.trans (h.shared share hmem hunclosed)
  refine ⟨?_, ?_, ?_, ?_, ?_, h.given, ?_, ?_⟩
  · exact fun share hmem => Nat.lt_succ_of_lt (h.made share hmem)
  · intro t e ht
    rcases hreg ht with ⟨-, rfl⟩ | ⟨-, -, ht⟩
    · exact Nat.lt_succ_self _
    · exact Nat.lt_succ_of_lt (h.below ht)
  · intro t u e ht hu
    rcases hreg ht with ⟨rfl, rfl⟩ | ⟨-, hne, ht⟩ <;> rcases hreg hu with ⟨rfl, he⟩ | ⟨-, hne', hu⟩
    · rfl
    · exact absurd rfl hne'
    · exact absurd he hne
    · exact h.apart ht hu
  · intro share hmem hunclosed
    exact (Function.update_of_ne (hclosed share hmem hunclosed) _ _).trans (h.shared share hmem hunclosed)
  · intro t e ht
    rw [hentries]
    rcases hreg ht with ⟨rfl, rfl⟩ | ⟨-, hne, ht⟩
    · rw [if_pos rfl]
      refine (List.countP_eq_zero.mpr fun share hmem hboth => ?_).symm
      obtain ⟨hs, hunclosed⟩ := of_decide_eq_true hboth
      exact hclosed share hmem hunclosed hs
    · rw [if_neg hne]
      exact h.counted ht
  · intro t e ht
    rw [hentries]
    rcases hreg ht with ⟨rfl, rfl⟩ | ⟨-, hne, ht⟩
    · rw [if_pos rfl]
      -- no handle refers to the new entry yet
      refine iff_of_false Bool.false_ne_true ?_
      rintro ⟨k, -, share, hget, hentry⟩
      exact absurd hentry (Nat.ne_of_lt (h.made share (List.mem_of_getElem? hget)))
    · rw [if_neg hne]
      exact h.marked ht
  · intro t e ht
    rw [hentries]
    rcases hreg ht with ⟨rfl, rfl⟩ | ⟨-, hne, ht⟩
    · rw [if_pos rfl]
      rfl
    · rw [if_neg hne]
      exact h.idle ht

/-- An inode is opened. -/
theorem Sound.openInode (h : roll.Sound) (s : SectorId) : (roll.openInode s).Sound := by
  unfold Roll.openInode
  split
  · next e hreg => exact h.give hreg fun ht _ => h.alive ht
  · next hnone =>
    refine (h.register hnone).give (Function.update_self _ _ _) fun {t e'} ht hts => ?_
    exact h.alive ((Function.update_of_ne hts _ _).symm.trans ht)

/-- A file is removed. -/
theorem Sound.remove (hsound : roll.Sound) (h : roll.Holds k share) : (roll.remove k share).Sound := by
  have hentries : ∀ e, (roll.remove k share).entries e = if e = share.entry then
      { roll.entries share.entry with removed := true } else roll.entries e :=
    alter_entries roll share.entry fun inode => { inode with removed := true }
  obtain ⟨hk, -⟩ := List.getElem?_eq_some_iff.mp h.1
  refine ⟨⟨hsound.made, hsound.below, hsound.apart, hsound.shared, ?_, ?_, ?_, ?_⟩, hsound.alive⟩
  · intro t e ht
    have hcounted := hsound.counted ht
    rw [hentries]
    split
    · next he => exact he ▸ hcounted
    · exact hcounted
  · intro k' hk'
    rcases List.mem_cons.mp hk' with rfl | hk'
    · exact hk
    · exact hsound.given k' hk'
  · intro t e ht
    rw [hentries]
    have hremoved : (roll.remove k share).Removed e ↔ e = share.entry ∨ roll.Removed e := by
      constructor
      · rintro ⟨k', hk', other, hget, rfl⟩
        rcases List.mem_cons.mp hk' with rfl | hk'
        · exact .inl (congrArg Share.entry (Option.some.inj (hget.symm.trans h.1)))
        · exact .inr ⟨k', hk', other, hget, rfl⟩
      · rintro (rfl | ⟨k', hk', other, hget, rfl⟩)
        · exact ⟨k, List.mem_cons_self, share, h.1, rfl⟩
        · exact ⟨k', List.mem_cons_of_mem _ hk', other, hget, rfl⟩
    rw [hremoved]
    split
    · next he => exact iff_of_true rfl (.inl he)
    · next he => exact (hsound.marked ht).trans (or_iff_right he).symm
  · intro t e ht
    have hidle := hsound.idle ht
    rw [hentries]
    split
    · next he => exact he ▸ hidle
    · exact hidle

/-- A handle that is closed is settled and not counted any more. Whether that takes the registration away is
    not to be seen elsewhere. -/
theorem close_eq (roll : Roll) (k : Nat) (share : Share) : roll.close k share =
    { (roll.alter share.entry fun inode => { inode with openCount := inode.openCount - 1 }).settle k share .closed with
      registered := (roll.close k share).registered } := by
  unfold close
  dsimp only
  split <;> rfl

theorem close_entries (roll : Roll) (k : Nat) (share : Share) (e : Nat) :
    (roll.close k share).entries e = if e = share.entry then
      { roll.entries share.entry with openCount := (roll.entries share.entry).openCount - 1 }
      else roll.entries e := by
  rw [close_eq]
  exact alter_entries roll share.entry (fun inode => { inode with openCount := inode.openCount - 1 }) e

theorem close_shares (roll : Roll) (k : Nat) (share : Share) :
    (roll.close k share).shares = (roll.settle k share .closed).shares := by
  rw [close_eq]
  rfl

theorem holders_close (h : roll.Holds k share) (t : SectorId) :
    (roll.close k share).holders t = roll.holders t - if t = share.sector then 1 else 0 := by
  have hsettle := holders_settle h.1 h.unclosed .closed t
  rw [if_congr (and_iff_left rfl) rfl rfl] at hsettle
  rw [← hsettle, holders, close_shares]
  rfl

theorem removed_close (h : roll.Holds k share) (e : Nat) : (roll.close k share).Removed e ↔ roll.Removed e := by
  rw [← removed_settle h.1 .closed e, close_eq]
  rfl

/-- The registration goes with the last handle. -/
theorem Sound.registered_close (hsound : roll.Sound) (h : roll.Holds k share) (t : SectorId) :
    (roll.close k share).registered t =
      if t = share.sector ∧ roll.holders share.sector = 1 then none else roll.registered t := by
  have halive := hsound.alive (hsound.registered h)
  have hleft : ((roll.close k share).entries share.entry).openCount = roll.holders share.sector - 1 := by
    rw [close_entries, if_pos rfl, ← hsound.counted (hsound.registered h)]
  rw [close_eq] at hleft
  unfold Roll.close
  dsimp only
  split
  · next hmore =>
    have hmore : 0 < roll.holders share.sector - 1 := Nat.lt_of_lt_of_eq hmore hleft
    rw [if_neg fun hboth => by omega]
    rfl
  · next hnone =>
    have hnone : ¬ 0 < roll.holders share.sector - 1 := fun hmore => hnone (Nat.lt_of_lt_of_eq hmore hleft.symm)
    rw [if_congr (and_iff_left (by omega)) rfl rfl]
    exact Function.update_apply _ _ _ _

/-- What is still registered was registered before, and has other handles. -/
theorem Sound.of_registered_close (hsound : roll.Sound) (h : roll.Holds k share)
    (ht : (roll.close k share).registered t = some e) :
    roll.registered t = some e ∧ 0 < (roll.close k share).holders t := by
  rw [hsound.registered_close h] at ht
  split at ht
  · cases ht
  · next hnot =>
    have := hsound.alive ht
    refine ⟨ht, ?_⟩
    rw [holders_close h]
    by_cases hts : t = share.sector
    · have hmany : roll.holders share.sector ≠ 1 := fun hlast => hnot ⟨hts, hlast⟩
      rw [if_pos hts]
      subst hts
      omega
    · rwa [if_neg hts]

/-- A handle is closed. -/
theorem Sound.close (hsound : roll.Sound) (h : roll.Holds k share) : (roll.close k share).Sound := by
  have hbefore {t e} (ht : (roll.close k share).registered t = some e) : roll.registered t = some e :=
    (hsound.of_registered_close h ht).1
  have hother : ∀ {t e}, (roll.close k share).registered t = some e → (t = share.sector ↔ e = share.entry) := by
    intro t e ht
    have hreg := hsound.registered h
    exact ⟨fun hts => Option.some.inj ((hbefore ht).symm.trans (hts ▸ hreg)),
      fun he => hsound.apart (hbefore ht) (he ▸ hreg)⟩
  have hmade : (roll.close k share).made = roll.made := by
    rw [close_eq]
    rfl
  refine ⟨⟨?_, ?_, ?_, ?_, ?_, ?_, ?_, ?_⟩, fun ht => (hsound.of_registered_close h ht).2⟩
  · intro other hmem
    rw [close_shares] at hmem
    obtain ⟨before, hmem, -, hentry, -⟩ := mem_settle h.1 hmem
    rw [hmade, ← hentry]
    exact hsound.made before hmem
  · intro t e ht
    rw [hmade]
    exact hsound.below (hbefore ht)
  · exact fun ht hu => hsound.apart (hbefore ht) (hbefore hu)
  · intro other hmem hunclosed
    rw [close_shares] at hmem
    have hcounts : 0 < (roll.close k share).holders other.sector := by
      unfold holders
      rw [close_shares]
      exact List.countP_pos_iff.mpr ⟨other, hmem, decide_eq_true ⟨rfl, hunclosed⟩⟩
    rw [holders_close h] at hcounts
    rcases List.mem_or_eq_of_mem_set hmem with hmem | rfl
    · rw [hsound.registered_close h, if_neg ?_]
      · exact hsound.shared other hmem hunclosed
      · rintro ⟨hs, hlast⟩
        rw [if_pos hs, hs, hlast] at hcounts
        exact absurd hcounts (by decide)
    · exact absurd rfl hunclosed
  · intro t e ht
    have hcounted := hsound.counted (hbefore ht)
    rw [close_entries, holders_close h, if_congr (hother ht) rfl rfl]
    by_cases he : e = share.entry
    · rw [if_pos he, if_pos he, ← hcounted, he]
    · rw [if_neg he, if_neg he, hcounted, Nat.sub_zero]
  · intro k' hk'
    have hremovals : (roll.close k share).removals = roll.removals := by
      rw [close_eq]
      rfl
    rw [close_shares]
    exact (hsound.given k' (hremovals ▸ hk')).trans_eq (List.length_set).symm
  · intro t e ht
    have hmarked := hsound.marked (hbefore ht)
    rw [close_entries, removed_close h]
    split
    · next he => exact he ▸ hmarked
    · exact hmarked
  · intro t e ht
    have hidle := hsound.idle (hbefore ht)
    rw [close_entries]
    split
    · next he => exact he ▸ hidle
    · exact hidle

/-! ## Rolls and registries -/

/-- The registry that a roll is. -/
def opened (roll : Roll) (s : SectorId) : Option OpenInode := (roll.registered s).map roll.entries

theorem opened_of_registered (h : roll.registered s = some e) : roll.opened s = some (roll.entries e) := by
  rw [opened, h]
  rfl

theorem opened_of_unregistered (h : roll.registered s = none) : roll.opened s = none := by
  rw [opened, h]
  rfl

/-- The registry with what a registered entry holds changed. -/
theorem opened_alter (hapart : ∀ {t}, roll.registered t = some e → t = s) (hreg : roll.registered s = some e)
    (f : OpenInode → OpenInode) :
    (roll.alter e f).opened = Function.update roll.opened s (some (f ((roll.opened s).getD .fresh))) := by
  funext t
  rw [Function.update_apply, opened_of_registered hreg, Option.getD_some]
  by_cases ht : t = s
  · rw [if_pos ht, ht]
    have hsame : (roll.alter e f).registered s = some e := hreg
    rw [opened_of_registered hsame, alter_entries, if_pos rfl]
  · rw [if_neg ht]
    cases hother : roll.registered t with
    | none =>
      have hsame : (roll.alter e f).registered t = none := hother
      rw [opened_of_unregistered hsame, opened_of_unregistered hother]
    | some e' =>
      have hsame : (roll.alter e f).registered t = some e' := hother
      have hne : e' ≠ e := fun he => ht (hapart (he ▸ hother))
      rw [opened_of_registered hsame, opened_of_registered hother, alter_entries, if_neg hne]

/-- A new entry is registered. -/
theorem Sound.opened_register (hsound : roll.Sound) (s : SectorId) :
    (roll.register s).opened = Function.update roll.opened s (some .fresh) := by
  funext t
  rw [Function.update_apply]
  by_cases ht : t = s
  · have hnew : (roll.register s).registered t = some roll.made := by
      rw [ht]
      exact Function.update_self _ _ _
    rw [if_pos ht, opened_of_registered hnew]
    exact congrArg some (Function.update_self _ _ _)
  · have hsame : (roll.register s).registered t = roll.registered t := Function.update_of_ne ht _ _
    rw [if_neg ht]
    cases hother : roll.registered t with
    | none => rw [opened_of_unregistered (hsame.trans hother), opened_of_unregistered hother]
    | some e =>
      rw [opened_of_registered (hsame.trans hother), opened_of_registered hother]
      exact congrArg some (Function.update_of_ne (Nat.ne_of_lt (hsound.below hother)) _ _)

/-- Opening an inode counts one handle more, in a fresh entry if there is none. -/
theorem Sound.opened_openInode (hsound : roll.Sound) (s : SectorId) : (roll.openInode s).opened =
    Function.update roll.opened s
      (some { (roll.opened s).getD .fresh with openCount := ((roll.opened s).getD .fresh).openCount + 1 }) := by
  let more : OpenInode → OpenInode := fun inode => { inode with openCount := inode.openCount + 1 }
  unfold Roll.openInode
  split
  · next e hreg => exact opened_alter (fun ht => hsound.apart ht hreg) hreg more
  · next hnone =>
    have hnew : (roll.register s).registered s = some roll.made := Function.update_self _ _ _
    have hmore := opened_alter (fun ht => (hsound.register hnone).apart ht hnew) hnew more
    rw [hsound.opened_register s, Function.update_idem, Function.update_self] at hmore
    rw [opened_of_unregistered hnone]
    exact hmore

/-- Closing a handle counts one less, or takes the entry away. -/
theorem Sound.opened_close (hsound : roll.Sound) (h : roll.Holds k share) :
    (roll.close k share).opened = Function.update roll.opened share.sector
      (if 1 < (roll.entries share.entry).openCount then
        some { roll.entries share.entry with openCount := (roll.entries share.entry).openCount - 1 }
      else none) := by
  have hreg := hsound.registered h
  have halive := hsound.alive hreg
  funext t
  rw [Function.update_apply, opened, hsound.registered_close h, hsound.counted hreg]
  by_cases ht : t = share.sector
  · rw [if_pos ht]
    by_cases hlast : roll.holders share.sector = 1
    · rw [if_pos ⟨ht, hlast⟩, if_neg (by omega)]
      rfl
    · rw [if_neg fun hboth => hlast hboth.2, if_pos (by omega), ht, hreg, Option.map_some, close_entries,
        if_pos rfl, hsound.counted hreg]
  · rw [if_neg ht, if_neg fun hboth => ht hboth.1, opened]
    cases hother : roll.registered t with
    | none => rfl
    | some e =>
      have hne : e ≠ share.entry := fun he => ht (hsound.apart hother (he ▸ hreg))
      rw [Option.map_some, Option.map_some, close_entries, if_neg hne]

end Roll

end InodeStore
