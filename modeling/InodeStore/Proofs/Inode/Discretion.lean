import InodeStore.Proofs.Inode.Looking
import InodeStore.Proofs.Inode.Making
import InodeStore.Proofs.Session.Ledger

/-!
# `Proofs.Inode.Discretion` — the routines of a file look at known blocks only

Reading only looks (`read_looks`, `ownedSectors_looks`, …), and writing fills every sector that it takes
(`write_fills`), so these routines are informed where every taken sector is known. Two routines need more
to be said. The sector of a new file's descriptor is taken first and filled last, but no block is looked at
before that apart from the new file's own (`create_learns`, `createAt_informed`). And the last close of a
removed file looks at index blocks that are not taken any more (`close_learns`).
-/

namespace InodeStore.Inode

open Routine

variable {d : Descriptor} {handle : Handle} {place : Position}

/-! ## Reading -/

theorem load_looks (x : SectorId) : (load x).Only Call.IsView := by
  refine (Only.view x).bind fun block => ?_
  dsimp only
  split
  · trivial
  · split <;> trivial

theorem follow_looks : (follow d place).Only Call.IsView := by
  cases place with
  | direct slot => trivial
  | indirect slot => exact (Only.view _).bind fun _ => trivial
  | doubly outer inner => exact (Only.view _).bind fun _ => (Only.view _).bind fun _ => trivial

theorem readSpans_looks (l : List Span) (parts : List Bytes) : (readSpans d parts l).Only Call.IsView := by
  induction l generalizing parts with
  | nil => trivial
  | cons span rest ih =>
    unfold readSpans
    split
    · trivial
    · exact follow_looks.bind fun s => (Only.view s).bind fun block => ih _

theorem read_looks (offset count : Nat) : (read handle offset count).Only Call.IsView :=
  (load_looks _).bind fun _ => readSpans_looks _ _

theorem length_looks : (length handle).Only Call.IsView := (load_looks _).bind fun _ => trivial

theorem isDir_looks : (isDir handle).Only Call.IsView := (load_looks _).bind fun _ => trivial

theorem sectorOfByte_looks (offset : Nat) : (sectorOfByte handle offset).Only Call.IsView := by
  refine (load_looks _).bind fun d => ?_
  unfold sectorAt
  split
  · exact follow_looks
  · trivial

/-- A walk makes the calls of its visitor, and views index blocks. -/
theorem visitBlock_only {β : Type} {P : Call → Prop} (hview : ∀ s, P (.view s))
    {visit : β → SectorId → Routine β} (h : ∀ a s, (visit a s).Only P) (walk : Walk β) :
    (visitBlock visit d walk place).Only P := by
  have hlast : ∀ (walk : Walk β) s, (visit walk.state s >>= fun state =>
      (pure { walk with state } : Routine (Walk β))).Only P := fun _ _ => (h _ _).bind fun _ => trivial
  have hindex : ∀ {c : Prop} [Decidable c] (take : β → Block → Walk β) (walk : Walk β) (s : SectorId),
      (if c then visit walk.state s >>= fun state => view s >>= fun block => pure (take state block)
        else pure walk : Routine (Walk β)).Only P := by
    intro c _ take walk s
    split
    · exact (h _ _).bind fun _ => (Only.perform (hview s)).bind fun _ => trivial
    · trivial
  cases place with
  | direct slot => exact hlast walk _
  | indirect slot =>
    rw [visitBlock_indirect]
    exact (hindex (fun state index => { walk with state, index }) walk _).bind fun walk => hlast walk _
  | doubly outer inner =>
    rw [visitBlock_doubly]
    exact (hindex (fun state outerIndex => { walk with state, outerIndex }) walk _).bind fun walk =>
      (hindex (fun state index => { walk with state, index }) walk _).bind fun walk => hlast walk _

theorem visitOwned_only {β : Type} {P : Call → Prop} (hview : ∀ s, P (.view s))
    {visit : β → SectorId → Routine β} (h : ∀ a s, (visit a s).Only P) (state : β) :
    (visitOwned visit state d).Only P := by
  have hwalk : ∀ (count k : Nat) (walk : Walk β), (visitFrom visit d k walk count).Only P := by
    intro count
    induction count with
    | zero => exact fun _ _ => trivial
    | succ count ih =>
      intro k walk
      rw [visitFrom]
      split
      · trivial
      · exact (visitBlock_only hview h walk).bind fun walk => ih _ walk
  exact hwalk _ _ _

theorem ownedSectors_looks (x : SectorId) : (ownedSectors x).Only Call.IsView := by
  have hvisit : ∀ (visited : List SectorId) (s : SectorId),
      (return s :: visited : Routine (List SectorId)).Only Call.IsView := fun _ _ => trivial
  exact (load_looks x).bind fun _ => (visitOwned_only (fun s => ⟨s, rfl⟩) hvisit []).bind fun _ => trivial

/-! ## Writing -/

theorem takeZeroed_fills : takeZeroed.Fills none := by
  refine ⟨nofun, rfl, ?_⟩
  intro answer
  match answer with
  | .error e => rfl
  | .ok (.error e) => rfl
  | .ok (.ok s) =>
    -- the sector is due, and it is stored at once
    refine ⟨fun t ht => ⟨Block.zero, ?_⟩, rfl, ?_⟩
    · rw [Option.some.inj ht]
    · intro answer
      cases answer <;> rfl

theorem attach_fills : (attach d place).Fills none := by
  have hupdate : ∀ (s : SectorId) (change : Block → Block), (update s change).Fills none :=
    fun s change => Fills.perform (c := .update s change) rfl
  cases place with
  | direct slot => exact takeZeroed_fills.bind fun _ => rfl
  | indirect slot =>
    rw [attach_indirect]
    refine Fills.bind ?_ fun d => takeZeroed_fills.bind fun _ => (hupdate _ _).bind fun _ => rfl
    split
    · exact takeZeroed_fills.bind fun _ => rfl
    · rfl
  | doubly outer inner =>
    rw [attach_doubly]
    refine Fills.bind ?_ fun d => Fills.bind ?_ fun _ => takeZeroed_fills.bind fun _ =>
      (hupdate _ _).bind fun _ => rfl
    · split
      · exact takeZeroed_fills.bind fun _ => rfl
      · rfl
    · split
      · exact takeZeroed_fills.bind fun _ => (hupdate _ _).bind fun _ => rfl
      · exact (Only.view _).fills_of_view.bind fun _ => rfl

theorem growFrom_fills (k count : Nat) : (growFrom k d count).Fills none := by
  induction count generalizing k d with
  | zero => rfl
  | succ count ih =>
    unfold growFrom
    split
    · rfl
    · exact attach_fills.bind fun _ => ih _

theorem grow_fills (length : Nat) : (grow d length).Fills none := by
  unfold grow
  split
  · rfl
  · exact (growFrom_fills _ _).bind fun _ => rfl

theorem extend_fills (x : SectorId) (length : Nat) : (extend x d length).Fills none := by
  have hbody : (do let grown ← grow d length; save x grown; return grown : Routine Descriptor).Fills none :=
    (grow_fills length).bind fun grown => (Fills.perform (c := .store x grown.encode) rfl).bind fun _ => rfl
  exact (hbody.reservingFrom []).bind fun _ => (Fills.perform (c := .emit _) rfl).bind fun _ => rfl

theorem writeSpans_fills (offset : Nat) (bytes : Bytes) (l : List Span) (written : Nat) :
    (writeSpans d offset bytes written l).Fills none := by
  induction l generalizing written with
  | nil => rfl
  | cons span rest ih =>
    unfold writeSpans
    split
    · rfl
    · refine follow_looks.fills_of_view.bind fun s => ?_
      dsimp only
      split
      · exact (Fills.perform (c := .store s _) rfl).bind fun _ => ih _
      · exact (Fills.perform (c := .update s _) rfl).bind fun _ => ih _

theorem write_fills (offset : Nat) (bytes : Bytes) : (write handle offset bytes).Fills none := by
  have hload : (load handle.sector).Fills none := (load_looks _).fills_of_view
  have hinside : ∀ d, (writeInside d offset bytes).Fills none := fun d => writeSpans_fills _ _ _ _
  refine (Fills.perform (c := .isDenied handle) rfl).bind fun denied => ?_
  split
  · exact (Fills.perform (c := .emit _) rfl).bind fun _ => rfl
  split
  · rfl
  dsimp only
  split
  · rfl
  refine hload.bind fun d => ?_
  split
  · exact hinside d
  · refine Fills.exclusively (hload.bind fun d => ?_)
    split
    · exact (extend_fills _ _).bind fun d => hinside d
    · exact hinside d

/-! ## Giving back -/

theorem giveBack_fills (x : SectorId) : (giveBack x d).Fills none := by
  have hrelease : ∀ (count : Nat) (s : SectorId),
      (do release s; return count + 1 : Routine Nat).Only (Call.isQuiet · = true) :=
    fun count s => ⟨rfl, fun answer => by cases answer <;> trivial⟩
  refine Fills.bind ((visitOwned_only (fun _ => rfl) hrelease 0).fills fun _ hc => hc) fun count => ?_
  exact (Fills.perform (c := .release x) rfl).bind fun _ => Fills.perform (c := .emit _) rfl

theorem releaseInode_viewsReleased (x : SectorId) : (releaseInode x).ViewsReleased (some x) := by
  have hview : (view x).ViewsReleased (some x) :=
    ⟨fun s hs => hs, fun answer => by cases answer <;> trivial⟩
  have hload : (load x).ViewsReleased (some x) := by
    refine hview.bind fun block released => ?_
    dsimp only
    split
    · trivial
    · split <;> trivial
  exact hload.bind fun d released => giveBack_viewsReleased released

/-- **The end of a handle** looks at blocks that were known when the file was there. -/
theorem close_learns {guarded : Bool} {p p' : Plain} {ending : Except Halt Unit} {known : SectorId → Prop}
    (h : Runs guarded (close handle) p ending p') (hx : known handle.sector)
    (hknown : ∀ t, p.Permits true t → known t) :
    Learns guarded known (close handle) p ending p' := by
  have hviews : (closeHandle handle).ViewsReleased none :=
    ⟨nofun, fun answer => by cases answer <;> trivial⟩
  have hclose : ∀ {ending p₁}, Runs guarded (closeHandle handle) p ending p₁ →
      Learns guarded known (closeHandle handle) p ending p₁ := fun h =>
    h.learns_viewsReleased (Fills.perform (c := .close handle) rfl) hviews nofun hknown
  rcases h.of_bind with ⟨cause, rfl, hhalt⟩ | ⟨last, p₁, hfirst, hrest⟩
  · exact (hclose hhalt).bind_halt
  · refine (hclose hfirst).bind ?_
    cases last with
    | false =>
      cases hrest
      exact Learns.pure ()
    | true =>
      have hgive : (releaseInode handle.sector).Fills none :=
        (load_looks _).fills_of_view.bind fun _ => giveBack_fills _
      refine hrest.learns_viewsReleased hgive (releaseInode_viewsReleased _) ?_
        (learned_taken hfirst.count_eq hknown)
      intro s hs
      obtain rfl := Option.some.inj hs
      exact .inl hx

/-! ## New files -/

section Create

variable {p p' : Plain} {x : SectorId} {length : Nat} {isDir : Bool} {known : SectorId → Prop}

/-- **A new file** looks at no block but those that it has taken. -/
theorem grow_empty_learns {ending : Except Halt Descriptor} (hmap : p.freeMap.Lawful)
    (hfits : p.freeMap.sectors ≤ p.count) (hrun : Runs true (grow (.empty isDir) length) p ending p') :
    Learns true known (grow (.empty isDir) length) p ending p' := by
  by_cases hlong : maxFileSize < length
  · obtain ⟨rfl, rfl⟩ := (grow_refused hlong).unique hrun
    unfold grow
    rw [if_pos hlong]
    exact .halt fun _ => learned_of_same rfl
  · obtain ⟨ending', p₁, hg⟩ :=
      exists_grows p (.empty isDir) (spotsBetween (Descriptor.empty isDir).size length)
    have hhung : Hung p (.empty isDir) (spots (dataBlocks (Descriptor.empty isDir).size)) := by
      rw [spots_empty]
      exact ⟨hmap, hfits, nofun, List.nodup_nil, nofun, nofun⟩
    have hlearns : Learns true known (grow (.empty isDir) length) p _ p₁ :=
      grow_learns hhung (Nat.zero_le _) (Nat.le_of_not_lt hlong) (by rw [spots_empty]; exact nofun) hg
    obtain ⟨rfl, rfl⟩ := hlearns.runs.unique hrun
    exact hlearns

/-- What is known of a new file at `x`, if it is made. -/
def KnownAfter {α : Type} (known : SectorId → Prop) (x : SectorId) (p p' : Plain) :
    Except Halt α → SectorId → Prop
  | .ok _, t => t = x ∨ learned known p p' t
  | .error _, t => known t

theorem build_informed {ending : Except Halt Unit} (hmap : p.freeMap.Lawful)
    (hfits : p.freeMap.sectors ≤ p.count) (hrun : Runs true (build x length isDir) p ending p') :
    Informed true known (build x length isDir) p ending p' (KnownAfter known x p p' ending) := by
  rcases hrun.of_bind with ⟨cause, rfl, hhalt⟩ | ⟨grown, p₁, hgrow, hsave⟩
  · exact (grow_empty_learns hmap hfits hhalt).bind_halt.narrow fun _ ht => .inl ht
  · refine Informed.bind (grow_empty_learns hmap hfits hgrow) ?_
    cases hsave with
    | call hanswer hnext =>
      cases hanswer with
      | store hpermits =>
        cases hnext
        exact Informed.perform nofun (.store hpermits)

/-- A new file at a sector that was reserved. -/
theorem createAt_informed {ending : Except Halt Unit} (hmap : p.freeMap.Lawful)
    (hfits : p.freeMap.sectors ≤ p.count) (hrun : Runs true (createAt x length isDir) p ending p') :
    Informed true known (createAt x length isDir) p ending p' (KnownAfter known x p p' ending) := by
  rcases hrun.of_bind with ⟨cause, rfl, hhalt⟩ | ⟨⟨⟨⟩, count⟩, p₁, hreserve, hemit⟩
  · obtain ⟨ending, p₁, hbuild, -⟩ := hhalt.of_reservingFrom
    refine ((build_informed hmap hfits hbuild).reservingFrom hhalt).bind_halt.narrow fun t ht => ?_
    cases ending with
    | ok _ => exact .inr (.inl ht)
    | error _ => exact ht
  · obtain ⟨ending', p₂, hbuild, hdone⟩ := hreserve.of_reservingFrom
    obtain ⟨rfl, rfl⟩ := hdone _ _ rfl
    refine ((build_informed hmap hfits hbuild).reservingFrom hreserve).bind ?_
    cases hemit with
    | call hanswer hnext =>
      cases hanswer
      cases hnext
      exact Informed.perform nofun .emit

/-- A sector is taken for the descriptor before the file is made. -/
theorem allocated (hmap : p.freeMap.Lawful) (hrun : Runs true allocate p (.ok x) p') :
    p.freeMap.nextFree? = some x ∧ p' = reserved p x := by
  cases hnext : p.freeMap.nextFree? with
  | none =>
    have hexhausted : Runs true allocate p _ p := .allocate_exhausted hnext
    cases (hexhausted.unique hrun).1
  | some y =>
    have hallocate : Runs true allocate p _ _ := .allocate hmap hnext
    obtain ⟨hx, rfl⟩ := hallocate.unique hrun
    cases hx
    exact ⟨rfl, rfl⟩

/-- **A new file** at the sector that is taken next. -/
theorem create_learns {ending : Except Halt SectorId} (hmap : p.freeMap.Lawful)
    (hfits : p.freeMap.sectors ≤ p.count) (hrun : Runs true (create length isDir) p ending p') :
    Learns true known (create length isDir) p ending p' := by
  have hbody : ∀ {ending p'},
      Runs true (do let sector ← allocate; build sector length isDir; return sector) p ending p' →
      Informed true known (do let sector ← allocate; build sector length isDir; return sector) p ending p'
        (match ending with | .ok _ => learned known p p' | .error _ => known) := by
    intro ending p' hrun
    rcases hrun.of_bind with ⟨cause, rfl, hhalt⟩ | ⟨x, p₁, hfirst, hrest⟩
    · exact (hhalt.informed_of_blind allocate_blind).bind_halt
    · have hallocate : Informed true known allocate p (.ok x) p₁ known :=
        hfirst.informed_of_blind allocate_blind
      obtain ⟨hx, rfl⟩ := allocated hmap hfirst
      have hmap' : (reserved p x).freeMap.Lawful :=
        hmap.assign (hmap.lt_sectors (hmap.nextFree?_free hx)) true
      have hfits' : (reserved p x).freeMap.sectors ≤ (reserved p x).count := hfits
      refine hallocate.bind ?_
      rcases hrest.of_bind with ⟨cause, rfl, hhalt⟩ | ⟨⟨⟩, p₂, hbuild, hpure⟩
      · exact (build_informed hmap' hfits' hhalt).bind_halt
      · cases hpure
        refine (build_informed hmap' hfits' hbuild).bind (.done ?_)
        -- what was taken is the descriptor's sector or was taken after that
        intro t ht
        rcases ht with ht | ⟨hfree, htaken⟩
        · exact .inr (.inl ht)
        · by_cases he : t = x
          · exact .inl he
          · refine .inr (.inr ⟨?_, htaken⟩)
            rw [taken_reserved hmap hx, hfree, decide_eq_false he]
            rfl
  rcases hrun.of_bind with ⟨cause, rfl, hhalt⟩ | ⟨⟨x, count⟩, p₁, hreserve, hemit⟩
  · obtain ⟨ending, p₂, hfirst, -⟩ := hhalt.of_reservingFrom
    refine ((hbody hfirst).reservingFrom hhalt).bind_halt.narrow fun t ht => ?_
    -- the free map is as it was
    have hsame : p'.freeMap = p.freeMap := by
      cases hclaim : claimNew p.freeMap length with
      | error e =>
        obtain ⟨p₃, hrefused, hunharmed⟩ : ∃ p₃, Runs true (create length isDir) p _ p₃ ∧ _ :=
          create_refused hmap hfits hclaim
        obtain ⟨-, rfl⟩ := hrefused.unique hrun
        exact hunharmed.freeMap
      | ok claimed =>
        obtain ⟨p₃, d, hdone, -⟩ : ∃ p₃ d, Runs true (create length isDir) p _ p₃ ∧ _ :=
          create_runs hmap hfits hclaim
        cases (hdone.unique hrun).1
    have hknown := learned_of_same hsame ht
    cases ending with
    | ok _ => exact .inl hknown
    | error _ => exact hknown
  · obtain ⟨ending', p₂, hfirst, hdone⟩ := hreserve.of_reservingFrom
    obtain ⟨rfl, rfl⟩ := hdone _ _ rfl
    refine Informed.bind ((hbody hfirst).reservingFrom hreserve) ?_
    cases hemit with
    | call hanswer hnext =>
      cases hanswer
      cases hnext
      exact (Informed.perform nofun .emit).bind (Informed.pure x)

end Create

end InodeStore.Inode
