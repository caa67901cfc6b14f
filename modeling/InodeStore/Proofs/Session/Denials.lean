import InodeStore.Proofs.Session.Holders

/-!
# `Proofs.Session.Denials` — denials of writing and the handles they are made through

No more parties may deny writing to a file than have it open. That is looked at when writing is denied, and only
then: a close takes a handle away and leaves the denials that there are. So an inode is denied no more often than it
is open (`Registry.Bounded`) as long as no close takes away one of just as many handles as there are denials
(`Registry.Strands`), and what such a close leaves is denied more often than open (`denials_bounded`). Whoever has the
file open then cannot write to it, even after taking back a denial of his own (`stranded_denied`).
-/

namespace InodeStore

/-! ## One operation -/

namespace Registry

variable {registry : Registry} {s : SectorId} {inode : OpenInode} {handle : Handle}

/-- No inode is denied more often than it is open. -/
def Bounded (registry : Registry) : Prop :=
  ∀ s inode, registry.find? s = some inode → inode.denyCount ≤ inode.openCount

/-- A close that takes away one handle of several, of which there are no more than denials. -/
def Strands (registry : Registry) (o : Operation) : Prop :=
  ∃ handle, o = .close handle ∧ 1 < registry.openCount handle ∧
    registry.openCount handle ≤ (registry.entry handle).denyCount

theorem empty_bounded : Bounded .empty := nofun

theorem Bounded.entry (h : registry.Bounded) (handle : Handle) :
    (registry.entry handle).denyCount ≤ (registry.entry handle).openCount := by
  unfold Registry.entry
  cases hfind : registry.find? handle.sector with
  | none => exact Nat.le_refl 0
  | some inode => exact h _ _ hfind

/-- A change of one entry has to keep that one bounded. -/
theorem Bounded.set_iff (h : registry.Bounded) :
    (registry.set s inode).Bounded ↔ inode.denyCount ≤ inode.openCount := by
  constructor
  · intro hset
    exact hset s inode ((find?_set registry s inode s).trans (if_pos rfl))
  · intro hinode t other hfind
    rw [find?_set] at hfind
    split at hfind
    · cases hfind
      exact hinode
    · exact h t other hfind

theorem Bounded.erase (h : registry.Bounded) (s : SectorId) : (registry.erase s).Bounded := by
  intro t other hfind
  rw [find?_erase] at hfind
  split at hfind
  · cases hfind
  · exact h t other hfind

/-- A close keeps every inode bounded unless it strands denials. -/
theorem Bounded.close_iff (h : registry.Bounded) (handle : Handle) :
    (Registry.close handle registry).state.Bounded ↔ ¬ registry.Strands (.close handle) := by
  have hstrands : registry.Strands (.close handle) ↔ 1 < (registry.entry handle).openCount ∧
      (registry.entry handle).openCount ≤ (registry.entry handle).denyCount := by
    constructor
    · rintro ⟨other, hclose, hboth⟩
      obtain rfl : handle = other := Operation.close.inj hclose
      exact hboth
    · exact fun hboth => ⟨handle, rfl, hboth⟩
  rw [hstrands]
  unfold Registry.close
  dsimp only
  split
  · next hmany =>
    rw [h.set_iff]
    dsimp only
    omega
  · next hlast => exact iff_of_true (h.erase _) fun hboth => hlast hboth.1

end Registry

section Operations

variable {δ : Type} {n : Nat} [BlockDevice δ] {store store' : Store δ n} {o : Operation}
  {answer : Except Error o.Answer} {log : List Event}

/-- **One operation** on the open inodes keeps every inode bounded unless it is a close that strands denials. -/
theorem Operation.bounded_iff (hturns : o.turns = true) (h : store.registry.Bounded)
    (hrun : o.run store = ⟨.ok answer, store', log⟩) :
    store'.registry.Bounded ↔ ¬ store.registry.Strands o := by
  have hasked {action} (haction : o.asks? = some action) := Operation.asked_ok haction hrun
  -- every operation but a close strands nothing
  have hkept : (∀ handle, o ≠ .close handle) → store'.registry.Bounded →
      (store'.registry.Bounded ↔ ¬ store.registry.Strands o) := fun hother hbounded =>
    iff_of_true hbounded fun ⟨handle, hclose, _⟩ => hother handle hclose
  cases o with
  | openInode s =>
    refine hkept nofun ?_
    rw [← (hasked rfl).2.1]
    exact h.set_iff.mpr (Nat.le_succ_of_le (h.entry ⟨s⟩))
  | reopen handle =>
    refine hkept nofun ?_
    rw [← (hasked rfl).2.1]
    exact h.set_iff.mpr (Nat.le_succ_of_le (h.entry handle))
  | close handle =>
    rw [Inode.close_ok hrun]
    exact h.close_iff handle
  | drop handle =>
    refine hkept nofun ?_
    rw [← (hasked rfl).2.1]
    exact h
  | remove handle =>
    refine hkept nofun ?_
    rw [← (hasked rfl).2.1]
    exact h.set_iff.mpr (h.entry handle)
  | denyWrite handle =>
    refine hkept nofun ?_
    -- more denials than handles are a fault
    obtain ⟨hresult, hstate, -⟩ := hasked rfl
    rw [← hstate]
    have hentry : (store.registry.change handle
        fun inode => { inode with denyCount := inode.denyCount + 1 }).entry handle =
        { store.registry.entry handle with denyCount := (store.registry.entry handle).denyCount + 1 } :=
      congrArg (Option.getD · _) ((Registry.find?_set _ _ _ _).trans (if_pos rfl))
    unfold Registry.denyWrite at hresult
    dsimp only at hresult
    rw [hentry] at hresult
    split at hresult
    · next hroom => exact h.set_iff.mpr hroom
    · cases hresult
  | allowWrite handle =>
    refine hkept nofun ?_
    obtain ⟨hresult, hstate, -⟩ := hasked rfl
    rw [← hstate, Registry.allowWrite_ok hresult]
    exact h.set_iff.mpr ((Nat.sub_le _ _).trans (h.entry handle))
  | _ => cases hturns

end Operations

/-! ## All operations -/

section Stores

variable {δ : Type} {n : Nat} [BlockDevice δ] {store store' : Store δ n} {roll roll' : Roll}
  {permitted : Store δ n → Operation → Prop}

theorem Roll.Turn.turns {o : Operation} (h : roll.Turn o roll') : o.turns = true := by
  cases h <;> rfl

/-- **Denials stay within the handles** of every inode as long as no close strands any; and a close that does leaves
    an inode that is denied more often than it is open, while every other operation on the open inodes leaves all of
    them bounded. The induction is on how the store was got to. -/
theorem denials_bounded (h : Tracked permitted store roll) :
    ((∀ store o, permitted store o → ¬ store.registry.Strands o) → store.registry.Bounded) ∧
      (store.registry.Bounded → ∀ {o : Operation} {roll' : Roll} {store' : Store δ n}
        {answer : Except Error o.Answer} {log : List Event}, roll.Turn o roll' →
        o.run store = ⟨.ok answer, store', log⟩ → (store'.registry.Bounded ↔ ¬ store.registry.Strands o)) := by
  refine ⟨fun hconsiderate => ?_, fun hbounded _ _ _ _ _ hturn hrun =>
    Operation.bounded_iff hturn.turns hbounded hrun⟩
  induction h with
  | start cache map => exact Registry.empty_bounded
  | turn _ hpermitted hturn hrun ih =>
    exact (Operation.bounded_iff hturn.turns ih hrun).mpr (hconsiderate _ _ hpermitted)
  | aside h haside hheld hrun ih =>
    -- any other operation leaves every entry as it is
    have hlists := h.sound.2
    have hlists' := (h.aside haside hheld hrun).sound.2
    intro s inode hfind
    exact ih s inode (((hlists.same hlists').1 s).symm.trans hfind)

end Stores

/-! ## Denials that outlive a handle -/

/-- A file with two handles, through each of them a denial, … -/
def halfDenied : Store RamDisk 1 := ((Operation.denyWrite ⟨0⟩).run sharedStore).state

def fullyDenied : Store RamDisk 1 := ((Operation.denyWrite ⟨0⟩).run halfDenied).state

/-- … and one handle is closed. -/
def strandedStore : Store RamDisk 1 := ((Operation.close ⟨0⟩).run fullyDenied).state

def fullyDeniedRoll : Roll :=
  let more : OpenInode → OpenInode := fun inode => { inode with denyCount := inode.denyCount + 1 }
  (sharedRoll.alter 0 more).alter 0 more

theorem strandedStore_steps :
    ((Operation.denyWrite ⟨0⟩).run sharedStore).result = .ok (.ok ()) ∧
      ((Operation.denyWrite ⟨0⟩).run halfDenied).result = .ok (.ok ()) ∧
      ((Operation.close ⟨0⟩).run fullyDenied).result = .ok (.ok ()) := by
  decide +kernel

theorem fullyDeniedRoll_holds : fullyDeniedRoll.Holds 1 secondShare := ⟨rfl, rfl⟩

/-- Up to the close, it is enough that every operation but closes is permitted. -/
theorem fullyDenied_tracked {permitted : Store RamDisk 1 → Operation → Prop}
    (hpermitted : ∀ store o, (∀ handle, o ≠ .close handle) → permitted store o) :
    Tracked permitted fullyDenied fullyDeniedRoll := by
  obtain ⟨hdeny, hdeny', -⟩ := strandedStore_steps
  have hhalf : Tracked permitted halfDenied _ :=
    (sharedStore_tracked hpermitted).turned (hpermitted _ _ nofun) (.denyWrite sharedRoll_holds.2.1) hdeny
  have hholds : (sharedRoll.alter 0 fun inode => { inode with denyCount := inode.denyCount + 1 }).Holds 1
      secondShare := ⟨rfl, rfl⟩
  exact hhalf.turned (hpermitted _ _ nofun) (.denyWrite hholds) hdeny'

/-- Two handles with a denial each are bounded, and the close of one of them strands the denials. -/
theorem denials_bounded_shared :
    fullyDenied.registry.Bounded ∧ ¬ strandedStore.registry.Bounded := by
  have hopened : ∀ (store : Store RamDisk 1) o, (∀ handle, o ≠ .close handle) → ¬ store.registry.Strands o :=
    fun _ _ hother ⟨handle, hclose, _⟩ => hother handle hclose
  obtain ⟨hbounded, hsteps⟩ := denials_bounded (fullyDenied_tracked hopened)
  have hdenied := hbounded fun _ _ h => h
  have hclose : (Operation.close secondShare.handle).run fullyDenied =
      ⟨.ok (.ok ()), strandedStore, ((Operation.close secondShare.handle).run fullyDenied).log⟩ := by
    rw [← strandedStore_steps.2.2]
    rfl
  have hturn : fullyDeniedRoll.Turn (.close secondShare.handle) _ := .close fullyDeniedRoll_holds
  have hstrands : fullyDenied.registry.Strands (.close secondShare.handle) := ⟨⟨0⟩, rfl, by decide +kernel⟩
  exact ⟨hdenied, fun h => (hsteps hdenied hturn hclose).mp h hstrands⟩

/-- No operation has faulted, and the inode is denied twice and open once. Its one opener takes a denial back and still
    cannot write. -/
theorem stranded_denied : Tracked (fun _ _ => True) strandedStore (fullyDeniedRoll.close 1 secondShare) ∧
    strandedStore.registry.find? 0 = some ⟨1, 2, false, false⟩ ∧
    ((Operation.allowWrite ⟨0⟩).run strandedStore).result = .ok (.ok ()) ∧
    ((Operation.write ⟨0⟩ 0 #[7]).run ((Operation.allowWrite ⟨0⟩).run strandedStore).state).result = .ok (.ok 0) := by
  refine ⟨?_, by decide +kernel⟩
  exact (fullyDenied_tracked fun _ _ _ => trivial).turned trivial (.close fullyDeniedRoll_holds)
    strandedStore_steps.2.2

end InodeStore
