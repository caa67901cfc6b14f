import InodeStore.Proofs.Inode.Releasing
import InodeStore.Proofs.Inode.Roll
import InodeStore.Proofs.Session.Bystanders

/-!
# `Proofs.Session.Holders` — the registry of a store and the handles that were given out

`Tracked` are the stores that can be got to with a roll of the handles kept alongside, by all operations in any order
and over any sectors, whatever is on the device. The registry of the store is then the roll: all handles of a sector
that are not closed refer to the entry that is registered there, which counts them (`registry_exact`). The sectors of
a removed file are given back by the close of the last handle, and no other operation on the open inodes changes the
free map.

## Contents
- `Roll.Turn`, `Tracked`.
- `Roll.Turn.lists`, `Tracked.sound`: the registry turns as the roll does.
- `Frees`, `registry_exact`.
-/

namespace InodeStore

/-! ## Operations -/

namespace Roll

variable {roll roll' : Roll}

/-- What an operation on the open inodes, asked for through a handle that can be used, makes of the roll. -/
inductive Turn (roll : Roll) : Operation → Roll → Prop where
  | openInode (s : SectorId) : Turn roll (.openInode s) (roll.openInode s)
  | reopen {k : Nat} {share : Share} (h : roll.Holds k share) :
      Turn roll (.reopen share.handle) (roll.give share.sector share.entry)
  | close {k : Nat} {share : Share} (h : roll.Holds k share) :
      Turn roll (.close share.handle) (roll.close k share)
  | drop {k : Nat} {share : Share} (h : roll.Holds k share) :
      Turn roll (.drop share.handle) (roll.settle k share .dropped)
  | remove {k : Nat} {share : Share} (h : roll.Holds k share) :
      Turn roll (.remove share.handle) (roll.remove k share)
  | denyWrite {k : Nat} {share : Share} (h : roll.Holds k share) : Turn roll (.denyWrite share.handle)
      (roll.alter share.entry fun inode => { inode with denyCount := inode.denyCount + 1 })
  | allowWrite {k : Nat} {share : Share} (h : roll.Holds k share) : Turn roll (.allowWrite share.handle)
      (roll.alter share.entry fun inode => { inode with denyCount := inode.denyCount - 1 })

/-- An operation is the close of the last handle of a removed file. -/
def LastOfRemoved (roll : Roll) (o : Operation) : Prop :=
  ∃ k share, roll.Holds k share ∧ o = .close share.handle ∧ roll.holders share.sector = 1 ∧
    roll.Removed share.entry

/-- What an operation on the open inodes makes of a sound roll is sound. -/
theorem Turn.sound {o : Operation} (h : roll.Turn o roll') (hsound : roll.Sound) : roll'.Sound := by
  cases h with
  | openInode s => exact hsound.openInode s
  | reopen h => exact hsound.give (hsound.registered h) fun ht _ => hsound.alive ht
  | close h => exact hsound.close h
  | drop h => exact hsound.drop h
  | remove h => exact hsound.remove h
  | denyWrite h => exact hsound.alter _ (fun _ => rfl) (fun _ => rfl) fun _ => rfl
  | allowWrite h => exact hsound.alter _ (fun _ => rfl) (fun _ => rfl) fun _ => rfl

end Roll

section Tracked

variable {δ : Type} {n : Nat} [BlockDevice δ]

/-- The stores that can be got to from one in which nothing is open, by operations that are permitted and do not
    fault, with the roll kept alongside. An operation that is asked for through a handle needs one that can be used. -/
inductive Tracked (permitted : Store δ n → Operation → Prop) : Store δ n → Roll → Prop where
  | start (cache : Cache δ n) (map : FreeMap) : Tracked permitted ⟨cache, map, .empty⟩ .blank
  | turn {store store' : Store δ n} {roll roll' : Roll} {o : Operation} {answer : Except Error o.Answer}
      {log : List Event} (h : Tracked permitted store roll) (hpermitted : permitted store o)
      (hturn : roll.Turn o roll') (hrun : o.run store = ⟨.ok answer, store', log⟩) : Tracked permitted store' roll'
  | aside {store store' : Store δ n} {roll : Roll} {o : Operation} {answer : Except Error o.Answer}
      {log : List Event} (h : Tracked permitted store roll) (haside : o.turns = false)
      (hheld : ∀ handle, o.handle? = some handle → ∃ k share, roll.Holds k share ∧ share.handle = handle)
      (hrun : o.run store = ⟨.ok answer, store', log⟩) : Tracked permitted store' roll

end Tracked

/-! ## Stores -/

section Stores

variable {δ : Type} {n : Nat} [BlockDevice δ] {store store' : Store δ n} {roll roll' : Roll} {o : Operation}
  {answer : Except Error o.Answer} {log : List Event} {handle : Handle}

/-- The end of a handle, by what the registry answers. -/
theorem Inode.close_run (store : Store δ n) (handle : Handle) :
    let closed : Store δ n := ⟨store.cache, store.freeMap, (Registry.close handle store.registry).state⟩
    (Registry.close handle store.registry).result = .ok true ∧
        store.run (Inode.close handle) = closed.run (releaseInode handle.sector) ∨
      (Registry.close handle store.registry).result = .ok false ∧
        store.run (Inode.close handle) = ⟨.ok (.ok ()), closed, []⟩ := by
  obtain ⟨cache, map, registry⟩ := store
  have hrun : (⟨cache, map, registry⟩ : Store δ n).run (Inode.close handle) = _ :=
    Store.run_bind _ (Routine.closeHandle handle) _
  have hperform : (⟨cache, map, registry⟩ : Store δ n).run (Routine.closeHandle handle) =
      ⟨(Registry.close handle registry).result.map .ok, ⟨cache, map, (Registry.close handle registry).state⟩,
        (Registry.close handle registry).log⟩ := Store.run_perform _ (.close handle)
  rw [hrun, hperform]
  unfold Registry.close
  dsimp only
  split
  · exact .inr ⟨rfl, rfl⟩
  · cases (registry.entry handle).removed with
    | true => exact .inl ⟨rfl, rfl⟩
    | false => exact .inr ⟨rfl, rfl⟩

theorem Inode.close_registry (store : Store δ n) (handle : Handle) :
    (store.run (Inode.close handle)).state.registry = (Registry.close handle store.registry).state := by
  rcases Inode.close_run store handle with ⟨-, hrun⟩ | ⟨-, hrun⟩
  · rw [hrun, (releaseInode_aloof handle.sector).registry]
  · rw [hrun]

theorem Inode.close_ok {answer : Except Error Unit} (hrun : store.run (Inode.close handle) = ⟨.ok answer, store', log⟩) :
    store'.registry = (Registry.close handle store.registry).state := by
  rw [← Inode.close_registry, hrun]

/-- An operation that asks the registry changes nothing else. -/
theorem Operation.asked_eq {action : Action Registry o.Answer} (h : o.asks? = some action) (store : Store δ n) :
    o.run store = ⟨(action store.registry).result.map .ok,
      ⟨store.cache, store.freeMap, (action store.registry).state⟩, (action store.registry).log⟩ := by
  have hmap : (Except.ok <$> action : Action Registry (Except Error o.Answer)) store.registry =
      ⟨(action store.registry).result.map .ok, (action store.registry).state, (action store.registry).log⟩ := by
    rw [map_eq_pure_bind, Action.bind_def]
    rcases action store.registry with ⟨_ | _, registry, log⟩
    · rfl
    · simp [Action.pure_def, Except.map]
  rw [Operation.run_eq_of_asks? h]
  show Store.onRegistry _ store = _
  obtain ⟨cache, map, registry⟩ := store
  unfold Store.onRegistry
  dsimp only
  rw [hmap]

/-- The answer is that of the registry. -/
theorem Operation.asked_ok {action : Action Registry o.Answer} (h : o.asks? = some action)
    (hrun : o.run store = ⟨.ok answer, store', log⟩) : (action store.registry).result.map .ok = .ok answer ∧
      (action store.registry).state = store'.registry ∧ store'.freeMap = store.freeMap := by
  rw [Operation.asked_eq h] at hrun
  obtain ⟨hresult, rfl, -⟩ := Reply.mk.inj hrun
  exact ⟨hresult, rfl, rfl⟩

/-- A denial that is taken back was there. -/
theorem Registry.allowWrite_ok {registry : Registry} {answer : Except Error Unit}
    (h : (registry.allowWrite handle).result.map .ok = .ok answer) : (registry.allowWrite handle).state =
      registry.change handle fun inode => { inode with denyCount := inode.denyCount - 1 } := by
  unfold Registry.allowWrite at h ⊢
  split at h
  · next hdenied => rw [if_pos hdenied]
  · cases h

omit [BlockDevice δ] in
/-- What is known of the inode of a handle is in the entry that the handle refers to. -/
theorem Roll.Holds.entry {k : Nat} {share : Share} (h : roll.Holds k share) (hsound : roll.Sound)
    (hlists : store.registry.Lists roll.opened) : store.registry.entry share.handle = roll.entries share.entry := by
  have hentry := hlists.entry share.sector
  rw [Roll.opened_of_registered (hsound.registered h)] at hentry
  exact hentry

/-- **The registry turns** as the roll does. -/
theorem Roll.Turn.lists (h : roll.Turn o roll') (hsound : roll.Sound) (hlists : store.registry.Lists roll.opened)
    (hrun : o.run store = ⟨.ok answer, store', log⟩) : store'.registry.Lists roll'.opened := by
  -- a change of the entry of a handle is one of the entry that is registered
  have hchange : ∀ {k share}, roll.Holds k share → ∀ f : OpenInode → OpenInode,
      (store.registry.change share.handle f).Lists (roll.alter share.entry f).opened := by
    intro k share hholds f
    have hreg := hsound.registered hholds
    rw [Roll.opened_alter (fun ht => hsound.apart ht hreg) hreg f]
    exact hlists.change share.sector f
  have hasked {action} (haction : o.asks? = some action) := Operation.asked_ok haction hrun
  cases h with
  | openInode s =>
    rw [← (hasked rfl).2.1, hsound.opened_openInode]
    exact hlists.change s fun inode => { inode with openCount := inode.openCount + 1 }
  | reopen hholds =>
    rw [← (hasked rfl).2.1]
    exact hchange hholds fun inode => { inode with openCount := inode.openCount + 1 }
  | @close k share hholds =>
    rw [Inode.close_ok hrun, hsound.opened_close hholds, ← hholds.entry hsound hlists]
    unfold Registry.close
    dsimp only
    split
    · exact hlists.set _ _
    · exact hlists.erase _
  | drop hholds =>
    rw [← (hasked rfl).2.1]
    exact hlists
  | remove hholds =>
    rw [← (hasked rfl).2.1]
    exact hchange hholds fun inode => { inode with removed := true }
  | denyWrite hholds =>
    rw [← (hasked rfl).2.1]
    exact hchange hholds fun inode => { inode with denyCount := inode.denyCount + 1 }
  | @allowWrite k share hholds =>
    obtain ⟨hresult, hstate, -⟩ := hasked rfl
    rw [← hstate, Registry.allowWrite_ok hresult]
    exact hchange hholds fun inode => { inode with denyCount := inode.denyCount - 1 }

variable {permitted : Store δ n → Operation → Prop}

/-- **The registry of a store is its roll**, and the roll is sound. The induction is on how the store was got to. -/
theorem Tracked.sound (h : Tracked permitted store roll) : roll.Sound ∧ store.registry.Lists roll.opened := by
  induction h with
  | start cache map => exact ⟨Roll.blank_sound, Registry.lists_empty⟩
  | turn _ _ hturn hrun ih => exact ⟨hturn.sound ih.1, hturn.lists ih.1 ih.2 hrun⟩
  | @aside store store' roll o answer log _ haside hheld hrun ih =>
    refine ⟨ih.1, ?_⟩
    have hlists := Operation.run_lists haside (fun handle hhandle => ?_) ih.2
    · rwa [hrun] at hlists
    · obtain ⟨k, share, hholds, rfl⟩ := hheld handle hhandle
      have hreg := ih.1.registered hholds
      exact ⟨_, Roll.opened_of_registered hreg, ih.1.idle hreg⟩

/-- The store after an operation that did not fault. -/
theorem Tracked.turned (h : Tracked permitted store roll) (hpermitted : permitted store o) (hturn : roll.Turn o roll')
    (hresult : (o.run store).result = .ok answer) : Tracked permitted (o.run store).state roll' := by
  have hrun : o.run store = ⟨.ok answer, (o.run store).state, (o.run store).log⟩ := by rw [← hresult]
  exact h.turn hpermitted hturn hrun

theorem Tracked.passed (h : Tracked permitted store roll) (haside : o.turns = false)
    (hheld : ∀ handle, o.handle? = some handle → ∃ k share, roll.Holds k share ∧ share.handle = handle)
    (hresult : (o.run store).result = .ok answer) : Tracked permitted (o.run store).state roll := by
  have hrun : o.run store = ⟨.ok answer, (o.run store).state, (o.run store).log⟩ := by rw [← hresult]
  exact h.aside haside hheld hrun

/-! ## Sectors given back -/

/-- A file has given back its sectors: those that would have been listed as its own right before, each of them taken
    then and listed once. Nothing else was given back or taken. -/
def Frees (store store' : Store δ n) (handle : Handle) : Prop :=
  ∃ l, ((Operation.ownedSectors handle).run store).result = .ok (.ok l) ∧ l.Nodup ∧
    (∀ s ∈ l, store.freeMap.isAllocated s = .ok true) ∧
    ∀ s, store'.freeMap.isAllocated s = if s ∈ l then .ok false else store.freeMap.isAllocated s

/-- The close of the last handle of a removed file, and no other, gives its sectors back. -/
theorem Inode.close_frees {answer : Except Error Unit}
    (hrun : (Operation.close handle).run store = ⟨.ok answer, store', log⟩) :
    if store.registry.openCount handle ≤ 1 ∧ store.registry.isRemoved handle = true then Frees store store' handle
    else store'.freeMap = store.freeMap := by
  have hclosed : (Registry.close handle store.registry).result =
      .ok (decide (store.registry.openCount handle ≤ 1 ∧ store.registry.isRemoved handle = true)) := by
    unfold Registry.close Registry.openCount Registry.isRemoved
    dsimp only
    split
    · next hmany => rw [decide_eq_false fun hboth => absurd hboth.1 (Nat.not_le.mpr hmany)]
    · next hlast => simp [Nat.not_lt.mp hlast]
  rcases Inode.close_run store handle with ⟨hresult, hclose⟩ | ⟨hresult, hclose⟩
  · rw [if_pos (of_decide_eq_true (Except.ok.inj (hclosed.symm.trans hresult)))]
    obtain ⟨a, b, l, cache, log', -, hlook, -, hgives, rfl⟩ :=
      releaseInode_gives handle.sector store _ store' answer log
        (hclose.symm.trans hrun) rfl
    exact ⟨a, congrArg Reply.result hlook, hgives.exact⟩
  · rw [if_neg (of_decide_eq_false (Except.ok.inj (hclosed.symm.trans hresult)))]
    exact congrArg (fun reply => reply.state.freeMap) (hrun.symm.trans hclose)

/-- The open sectors are those with a handle that is not closed. -/
theorem Roll.Sound.opened_iff (h : roll.Sound) (s : SectorId) :
    (roll.opened s).isSome = true ↔ ∃ share ∈ roll.shares, share.sector = s ∧ share.Unclosed := by
  rw [Roll.opened, Option.isSome_map]
  constructor
  · intro hsome
    obtain ⟨e, hreg⟩ := Option.isSome_iff_exists.mp hsome
    obtain ⟨share, hmem, hboth⟩ := List.countP_pos_iff.mp (h.alive hreg)
    exact ⟨share, hmem, of_decide_eq_true hboth⟩
  · rintro ⟨share, hmem, rfl, hunclosed⟩
    rw [h.shared share hmem hunclosed]
    rfl

omit [BlockDevice δ] in
/-- What the registry knows of a handle tells whether its close is the last of a removed file. -/
theorem Roll.Holds.last_iff {k : Nat} {share : Share} (h : roll.Holds k share) (hsound : roll.Sound)
    (hlists : store.registry.Lists roll.opened) : roll.LastOfRemoved (.close share.handle) ↔
      store.registry.openCount share.handle ≤ 1 ∧ store.registry.isRemoved share.handle = true := by
  have hentry := h.entry hsound hlists
  have hreg := hsound.registered h
  have halive := hsound.alive hreg
  have hcount : store.registry.openCount share.handle = roll.holders share.sector := by
    rw [Registry.openCount, hentry, hsound.counted hreg]
  have hremoved : store.registry.isRemoved share.handle = true ↔ roll.Removed share.entry := by
    rw [Registry.isRemoved, hentry, hsound.marked hreg]
  rw [hcount, hremoved]
  constructor
  · rintro ⟨k', other, hother, hclose, hone, hmarked⟩
    obtain hsector : share.sector = other.sector := congrArg Handle.sector (Operation.close.inj hclose)
    have hentries : share.entry = other.entry :=
      Option.some.inj (hreg.symm.trans (hsector ▸ hsound.registered hother))
    exact ⟨by rw [hsector]; omega, hentries ▸ hmarked⟩
  · rintro ⟨hone, hmarked⟩
    exact ⟨k, share, h, rfl, by omega, hmarked⟩

/-- The close of the last handle of a removed file gives its sectors back, and no other operation on the open inodes
    gives any back. -/
theorem Roll.Turn.frees (h : roll.Turn o roll') (hsound : roll.Sound)
    (hlists : store.registry.Lists roll.opened) (hrun : o.run store = ⟨.ok answer, store', log⟩) :
    (∀ handle, o = .close handle → roll.LastOfRemoved o → Frees store store' handle) ∧
      (¬ roll.LastOfRemoved o → store'.freeMap = store.freeMap) := by
  -- an operation that asks the registry leaves the free map alone, and is no close
  have hasked : (∀ handle, o ≠ .close handle) → ∀ {action}, o.asks? = some action →
      (∀ handle, o = .close handle → roll.LastOfRemoved o → Frees store store' handle) ∧
        (¬ roll.LastOfRemoved o → store'.freeMap = store.freeMap) := by
    intro hnot action haction
    exact ⟨fun handle hclose => absurd hclose (hnot handle), fun _ => (Operation.asked_ok haction hrun).2.2⟩
  cases h with
  | close hholds =>
    have hlast := hholds.last_iff hsound hlists
    have hfrees := Inode.close_frees hrun
    constructor
    · rintro handle hclose hboth
      obtain rfl := Operation.close.inj hclose
      rwa [if_pos (hlast.mp hboth)] at hfrees
    · intro hnot
      rwa [if_neg fun hboth => hnot (hlast.mpr hboth)] at hfrees
  | openInode => exact hasked (fun _ h => by cases h) rfl
  | reopen => exact hasked (fun _ h => by cases h) rfl
  | drop => exact hasked (fun _ h => by cases h) rfl
  | remove => exact hasked (fun _ h => by cases h) rfl
  | denyWrite => exact hasked (fun _ h => by cases h) rfl
  | allowWrite => exact hasked (fun _ h => by cases h) rfl

/-- **The open inodes are those with a handle that is not closed.** They are counted by their sectors. All handles of a
    sector that are not closed refer to the entry that is registered there. That entry counts them, so that a close
    never counts below zero, and knows whether the file was removed through a handle that refers to it. What gives
    sectors back is the close that ends the last handle of a removed file, and none of the other operations. -/
theorem registry_exact (h : Tracked permitted store roll) :
    (Operation.openInodes.run store).result =
        .ok (.ok (Set.ncard {s | ∃ share ∈ roll.shares, share.sector = s ∧ share.Unclosed})) ∧
      (∀ share ∈ roll.shares, share.Unclosed →
        roll.registered share.sector = some share.entry ∧
        store.registry.find? share.sector = some (roll.entries share.entry) ∧
        (roll.entries share.entry).openCount = roll.holders share.sector ∧ 0 < roll.holders share.sector ∧
        ((roll.entries share.entry).removed = true ↔ roll.Removed share.entry)) ∧
      ∀ {o : Operation} {roll' : Roll} {store' : Store δ n} {answer : Except Error o.Answer} {log : List Event},
        roll.Turn o roll' → o.run store = ⟨.ok answer, store', log⟩ →
        (∀ handle, o = .close handle → roll.LastOfRemoved o → Frees store store' handle) ∧
          (¬ roll.LastOfRemoved o → store'.freeMap = store.freeMap) := by
  obtain ⟨hsound, hlists⟩ := h.sound
  refine ⟨?_, ?_, fun hturn hrun => hturn.frees hsound hlists hrun⟩
  · have hsectors : {s | (roll.opened s).isSome = true} =
        {s | ∃ share ∈ roll.shares, share.sector = s ∧ share.Unclosed} := Set.ext hsound.opened_iff
    rw [← hsectors, ← hlists.size]
    rfl
  · intro share hmem hunclosed
    have hreg := hsound.shared share hmem hunclosed
    exact ⟨hreg, (hlists.find _).trans (Roll.opened_of_registered hreg), hsound.counted hreg, hsound.alive hreg,
      hsound.marked hreg⟩

end Stores

/-! ## A file that is removed -/

/-- A new file of a small disk, … -/
def singleStore : Store RamDisk 1 :=
  ((Operation.create 0 false).run ⟨Cache.blank 1 (RamDisk.blank 4), .blank 4, .empty⟩).state

/-- … which is open, … -/
def singleOpened : Store RamDisk 1 := ((Operation.openInode 0).run singleStore).state

/-- … and through a second handle as well, … -/
def sharedStore : Store RamDisk 1 := ((Operation.reopen ⟨0⟩).run singleOpened).state

/-- … is removed through the first one, … -/
def sharedRemoved : Store RamDisk 1 := ((Operation.remove ⟨0⟩).run sharedStore).state

/-- … which is then closed. -/
def sharedClosed : Store RamDisk 1 := ((Operation.close ⟨0⟩).run sharedRemoved).state

/-- Its two handles. -/
def singleShare : Share := ⟨0, 0, .held⟩

def secondShare : Share := ⟨0, 0, .held⟩

def sharedRoll : Roll := (Roll.blank.openInode 0).give 0 0

def removedRoll : Roll := sharedRoll.remove 0 singleShare

def closedRoll : Roll := removedRoll.close 0 singleShare

theorem sharedStore_steps :
    ((Operation.create 0 false).run (⟨Cache.blank 1 (RamDisk.blank 4), .blank 4, .empty⟩ : Store RamDisk 1)).result =
        .ok (.ok 0) ∧
      ((Operation.openInode 0).run singleStore).result = .ok (.ok ⟨0⟩) ∧
      ((Operation.reopen ⟨0⟩).run singleOpened).result = .ok (.ok ⟨0⟩) ∧
      ((Operation.remove ⟨0⟩).run sharedStore).result = .ok (.ok ()) ∧
      ((Operation.close ⟨0⟩).run sharedRemoved).result = .ok (.ok ()) ∧
      ((Operation.close ⟨0⟩).run sharedClosed).result = .ok (.ok ()) := by
  decide +kernel

/-- The handles that are used can be. -/
theorem sharedRoll_holds : (Roll.blank.openInode 0).Holds 0 singleShare ∧ sharedRoll.Holds 0 singleShare ∧
    removedRoll.Holds 0 singleShare ∧ closedRoll.Holds 1 secondShare :=
  ⟨⟨rfl, rfl⟩, ⟨rfl, rfl⟩, ⟨rfl, rfl⟩, ⟨rfl, rfl⟩⟩

/-- It is enough that every operation but closes is permitted. -/
theorem sharedStore_tracked {permitted : Store RamDisk 1 → Operation → Prop}
    (hpermitted : ∀ store o, (∀ handle, o ≠ .close handle) → permitted store o) :
    Tracked permitted sharedStore sharedRoll := by
  obtain ⟨hcreate, hopen, hreopen, -⟩ := sharedStore_steps
  have hstart : Tracked permitted (⟨Cache.blank 1 (RamDisk.blank 4), .blank 4, .empty⟩ : Store RamDisk 1) .blank :=
    .start _ _
  have hmade : Tracked permitted singleStore .blank := hstart.passed rfl nofun hcreate
  have hopened : Tracked permitted singleOpened (Roll.blank.openInode 0) :=
    hmade.turned (hpermitted _ _ nofun) (.openInode 0) hopen
  exact hopened.turned (hpermitted _ _ nofun) (.reopen sharedRoll_holds.1) hreopen

theorem sharedRemoved_tracked : Tracked (fun _ _ => True) sharedRemoved removedRoll :=
  (sharedStore_tracked fun _ _ _ => trivial).turned trivial (.remove sharedRoll_holds.2.1)
    sharedStore_steps.2.2.2.1

/-- The close of the first handle gives nothing back, and that of the second one the sector. -/
theorem registry_exact_removed : Tracked (fun _ _ => True) sharedRemoved removedRoll ∧
    sharedRemoved.registry.find? 0 = some (removedRoll.entries 0) ∧ (removedRoll.entries 0).openCount = 2 ∧
    sharedClosed.freeMap = sharedRemoved.freeMap ∧
    Frees sharedClosed ((Operation.close ⟨0⟩).run sharedClosed).state ⟨0⟩ := by
  obtain ⟨-, -, -, -, hclose, hlast⟩ := sharedStore_steps
  obtain ⟨-, -, hfirst, hsecond⟩ := sharedRoll_holds
  have hclosed : Tracked (fun _ _ => True) sharedClosed closedRoll :=
    sharedRemoved_tracked.turned trivial (.close hfirst) hclose
  obtain ⟨-, hshared, hturns⟩ := registry_exact sharedRemoved_tracked
  obtain ⟨-, -, hturns'⟩ := registry_exact hclosed
  obtain ⟨-, hfind, hcount, -⟩ := hshared singleShare hfirst.mem hfirst.unclosed
  have hrun : (Operation.close singleShare.handle).run sharedRemoved =
      ⟨.ok (.ok ()), sharedClosed, ((Operation.close ⟨0⟩).run sharedRemoved).log⟩ := by
    rw [← hclose]
    rfl
  have hrun' : (Operation.close secondShare.handle).run sharedClosed =
      ⟨.ok (.ok ()), ((Operation.close ⟨0⟩).run sharedClosed).state,
        ((Operation.close ⟨0⟩).run sharedClosed).log⟩ := by
    rw [← hlast]
    rfl
  have hnot : ¬ removedRoll.LastOfRemoved (.close singleShare.handle) := by
    rintro ⟨k, share, -, hshare, hone, -⟩
    have hsector : singleShare.sector = share.sector := congrArg Handle.sector (Operation.close.inj hshare)
    rw [← hsector] at hone
    exact absurd hone (by decide)
  have hremoved : closedRoll.LastOfRemoved (.close secondShare.handle) :=
    ⟨1, secondShare, hsecond, rfl, rfl, 0, List.mem_singleton_self _, _, rfl, rfl⟩
  exact ⟨sharedRemoved_tracked, hfind, hcount.trans rfl, (hturns (.close hfirst) hrun).2 hnot,
    (hturns' (.close hsecond) hrun').1 ⟨0⟩ rfl hremoved⟩

end InodeStore
