import InodeStore.Proofs.Session.Simulation
import InodeStore.Proofs.Store.Following
import InodeStore.Proofs.Store.Sequences

/-!
# `Proofs.Session.Routines` — what the operations are made of

An operation either carries out a routine (`Operation.routine?`) or asks the registry (`Operation.asks?`).
The routine gives the archive's reply, and it does so on taken sectors unless it is the last close of a
removed file (`Represents.gives_guarded`, `Represents.gives`). The registry gives it, too
(`Represents.opens`). So does a store with a cache (`Represents.answered`), whose blocks do not change in
number (`Represents.answered_count`). In front of another device an operation does the same as long as its
routine does (`Operation.run_follows`).
-/

namespace InodeStore

open Inode

/-! ## The parts of an operation -/

namespace Operation

/-- The routine that an operation carries out, if it is one that may use blocks. -/
def routine? : (o : Operation) → Option (Routine o.Answer)
  | create size directory => some (Inode.create size directory)
  | createAt sector size directory => some (Inode.createAt sector size directory)
  | close handle => some (Inode.close handle)
  | read handle offset buffer => some (readInto handle offset buffer)
  | write handle offset data => some (Inode.write handle offset data)
  | length handle => some (Inode.length handle)
  | isDir handle => some (Inode.isDir handle)
  | sectorOfByte handle offset => some (Inode.sectorOfByte handle offset)
  | ownedSectors handle => some (Inode.ownedSectors handle.sector)
  | flush => some Routine.flushCache
  | reset => some Routine.resetCache
  | _ => none

/-- The action of the registry that an operation is, if it uses no block. -/
def asks? : (o : Operation) → Option (Action Registry o.Answer)
  | openInode sector => some (Registry.openInode sector)
  | reopen handle => some (Registry.reopen handle)
  | drop handle => some (Registry.drop handle)
  | remove handle => some (Registry.remove handle)
  | denyWrite handle => some (Registry.denyWrite handle)
  | allowWrite handle => some (Registry.allowWrite handle)
  | openCount handle => some (Action.get fun registry => registry.openCount handle)
  | isRemoved handle => some (Action.get fun registry => registry.isRemoved handle)
  | openInodes => some (Action.get Registry.size)
  | _ => none

theorem routine?_or_asks? (o : Operation) :
    (∃ r, o.routine? = some r) ∨ ∃ action, o.asks? = some action := by
  cases o <;> first | exact .inl ⟨_, rfl⟩ | exact .inr ⟨_, rfl⟩

variable {δ : Type} {n : Nat} [BlockDevice δ]

theorem run_eq_of_routine? {o : Operation} {r : Routine o.Answer} (h : o.routine? = some r) :
    (o.run : Action (Store δ n) _) = Store.run r := by
  cases o <;> cases h <;> rfl

theorem run_eq_of_asks? {o : Operation} {action : Action Registry o.Answer}
    (h : o.asks? = some action) : (o.run : Action (Store δ n) _) = onRegistry action := by
  cases o <;> cases h <;> rfl

/-- **An operation** does the same in front of another device that is shadowed. -/
theorem run_follows {ε : Type} [BlockDevice ε] {I : δ → Prop} {D : δ → ε → Prop} (h : Shadows I D)
    (o : Operation) : Store.Follows (n := n) I D o.run o.run := by
  rcases o.routine?_or_asks? with ⟨r, hr⟩ | ⟨action, hasks⟩
  · rw [run_eq_of_routine? hr, run_eq_of_routine? hr]
    exact Store.run_follows h r
  · rw [run_eq_of_asks? hasks, run_eq_of_asks? hasks]
    exact Store.onRegistry_follows _

end Operation

/-! ## What an operation gives -/

variable {α : Type} {p : Plain} {a : Archive} {handle : Handle}

/-- A handle is the last one of a removed file: its close takes the file away. -/
def Ledger.LastOfRemoved (ledger : Ledger) (handle : Handle) : Prop :=
  ledger.HasOpen handle ∧ (ledger.entry handle).openCount = 1 ∧ (ledger.entry handle).removed = true

instance (ledger : Ledger) (handle : Handle) : Decidable (ledger.LastOfRemoved handle) :=
  inferInstanceAs (Decidable (_ ∧ _ ∧ _))

/-- An operation is the last close of a removed file. -/
def Ledger.Closes (ledger : Ledger) (o : Operation) : Prop :=
  ∃ handle, o = .close handle ∧ ledger.LastOfRemoved handle

/-- A handle that is not the last one of a removed file. -/
theorem Represents.kept_of_not_last (h : Represents p a) (hopen : a.ledger.HasOpen handle)
    (hlast : ¬ a.ledger.LastOfRemoved handle) :
    1 < (a.ledger.entry handle).openCount ∨ (a.ledger.entry handle).removed = false := by
  obtain ⟨-, hcount⟩ := h.open_live hopen
  by_cases hmany : 1 < (a.ledger.entry handle).openCount
  · exact .inl hmany
  · refine .inr (Bool.eq_false_iff.mpr fun hremoved => hlast ⟨hopen, ?_, hremoved⟩)
    omega

/-- **An operation** that is not the last close of a removed file is carried out on taken sectors. -/
theorem Represents.gives_guarded (h : Represents p a) {o : Operation} (hpermits : a.ledger.Permits o)
    (hkept : ¬ a.ledger.Closes o) {r : Routine o.Answer} (hr : o.routine? = some r) :
    Gives true r p (a.reply o) := by
  cases o with
  | create length isDir =>
    cases hr
    exact h.create length isDir
  | createAt x length isDir =>
    cases hr
    exact h.createAt hpermits length isDir
  | close handle =>
    cases hr
    exact h.close_kept hpermits (h.kept_of_not_last hpermits fun hlast => hkept ⟨handle, rfl, hlast⟩)
  | read handle offset buffer =>
    cases hr
    exact h.read hpermits offset buffer
  | write handle offset data =>
    cases hr
    exact h.write hpermits offset data
  | length handle =>
    cases hr
    exact h.length hpermits
  | isDir handle =>
    cases hr
    exact h.isDir hpermits
  | sectorOfByte handle offset =>
    cases hr
    exact h.sectorOfByte hpermits offset
  | ownedSectors handle =>
    cases hr
    exact h.ownedSectors hpermits
  | flush =>
    cases hr
    exact ⟨p, Runs.perform .flushCache, h⟩
  | reset =>
    cases hr
    exact ⟨p, Runs.perform .resetCache, h⟩
  | _ => cases hr

/-- The routine of an operation gives the archive's reply. -/
theorem Represents.gives (h : Represents p a) {o : Operation} (hpermits : a.ledger.Permits o)
    {r : Routine o.Answer} (hr : o.routine? = some r) : Gives false r p (a.reply o) := by
  by_cases hcloses : a.ledger.Closes o
  · obtain ⟨handle, rfl, hopen, hcount, hremoved⟩ := hcloses
    cases hr
    exact h.close_gone hopen (by omega) hremoved
  · exact (h.gives_guarded hpermits hcloses hr).unguarded

/-- The registry gives the archive's reply. -/
theorem Represents.opens (h : Represents p a) {o : Operation} (hpermits : a.ledger.Permits o)
    {action : Action Registry o.Answer} (hasks : o.asks? = some action) :
    ∃ answer, (a.reply o).1 = .ok answer ∧ GivesOpen action p answer (a.reply o).2 := by
  cases o with
  | openInode x =>
    cases hasks
    have hlive : (a.record? x).isSome = true := (Option.isSome_map).symm.trans hpermits
    exact ⟨_, rfl, h.openInode hlive⟩
  | reopen handle =>
    cases hasks
    exact ⟨_, rfl, h.openInode (h.open_live hpermits).1⟩
  | drop handle =>
    cases hasks
    exact ⟨_, rfl, _, _, rfl, h⟩
  | remove handle =>
    cases hasks
    exact ⟨_, rfl, h.remove hpermits⟩
  | denyWrite handle =>
    cases hasks
    exact ⟨_, rfl, h.denyWrite hpermits.1 hpermits.2⟩
  | allowWrite handle =>
    cases hasks
    exact ⟨_, rfl, h.allowWrite hpermits.1 hpermits.2⟩
  | openCount handle =>
    cases hasks
    exact ⟨_, rfl, h.ask (·.openCount handle) (congrArg OpenInode.openCount (h.entry handle))⟩
  | isRemoved handle =>
    cases hasks
    exact ⟨_, rfl, h.ask (·.isRemoved handle) (congrArg OpenInode.removed (h.entry handle))⟩
  | openInodes =>
    cases hasks
    exact ⟨_, rfl, h.ask Registry.size h.lists.size⟩
  | _ => cases hasks

/-! ## Stores with a cache -/

section Store

variable {δ : Type} {n : Nat} [BlockDevice δ]

/-- What a routine attempts, it does. -/
theorem Store.run_attempt (store : Store δ n) (r : Routine α) :
    store.run (Routine.attempt r) =
      match store.run r with
      | ⟨.ok answer, store', log⟩ => ⟨.ok (.ok (ending answer)), store', log⟩
      | ⟨.error e, store', log⟩ => ⟨.ok (.ok (.error (.faulted e))), store', log⟩ := by
  induction r generalizing store with
  | done a => rfl
  | halt cause => cases cause <;> rfl
  | call c next ih =>
    have hnext := ih (perform c store).result (perform c store).state
    have hall : store.run (Routine.attempt (.call c next)) = _ :=
      runAfter_eq ((perform c store).log.reverseAux []) (perform c store).state
        (Routine.attempt (next (perform c store).result))
    have hfirst : store.run (.call c next) = _ :=
      runAfter_eq ((perform c store).log.reverseAux []) (perform c store).state
        (next (perform c store).result)
    rw [hall, hfirst, hnext]
    rcases (perform c store).state.run (next (perform c store).result) with ⟨_ | _, store', log⟩ <;>
      simp

variable [LawfulDevice δ] {store : Store δ n}

theorem toResult_ending (answer : Except Error α) : Halt.toResult (ending answer) = .ok answer := by
  cases answer <;> rfl

/-- The registry of a store is asked. -/
theorem Stands.asked (hs : Stands store p) {action : Action Registry α} {answer : α} {registry : Registry}
    {log : List Event} (h : action p.registry = ⟨.ok answer, registry, log⟩) :
    ∃ store' log', Operation.onRegistry action store = ⟨.ok (.ok answer), store', log'⟩ ∧
      Stands store' { p with registry } := by
  have hmap : (Except.ok <$> action : Action Registry (Except Error α)) p.registry =
      ⟨.ok (.ok answer), registry, log ++ []⟩ := by
    rw [map_eq_pure_bind, Action.bind_def, h]
    rfl
  obtain ⟨store', log', hrun, hstands⟩ :=
    hs.onRegistry (Except.ok <$> action : Action Registry (Except Error α))
  rw [hmap] at hrun hstands
  exact ⟨store', log', hrun, hstands⟩

/-- **Every operation** is answered as by the archive, and the store has as many blocks as before. -/
theorem Represents.answered_count (h : Represents p a) (hn : 0 < n) (hs : Stands store p)
    {o : Operation} (hpermits : a.ledger.Permits o) :
    ∃ store' log p', o.run store = ⟨.ok (a.reply o).1, store', log⟩ ∧ Stands store' p' ∧
      Represents p' (a.reply o).2 ∧ p'.count = p.count := by
  rcases o.routine?_or_asks? with ⟨r, hr⟩ | ⟨action, hasks⟩
  · obtain ⟨p', hrun, hrepresents⟩ := h.gives hpermits hr
    obtain ⟨store', log, hstore, hstands, -⟩ := hrun.run_eq hn hs
    rw [toResult_ending] at hstore
    refine ⟨store', log, p', ?_, hstands, hrepresents, hrun.count_eq⟩
    rw [Operation.run_eq_of_routine? hr]
    exact hstore
  · obtain ⟨answer, hreply, registry, log, haction, hrepresents⟩ := h.opens hpermits hasks
    obtain ⟨store', log', hstore, hstands⟩ := hs.asked haction
    refine ⟨store', log', _, ?_, hstands, hrepresents, rfl⟩
    rw [Operation.run_eq_of_asks? hasks, hreply]
    exact hstore

/-- Every operation that may be asked for is answered as by the archive. -/
theorem Represents.answered (h : Represents p a) (hn : 0 < n) (hs : Stands store p) (o : Operation)
    (hpermits : a.ledger.Permits o) :
    ∃ store' log p', o.run store = ⟨.ok (a.reply o).1, store', log⟩ ∧ Stands store' p' ∧
      Represents p' (a.reply o).2 := by
  obtain ⟨store', log, p', hrun, hstands, hrepresents, -⟩ := h.answered_count hn hs hpermits
  exact ⟨store', log, p', hrun, hstands, hrepresents⟩

end Store

end InodeStore
