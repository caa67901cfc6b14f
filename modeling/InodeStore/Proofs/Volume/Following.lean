import InodeStore.Proofs.Volume.Durability
import InodeStore.Proofs.Volume.Twins

/-!
# `Proofs.Volume.Following` — the same volume on another device

A device that `Shadows` another one can be made a volume, mounted and left as that one: both volumes are brought up
with one report and are one store in front of both devices, or neither is for one cause and both devices are free
again (`format_carries`, `mount_carries`), operations lead to the same on both (`leadsAll_carries`), and to shut both
down gives one result (`shutdown_ends`). All this is so as long as the first device ends up inside its bounds, and
then it has never left them. The same becomes then of both devices over more than one session (`relive?_beside`).
-/

namespace InodeStore.Volume

variable {δ ε : Type} {n : Nat} {I : δ → Prop} {D : δ → ε → Prop}

/-! ## Volumes in front of related devices -/

/-- The device of what is left of bringing a volume up. -/
def Opening.device : Opening δ n → δ
  | .up store => store.cache.device
  | .down _ device => device

/-- Both devices are opened alike, and stay related. -/
def OpenedBeside (D : δ → ε → Prop) (opened : Opening δ n × List Event) (opened' : Opening ε n × List Event) : Prop :=
  OpenedAlike opened opened' (Store.Beside D) ∧ D opened.1.device opened'.1.device

theorem OpenedBeside.up {store : Store δ n} {twin : Store ε n} (h : store.Beside D twin) (log : List Event) :
    OpenedBeside D (.up store, log) (.up twin, log) := by
  refine ⟨.inl ⟨_, _, _, rfl, rfl, h⟩, ?_⟩
  obtain ⟨e, he, rfl⟩ := h
  exact he

theorem OpenedBeside.down {device : δ} {device' : ε} (h : D device device') (cause : Halt) (log : List Event) :
    OpenedBeside (n := n) D (.down cause device, log) (.down cause device', log) :=
  ⟨.inr ⟨_, _, _, _, rfl, rfl⟩, h⟩

theorem OpenedBeside.of_up {opened : Opening δ n × List Event} {opened' : Opening ε n × List Event}
    (h : OpenedBeside D opened opened') {store : Store δ n} (hup : opened.1 = .up store) :
    ∃ twin, opened'.1 = .up twin ∧ store.Beside D twin := by
  obtain ⟨⟨_, twin, log, rfl, rfl, hbeside⟩ | ⟨cause, device, device', log, rfl, rfl⟩, -⟩ := h
  · cases hup
    exact ⟨twin, rfl, hbeside⟩
  · cases hup

/-- Something was reported before. -/
theorem OpenedBeside.after {opened : Opening δ n × List Event} {opened' : Opening ε n × List Event}
    (h : OpenedBeside D opened opened') (log : List Event) :
    OpenedBeside D (opened.1, log ++ opened.2) (opened'.1, log ++ opened'.2) := by
  obtain ⟨⟨store, twin, log', rfl, rfl, hbeside⟩ | ⟨cause, device, device', log', rfl, rfl⟩, hdevice⟩ := h
  · exact .up hbeside _
  · exact .down hdevice cause _

/-- A way to bring a volume up is one for the other device, from stores. -/
abbrev Resumes (I : δ → Prop) (D : δ → ε → Prop) (next : Store δ n → Opening δ n × List Event)
    (next' : Store ε n → Opening ε n × List Event) : Prop :=
  Carries (fun store => I store.cache.device) (Store.Beside D) (fun opened => I opened.1.device) (OpenedBeside D)
    next next'

/-- A way to end a store is one for the other device. -/
abbrev Ends {α : Type} (I : δ → Prop) (D : δ → ε → Prop) (leave : Store δ n → Reply δ α)
    (leave' : Store ε n → Reply ε α) : Prop :=
  Carries (fun store => I store.cache.device) (Store.Beside D) (fun reply => I reply.state) (Reply.Matches D)
    leave leave'

/-! ## Operations of volumes -/

section Devices

variable [BlockDevice δ] [BlockDevice ε]

/-- A volume is given up after a routine that faults. -/
theorem bringUp_faulted {discard : Store δ n → Reply δ Unit} {store store' : Store δ n} {r : Routine Unit}
    {log : List Event} {e : Fault} (next : Store δ n → Opening δ n × List Event)
    (h : store.run r = ⟨.error e, store', log⟩) :
    bringUp discard store r next = (.down (.faulted e) (discard store').state, log ++ (discard store').log) := by
  unfold bringUp
  rw [h]

/-- The second half of a shutdown, when the volume is persisted. -/
def leaveSaved (log : List Event) (saved : Store δ n) : Reply δ (Except Error Unit) :=
  match saved.run (Inode.close freeMapFile) with
  | ⟨.error e, store, log'⟩ =>
    match store.discard with
    | ⟨_, device, log''⟩ => ⟨.error e, device, log ++ log' ++ log''⟩
  | ⟨.ok outcome, store, log'⟩ =>
    let stats := store.cache.stats
    match store.discard with
    | ⟨result, device, log''⟩ =>
      ⟨result.map fun () => outcome, device,
        log ++ log' ++ .shutDown stats.accesses stats.hits stats.deviceWrites :: log''⟩

theorem shutdown_saved {store saved : Store δ n} {log : List Event}
    (h : store.run persist = ⟨.ok (.ok ()), saved, log⟩) : shutdown store = leaveSaved log saved := by
  unfold shutdown
  rw [h]
  rfl

variable (h : Shadows I D)
include h

theorem endStore_ends : Ends (n := n) I D Store.discard Store.discard where
  before {store} hin := (Cache.flush_follows h).before hin
  same := by
    rintro store _ ⟨e, he, rfl⟩ hin
    obtain ⟨_, hrun, e', he', rfl⟩ := (Cache.flush_follows h).same (s := store.cache) ⟨e, he, rfl⟩ hin
    refine ⟨e', ?_, he'⟩
    unfold Store.discard Cache.discard
    rw [show Cache.flush (store.mapDevice fun _ => e).cache = _ from hrun]
    rfl

theorem discard_ends : Ends (n := n) I D discard discard where
  before {store} hin := (endStore_ends h).before hin
  same {store twin} hbeside hin := by
    obtain ⟨e', hrun, he'⟩ := (endStore_ends h).same hbeside hin
    refine ⟨e', ?_, he'⟩
    unfold discard
    rw [hrun]

/-- **A volume is brought up**, if what comes after that is alike. -/
theorem bringUp_resumes {discard : Store δ n → Reply δ Unit} {discard' : Store ε n → Reply ε Unit}
    (hdiscard : Ends I D discard discard') (r : Routine Unit) {next : Store δ n → Opening δ n × List Event}
    {next' : Store ε n → Opening ε n × List Event} (hnext : Resumes I D next next') :
    Resumes I D (bringUp discard · r next) (bringUp discard' · r next') where
  before {store} hin := by
    refine (Store.run_follows h r).before (s := store) ?_
    rcases hrun : store.run r with ⟨e | e | ⟨⟩, after, log⟩
    · rw [bringUp_faulted _ hrun] at hin
      exact hdiscard.before hin
    · rw [bringUp_refused _ hrun] at hin
      exact hdiscard.before hin
    · rw [bringUp_done _ hrun] at hin
      exact hnext.before hin
  same {store twin} hbeside hin := by
    have hsame := (Store.run_follows h r).same hbeside
    rcases hrun : store.run r with ⟨e | e | ⟨⟩, after, log⟩ <;> rw [hrun] at hsame
    · rw [bringUp_faulted _ hrun] at hin ⊢
      obtain ⟨after', hrun', hbeside'⟩ := hsame (hdiscard.before hin)
      obtain ⟨e', hend, he'⟩ := hdiscard.same hbeside' hin
      rw [bringUp_faulted _ hrun', hend]
      exact .down he' _ _
    · rw [bringUp_refused _ hrun] at hin ⊢
      obtain ⟨after', hrun', hbeside'⟩ := hsame (hdiscard.before hin)
      obtain ⟨e', hend, he'⟩ := hdiscard.same hbeside' hin
      rw [bringUp_refused _ hrun', hend]
      exact .down he' _ _
    · rw [bringUp_done _ hrun] at hin ⊢
      obtain ⟨after', hrun', hbeside'⟩ := hsame (hnext.before hin)
      rw [bringUp_done _ hrun']
      exact (hnext.same hbeside' hin).after log

omit [BlockDevice δ] [BlockDevice ε] h in
/-- A volume that is up, and reports so. -/
theorem up_resumes (event : Nat → Nat → Event) : Resumes (n := n) I D
    (fun store => (.up store, [event store.freeMap.sectors store.freeMap.freeCount]))
    (fun store => (.up store, [event store.freeMap.sectors store.freeMap.freeCount])) where
  before := id
  same := by
    rintro store _ ⟨e, he, rfl⟩ -
    exact .up ⟨e, he, rfl⟩ _

/-- A volume whose files are made. -/
theorem saved_resumes : Resumes (n := n) I D
    (fun store => bringUp discard store (do let _ ← Routine.openInode freeMapSector; persist) fun store =>
      (.up store, [.formatted store.freeMap.sectors store.freeMap.freeCount]))
    (fun store => bringUp discard store (do let _ ← Routine.openInode freeMapSector; persist) fun store =>
      (.up store, [.formatted store.freeMap.sectors store.freeMap.freeCount])) :=
  bringUp_resumes h (discard_ends h) _ (up_resumes .formatted)

section Opening

variable (hcount : ∀ {d e}, D d e → BlockDevice.sectorCount e = BlockDevice.sectorCount d) (n limit : Nat)
include hcount

/-- **A format** of the other device. -/
theorem format_carries :
    Carries I D (fun opened => I opened.1.device) (OpenedBeside D) (format (δ := δ) n · limit)
      (format (δ := ε) n · limit) where
  before {device} hin := by
    unfold format at hin
    dsimp only at hin
    split at hin
    · exact hin
    · rcases create_alike n limit device device with ⟨e, hcreate, -⟩ | ⟨-, hcreate, -⟩ <;> rw [hcreate] at hin
      · exact hin
      · exact (bringUp_resumes h (endStore_ends h) _ (saved_resumes h)).before hin
  same {device device'} hdevice hin := by
    unfold format at hin ⊢
    rw [hcount hdevice]
    dsimp only at hin ⊢
    generalize (do FreeMap.mark freeMapSector; FreeMap.mark rootSector : Action FreeMap Unit)
      (FreeMap.blank (BlockDevice.sectorCount device)) = reserved at hin ⊢
    rcases reserved with ⟨e | ⟨⟩, freeMap, log⟩
    · exact .down hdevice _ _
    · rcases create_alike n limit device device' with ⟨e, hcreate, hcreate'⟩ | ⟨-, hcreate, hcreate'⟩
      · simp only [hcreate, hcreate']
        exact .down hdevice _ _
      · simp only [hcreate, hcreate'] at hin ⊢
        exact (bringUp_resumes h (endStore_ends h) _ (saved_resumes h)).same ⟨device', hdevice, rfl⟩ hin

/-- **A mount** of the other device. -/
theorem mount_carries :
    Carries I D (fun opened => I opened.1.device) (OpenedBeside D) (mount (δ := δ) n · limit)
      (mount (δ := ε) n · limit) where
  before {device} hin := by
    unfold mount at hin
    dsimp only at hin
    rcases create_alike n limit device device with ⟨e, hcreate, -⟩ | ⟨-, hcreate, -⟩ <;> rw [hcreate] at hin
    · exact hin
    · exact (bringUp_resumes h (endStore_ends h) _ (up_resumes .mounted)).before hin
  same {device device'} hdevice hin := by
    unfold mount at hin ⊢
    rw [hcount hdevice]
    dsimp only at hin ⊢
    rcases create_alike n limit device device' with ⟨e, hcreate, hcreate'⟩ | ⟨-, hcreate, hcreate'⟩
    · simp only [hcreate, hcreate']
      exact .down hdevice _ _
    · simp only [hcreate, hcreate'] at hin ⊢
      exact (bringUp_resumes h (endStore_ends h) _ (up_resumes .mounted)).same ⟨device', hdevice, rfl⟩ hin

end Opening

theorem leaveSaved_ends (log : List Event) : Ends (n := n) I D (leaveSaved log) (leaveSaved log) where
  before {saved} hin := by
    refine (Store.run_follows h (Inode.close freeMapFile)).before (s := saved) ?_
    unfold leaveSaved at hin
    rcases hclose : saved.run (Inode.close freeMapFile) with ⟨e | outcome, closed, log'⟩ <;>
      simp only [hclose] at hin <;>
      exact (endStore_ends h).before hin
  same {saved twin} hbeside hin := by
    have hsame := (Store.run_follows h (Inode.close freeMapFile)).same hbeside
    unfold leaveSaved at hin ⊢
    rcases hclose : saved.run (Inode.close freeMapFile) with ⟨e | outcome, closed, log'⟩ <;>
      simp only [hclose] at hin hsame ⊢ <;>
      obtain ⟨twin', hclose', hbeside'⟩ := hsame ((endStore_ends h).before hin) <;>
      obtain ⟨e', hend, he'⟩ := (endStore_ends h).same hbeside' hin
    · exact ⟨e', by simp only [hclose', hend], he'⟩
    · have hstats : twin'.cache.stats = closed.cache.stats := by
        obtain ⟨_, -, rfl⟩ := hbeside'
        rfl
      exact ⟨e', by simp only [hclose', hend, hstats], he'⟩

/-- **A shutdown** of the other volume. -/
theorem shutdown_ends : Ends (n := n) I D shutdown shutdown where
  before {store} hin := by
    refine (Store.run_follows h persist).before (s := store) ?_
    rcases hrun : store.run persist with ⟨e | e | ⟨⟩, saved, log⟩
    · simp only [shutdown, hrun] at hin
      exact (discard_ends h).before hin
    · simp only [shutdown, hrun] at hin
      exact (discard_ends h).before hin
    · rw [shutdown_saved hrun] at hin
      exact (leaveSaved_ends h log).before hin
  same {store twin} hbeside hin := by
    have hsame := (Store.run_follows h persist).same hbeside
    rcases hrun : store.run persist with ⟨e | e | ⟨⟩, saved, log⟩ <;> simp only [hrun] at hsame
    · simp only [shutdown, hrun] at hin ⊢
      obtain ⟨twin', hrun', hbeside'⟩ := hsame ((discard_ends h).before hin)
      obtain ⟨e', hend, he'⟩ := (discard_ends h).same hbeside' hin
      exact ⟨e', by simp only [hrun', hend], he'⟩
    · simp only [shutdown, hrun] at hin ⊢
      obtain ⟨twin', hrun', hbeside'⟩ := hsame ((discard_ends h).before hin)
      obtain ⟨e', hend, he'⟩ := (discard_ends h).same hbeside' hin
      exact ⟨e', by simp only [hrun', hend], he'⟩
    · rw [shutdown_saved hrun] at hin ⊢
      obtain ⟨twin', hrun', hbeside'⟩ := hsame ((leaveSaved_ends h log).before hin)
      rw [shutdown_saved hrun']
      exact (leaveSaved_ends h log).same hbeside' hin

end Devices

end InodeStore.Volume

/-! ## From one session to the next -/

namespace InodeStore

open Volume

section Sessions

variable {δ ε : Type} {n : Nat} [BlockDevice δ] [BlockDevice ε] {I : δ → Prop} {D : δ → ε → Prop}

/-- What becomes of a volume and of what a caller keeps in mind when clients ask for these, one after the other, if
    they may ask for each of them and it is answered. -/
def Operation.askAll? (ledger : Ledger) (store : Store δ n) : List Operation → Option (Store δ n × Ledger)
  | [] => some (store, ledger)
  | o :: rest =>
    if ledger.Concedes o then
      match o.run store with
      | ⟨.ok answer, store, _⟩ => askAll? (ledger.after o answer) store rest
      | ⟨.error _, _, _⟩ => none
    else none

/-- What becomes of a device that is made a volume, asked for some operations, shut down, mounted and asked for
    others, and of what a caller keeps in mind about it. -/
def Volume.relive? (n : Nat) (os os' : List Operation) (device : δ) : Option (Store δ n × Ledger) :=
  match (format n device).1 with
  | .down _ _ => none
  | .up made =>
    match Operation.askAll? (.formatted made.freeMap) made os with
    | none => none
    | some (left, ledger) =>
      match (mount n (shutdown left).state).1 with
      | .down _ _ => none
      | .up mounted => Operation.askAll? (ledger.persisted left.freeMap).mounted mounted os'

variable (h : Shadows I D)
include h

/-- An operation leads to the same in front of the other device, … -/
theorem Operation.leads_carries (o : Operation) :
    Carries (fun store : Store δ n => I store.cache.device) (Store.Beside D)
      (fun store : Store δ n => I store.cache.device) (Store.Beside D) o.leads o.leads where
  before := (o.run_follows h).before
  same {store twin} hbeside hin := by
    obtain ⟨twin', hrun, hbeside'⟩ := (o.run_follows h).same hbeside hin
    have hleads : o.leads twin = twin' := congrArg Reply.state hrun
    rwa [hleads]

/-- … and so do operations, one after the other. -/
theorem Operation.leadsAll_carries (os : List Operation) :
    Carries (fun store : Store δ n => I store.cache.device) (Store.Beside D)
      (fun store : Store δ n => I store.cache.device) (Store.Beside D) (leadsAll os) (leadsAll os) := by
  induction os with
  | nil => exact ⟨id, fun hbeside _ => hbeside⟩
  | cons o rest ih => exact ih.comp (o.leads_carries h)

/-- The same is asked for in front of the other device. -/
theorem Operation.askAll?_beside {ledger ledger' : Ledger} {store last : Store δ n} {os : List Operation}
    (hasked : askAll? ledger store os = some (last, ledger')) (hin : I last.cache.device) :
    I store.cache.device ∧ ∀ {twin : Store ε n}, store.Beside D twin →
      ∃ last', askAll? ledger twin os = some (last', ledger') ∧ last.Beside D last' := by
  induction os generalizing ledger store with
  | nil =>
    cases hasked
    exact ⟨hin, fun hbeside => ⟨_, rfl, hbeside⟩⟩
  | cons o rest ih =>
    unfold askAll? at hasked ⊢
    split at hasked
    · next hconcedes =>
      have hbefore := (o.run_follows (n := n) h).before (s := store)
      have hsame := fun {twin} => (o.run_follows (n := n) h).same (s := store) (t := twin)
      rcases hrun : o.run store with ⟨e | answer, store', log⟩ <;> simp only [hrun] at hasked hbefore hsame
      · cases hasked
      · obtain ⟨hin', hrest⟩ := ih hasked
        refine ⟨hbefore hin', fun {twin} hbeside => ?_⟩
        obtain ⟨twin', hrun', hbeside'⟩ := hsame hbeside hin'
        rw [if_pos hconcedes, hrun']
        exact hrest hbeside'
    · cases hasked

/-- **The same becomes of the other device.** -/
theorem Volume.relive?_beside (hcount : ∀ {d e}, D d e → BlockDevice.sectorCount e = BlockDevice.sectorCount d)
    {os os' : List Operation} {device : δ} {device' : ε} {last : Store δ n} {ledger : Ledger}
    (hlives : relive? n os os' device = some (last, ledger)) (hin : I last.cache.device) (hdevice : D device device') :
    ∃ last', relive? n os os' device' = some (last', ledger) ∧ last.Beside D last' := by
  unfold relive? at hlives
  cases hmade : (format n device).1 with
  | down _ _ => simp [hmade] at hlives
  | up made =>
  cases hasked : Operation.askAll? (.formatted made.freeMap) made os with
  | none => simp [hmade, hasked] at hlives
  | some reached =>
  obtain ⟨left, ledger'⟩ := reached
  cases hmounted : (mount n (shutdown left).state).1 with
  | down _ _ => simp [hmade, hasked, hmounted] at hlives
  | up mounted =>
  simp only [hmade, hasked, hmounted] at hlives
  -- all that was gone through is inside, since its end is
  obtain ⟨hin₁, hrest⟩ := Operation.askAll?_beside h hlives hin
  have hin₂ : I (mount n (shutdown left).state).1.device := hmounted ▸ hin₁
  have hin₃ : I (shutdown left).state := (mount_carries h hcount n _).before hin₂
  obtain ⟨hin₄, hfirst⟩ := Operation.askAll?_beside h hasked ((shutdown_ends h).before hin₃)
  have hin₅ : I (format n device).1.device := hmade ▸ hin₄
  -- so the other device goes through the same
  obtain ⟨made', hmade', hbeside₁⟩ := ((format_carries h hcount n _).same hdevice hin₅).of_up hmade
  obtain ⟨left', hasked', hbeside₂⟩ := hfirst hbeside₁
  obtain ⟨device₁, hdown, hdevice₁⟩ := (shutdown_ends h).same hbeside₂ hin₃
  obtain ⟨mounted', hmounted', hbeside₃⟩ := ((mount_carries h hcount n _).same hdevice₁ hin₂).of_up hmounted
  obtain ⟨last', hlast', hbeside₄⟩ := hrest hbeside₃
  refine ⟨last', ?_, hbeside₄⟩
  unfold relive?
  simp only [hmade', hbeside₁.freeMap_eq, hasked', hdown, hmounted', hbeside₂.freeMap_eq, hlast']

end Sessions

end InodeStore
