import InodeStore.Proofs.Cache.Stepping
import Mathlib.Algebra.BigOperators.Group.Finset.Piecewise

/-!
# `Proofs.Cache.Interleaving` — no update is lost, whatever the order of the steps

`Reaches` are the states that threads come to when they take their steps in any order, with the history of
the uses of sectors: a use is put down at the step in which the thread has the frame locked. `Working` is
what every such state keeps. It ties the history to the programs, and the content of the sectors to the
history (`replay`). Threads that take their steps in turn come to one of them (`Reaches.runTurns`).

`no_update_lost` says that no step is a fault and that no sector has two frames or is read too early, at no
time; and that in the end the device has the result of all uses one after the other.
-/

namespace InodeStore.Cache

/-- The use of a sector that a task is. -/
def Task.access? : Task → Option Access
  | .access a => some a
  | .sweep _ => none

/-- What a thread uses in a step in this phase. -/
def Phase.uses {n : Nat} : Phase n → List Access
  | .use access _ => [access]
  | _ => []

/-- The content of all sectors after uses of them by several threads, one after the other. -/
def replay (history : List (Nat × Access)) (a : SectorArray) : SectorArray :=
  history.foldl (fun a entry => entry.2.apply a) a

/-- The uses that one thread made. -/
def usesOf (history : List (Nat × Access)) (t : Nat) : List Access :=
  (history.filter (·.1 == t)).map Prod.snd

instance {n : Nat} : (p : Phase n) → Decidable (p = .idle)
  | .idle => isTrue rfl
  | .seek _ | .enter _ _ | .wait _ _ | .waited _ _ | .spill _ _ _ | .settle _ _ _ | .fetch _ _ | .use _ _
  | .list _ | .next _ _ _ | .nextEnter _ _ _ _ | .nextUse _ _ _ _ | .forget => isFalse nofun

section Access

variable {δ : Type} {n : Nat} [BlockDevice δ] {shared shared' : Shared δ n} {p q : Phase n}
  {finding : Option Finding} {log : List Event}

/-- A thread stays at a use of a sector until the step that makes it. -/
theorem Phase.step_access (h : p.step shared = some ⟨.ok (q, finding), shared', log⟩) :
    p.access?.toList = p.uses ++ q.access?.toList := by
  have hlock : ∀ {i r}, Phase.step.lockThen shared i r = some ⟨.ok (q, finding), shared', log⟩ → q = r := by
    intro i r hlock
    obtain ⟨-, hreply⟩ := reply_of_lock hlock
    cases hreply
    rfl
  cases p with
  | idle => cases h
  | seek a =>
    simp only [Phase.step] at h
    split at h
    · cases h
    · cases h
      rfl
    · cases h
      rfl
    · split at h
      · cases h
      · cases h
        split <;> rfl
  | enter a i => rw [hlock h]; rfl
  | wait a i => rw [hlock h]; rfl
  | waited a i => cases h; rfl
  | spill a i old =>
    simp only [Phase.step, Phase.step.run, Action.bind_def] at h
    split at h
    · cases h
    · cases h
      rfl
  | settle a i old => cases h; rfl
  | fetch a i =>
    simp only [Phase.step, Phase.step.run, Action.bind_def] at h
    split at h
    · cases h
    · cases h
      rfl
  | use a i => cases a <;> cases h <;> rfl
  | list w => cases h; rfl
  | next w frames found =>
    cases frames with
    | nil => cases w <;> cases h <;> rfl
    | cons i frames =>
      simp only [Phase.step, Phase.step.run, Action.bind_def, Action.get] at h
      split at h <;> cases h <;> rfl
  | nextEnter w i frames found => rw [hlock h]; rfl
  | nextUse w i frames found =>
    simp only [Phase.step, Phase.step.run, Action.bind_def, Action.get] at h
    cases hdirty : (shared.cache.frame i).dirty with
    | false =>
      rw [hdirty] at h
      cases w <;> cases h <;> rfl
    | true =>
      rw [hdirty] at h
      cases w with
      | countDirty =>
        cases h
        rfl
      | flush | reset =>
        -- the frame is brought to the device and the thread stays where it is
        simp only [Action.bind_def] at h
        split at h
        · cases h
        · cases h
          rfl
  | forget =>
    simp only [Phase.step] at h
    split at h
    · cases h
      rfl
    · cases h

end Access

namespace Machine

variable {δ : Type} {n : Nat}

/-- A thread by its number. -/
def thread (machine : Machine δ n) (t : Nat) : Thread n := machine.threads[t]?.getD ⟨.idle, [], []⟩

/-- How far a thread is. -/
def phase (machine : Machine δ n) (t : Nat) : Phase n := (machine.thread t).phase

/-- The uses of a sector that the next step of a thread makes. -/
def uses (machine : Machine δ n) (t : Nat) : List (Nat × Access) :=
  (machine.thread t).begin.phase.uses.map fun access => (t, access)

/-- All threads have done their tasks. -/
def Finished (machine : Machine δ n) : Prop :=
  ∀ thread ∈ machine.threads, thread.phase = .idle ∧ thread.tasks = []

instance (machine : Machine δ n) : Decidable machine.Finished :=
  inferInstanceAs (Decidable (∀ thread ∈ machine.threads, thread.phase = .idle ∧ thread.tasks = []))

variable [BlockDevice δ]

/-- The states that threads come to by their steps, taken in any order, and the uses of sectors they have
    made. -/
inductive Reaches (first : Machine δ n) : Machine δ n → List (Nat × Access) → Prop where
  | start : Reaches first first []
  | step {machine machine' : Machine δ n} {history : List (Nat × Access)} {t : Nat} {log : List Event}
      (h : Reaches first machine history) (hstep : machine.step t = some ⟨.ok (), machine', log⟩) :
      Reaches first machine' (history ++ machine.uses t)

/-! ### In turn -/

section Turns

variable {first machine machine' : Machine δ n} {history : List (Nat × Access)} {log : List Event}

/-- A turn is some steps in an order. -/
theorem Reaches.turn {ts : List Nat} {moved : Bool} (h : Reaches first machine history)
    (hturn : machine.turn ts = ⟨.ok moved, machine', log⟩) : ∃ history', Reaches first machine' history' := by
  induction ts generalizing machine history moved log with
  | nil =>
    cases hturn
    exact ⟨history, h⟩
  | cons t rest ih =>
    unfold Machine.turn at hturn
    split at hturn
    · exact ih h hturn
    · cases hturn
    · next next log hstep =>
      split at hturn
      next result last log' hrest =>
      cases result with
      | error e => cases hturn
      | ok moved =>
        cases hturn
        exact ih (h.step hstep) hrest

/-- What threads come to that take their steps in turn is one of the states that they can come to. -/
theorem Reaches.runTurns {fuel : Nat} (h : Reaches first machine history)
    (hrun : runTurns fuel machine = ⟨.ok (), machine', log⟩) : ∃ history', Reaches first machine' history' := by
  induction fuel generalizing machine history log with
  | zero =>
    cases hrun
    exact ⟨history, h⟩
  | succ fuel ih =>
    unfold Machine.runTurns at hrun
    obtain ⟨size, same, _, _, hsize, hrun⟩ := Action.bind_ok hrun
    cases hsize
    obtain ⟨moved, next, _, log', hturn, hrun⟩ := Action.bind_ok hrun
    obtain ⟨history', hnext⟩ := h.turn hturn
    cases moved with
    | true => exact ih hnext hrun
    | false =>
      cases hrun
      exact ⟨history', hnext⟩

/-- So what they find is what they find in that state. -/
theorem runThreads_reaches {cache cache' : Cache δ n} {programs : List (List Task)} {found : List (List Finding)}
    (hrun : runThreads programs cache = ⟨.ok found, cache', log⟩) :
    ∃ machine history, Reaches (start cache programs) machine history ∧ machine.shared.cache = cache' ∧
      found = machine.threads.toList.map fun thread => thread.found.reverse := by
  unfold runThreads at hrun
  split at hrun
  next result machine log' hturns =>
  cases result with
  | error e => cases hrun
  | ok =>
    cases hrun
    obtain ⟨history, hreach⟩ := Reaches.runTurns .start hturns
    exact ⟨machine, history, hreach, rfl, rfl⟩

end Turns

/-- A step of a thread is one of its phase, once it has begun its next task. -/
theorem step_of_phase {machine : Machine δ n} {t : Nat} {reply : Reply (Machine δ n) Unit}
    (h : machine.step t = some reply) :
    t < machine.threads.size ∧ ∃ inner, (machine.thread t).begin.phase.step machine.shared = some inner ∧
      ∀ {p finding shared log}, inner = ⟨.ok (p, finding), shared, log⟩ →
        reply = ⟨.ok (), ⟨shared, machine.threads.setIfInBounds t
          ((machine.thread t).begin.next p finding)⟩, log⟩ := by
  unfold step at h
  cases hthread : machine.threads[t]? with
  | none =>
    rw [hthread] at h
    cases h
  | some thread =>
    have heq : machine.thread t = thread := by
      unfold Machine.thread
      rw [hthread]
      rfl
    rw [hthread] at h
    rw [heq]
    refine ⟨(Array.getElem?_eq_some_iff.mp hthread).1, ?_⟩
    cases hinner : thread.begin.phase.step machine.shared with
    | none =>
      simp [hinner] at h
    | some inner =>
      refine ⟨inner, rfl, ?_⟩
      rintro p finding shared log rfl
      simp only [hinner, Option.bind_eq_bind, Option.bind_some] at h
      exact (Option.some.inj h).symm

omit [BlockDevice δ] in
theorem thread_setIfInBounds {machine : Machine δ n} {t : Nat} {thread : Thread n} {shared : Shared δ n}
    (ht : t < machine.threads.size) (u : Nat) :
    (⟨shared, machine.threads.setIfInBounds t thread⟩ : Machine δ n).thread u =
      if u = t then thread else machine.thread u := by
  unfold Machine.thread
  by_cases hut : u = t
  · subst hut
    simp [ht]
  · rw [if_neg hut, Array.getElem?_setIfInBounds_ne (Ne.symm hut)]

end Machine

/-! ## What every state keeps -/

section Working

variable {δ : Type} {n size : Nat} [BlockDevice δ] [LawfulDevice δ] {programs : List (List Task)}
  {a : SectorArray} {machine machine' : Machine δ n} {history : List (Nat × Access)} {t : Nat}

/-- The threads are at work on their programs: the cache serves them, and what a thread has used, is using
    and will use are the uses of its program, in their order. -/
structure Working (programs : List (List Task)) (size : Nat) (a : SectorArray) (machine : Machine δ n)
    (history : List (Nat × Access)) : Prop where
  serving : Serving size programs.length machine.phase (replay history a) machine.shared
  crowd : machine.threads.size = programs.length
  inRange : ∀ t access, .access access ∈ (machine.thread t).tasks → access.sector.toNat < size
  order : ∀ t, usesOf history t ++ ((machine.phase t).access?.toList ++
    (machine.thread t).tasks.filterMap Task.access?) = (programs.getD t []).filterMap Task.access?

omit [BlockDevice δ] [LawfulDevice δ] in
/-- Uses of sectors by one more thread. -/
theorem usesOf_append (history : List (Nat × Access)) (uses : List Access) (t u : Nat) :
    usesOf (history ++ uses.map fun access => (t, access)) u =
      usesOf history u ++ if u = t then uses else [] := by
  unfold usesOf
  rw [List.filter_append, List.map_append, List.filter_map]
  congr 1
  by_cases hut : u = t
  · subst hut
    simp [Function.comp_def]
  · simp [Function.comp_def, Ne.symm hut, hut]

omit [BlockDevice δ] [LawfulDevice δ] in
/-- What a thread uses changes the sectors. -/
theorem replay_append (history : List (Nat × Access)) (t : Nat) (p : Phase n) (a : SectorArray) :
    replay (history ++ p.uses.map fun access => (t, access)) a = p.effect (replay history a) := by
  unfold replay
  rw [List.foldl_append]
  cases p <;> rfl

omit [BlockDevice δ] [LawfulDevice δ] in
/-- A thread that begins its next task has the same uses before it. -/
theorem begin_access (thread : Thread n) : thread.begin.phase.access?.toList ++
    thread.begin.tasks.filterMap Task.access? =
      thread.phase.access?.toList ++ thread.tasks.filterMap Task.access? := by
  unfold Thread.begin
  split
  · next task rest hphase htasks =>
    rw [hphase, htasks]
    cases task <;> rfl
  · rfl

omit [BlockDevice δ] [LawfulDevice δ] in
theorem mem_tasks_of_begin {thread : Thread n} {task : Task} (h : task ∈ thread.begin.tasks) :
    task ∈ thread.tasks := by
  unfold Thread.begin at h
  split at h
  · next htasks =>
    rw [htasks]
    exact List.mem_cons_of_mem _ h
  · exact h

omit [BlockDevice δ] [LawfulDevice δ] in
theorem thread_start (cache : Cache δ n) (programs : List (List Task)) (t : Nat) :
    (Machine.start cache programs).thread t = ⟨.idle, programs.getD t [], []⟩ := by
  unfold Machine.thread Machine.start
  rw [List.getElem?_toArray, List.getElem?_map, List.getD_eq_getElem?_getD]
  cases programs[t]? <;> rfl

/-- Before the first step nobody has anything pinned or locked. -/
theorem Working.start {cache : Cache δ n} (hc : cache.Coherent a) (hp : cache.Unpinned)
    (hfit : ∀ tasks ∈ programs, ∀ access, .access access ∈ tasks →
      access.sector.toNat < BlockDevice.sectorCount cache.device) :
    Working programs (BlockDevice.sectorCount cache.device) a (Machine.start cache programs) [] := by
  have hphase : ∀ t, (Machine.start cache programs).phase t = .idle := fun t => by
    unfold Machine.phase
    rw [thread_start]
  refine ⟨⟨hc.orderly, ⟨fun t _ => hphase t, fun i => ?_, ?_, ?_, ?_, ?_, fun t => ?_⟩, hc.reflects⟩, ?_,
    fun t access haccess => ?_, fun t => ?_⟩
  · refine (hp i).trans (Finset.sum_eq_zero fun t _ => ?_).symm
    rw [hphase]
    exact if_neg nofun
  · intro i
    have hfree : (Machine.start cache programs).shared.isLocked i = false :=
      Vector.getElem_replicate i.isLt
    rw [hfree]
    refine ⟨nofun, ?_⟩
    rintro ⟨t, ht⟩
    rw [hphase] at ht
    cases ht
  · intro t u i ht
    rw [hphase] at ht
    cases ht
  · intro i hi hinvalid
    have hvalid : (cache.frame i).valid = true := (hc.used i hi).1
    rw [show ((Machine.start cache programs).shared.cache.frame i).valid = true from hvalid] at hinvalid
    cases hinvalid
  · intro s i hout
    have hout : (s, i) ∈ cache.evicting := hout
    rw [hc.evicting] at hout
    cases hout
  · rw [hphase]
    trivial
  · show ((programs.map _).toArray).size = _
    rw [List.size_toArray, List.length_map]
  · rw [thread_start] at haccess
    have haccess : .access access ∈ programs.getD t [] := haccess
    rw [List.getD_eq_getElem?_getD] at haccess
    cases hget : programs[t]? with
    | none =>
      rw [hget] at haccess
      cases haccess
    | some tasks =>
      rw [hget] at haccess
      exact hfit tasks (List.mem_of_getElem? hget) access haccess
  · rw [hphase, thread_start]
    rfl

/-- A thread may begin its next task. -/
theorem Working.begun (h : Working programs size a machine history) (ht : t < programs.length) :
    Serving size programs.length (Function.update machine.phase t (machine.thread t).begin.phase)
      (replay history a) machine.shared := by
  unfold Thread.begin
  split
  · next task rest hphase htasks =>
    have hidle : machine.phase t = .idle := hphase
    refine h.serving.idle ht hidle ?_ ?_ rfl rfl rfl rfl ?_
    · cases task <;> rfl
    · cases task <;> rfl
    · cases task with
      | access access => exact h.inRange t access (htasks ▸ List.mem_cons_self)
      | sweep sweep => trivial
  · show Serving size programs.length (Function.update machine.phase t (machine.phase t)) _ _
    rw [Function.update_eq_self]
    exact h.serving

/-- **A step** is no fault, and keeps what every state keeps. -/
theorem Working.step (h : Working programs size a machine history) (hn : programs.length ≤ n)
    {reply : Reply (Machine δ n) Unit} (hstep : machine.step t = some reply) :
    ∃ machine' log, reply = ⟨.ok (), machine', log⟩ ∧
      Working programs size a machine' (history ++ machine.uses t) := by
  obtain ⟨hsize, inner, hinner, hreply⟩ := Machine.step_of_phase hstep
  have ht : t < programs.length := h.crowd ▸ hsize
  let begun := (machine.thread t).begin
  let ph := Function.update machine.phase t begun.phase
  have hph : ph t = begun.phase := Function.update_self t begun.phase machine.phase
  obtain ⟨p, finding, shared', log, heq, hserving⟩ := (h.begun ht).step ht hn (hph ▸ hinner)
  refine ⟨_, log, hreply heq, ?_⟩
  have hthread : ∀ u, (⟨shared', machine.threads.setIfInBounds t (begun.next p finding)⟩ :
      Machine δ n).thread u = if u = t then begun.next p finding else machine.thread u := fun u =>
    Machine.thread_setIfInBounds hsize u
  refine ⟨?_, ?_, fun u access haccess => ?_, fun u => ?_⟩
  · have hphases : (⟨shared', machine.threads.setIfInBounds t (begun.next p finding)⟩ :
        Machine δ n).phase = Function.update machine.phase t p := by
      funext u
      unfold Machine.phase
      rw [hthread]
      by_cases hut : u = t
      · rw [if_pos hut, hut, Function.update_self]
        rfl
      · rw [if_neg hut, Function.update_of_ne hut]
    have huses : machine.uses t = begun.phase.uses.map fun access => (t, access) := rfl
    rw [hphases, huses, replay_append, ← hph]
    rwa [Function.update_idem] at hserving
  · exact (Array.size_setIfInBounds).trans h.crowd
  · rw [hthread] at haccess
    split at haccess
    · exact h.inRange t access (mem_tasks_of_begin haccess)
    · exact h.inRange u access haccess
  · have huses : machine.uses t = begun.phase.uses.map fun access => (t, access) := rfl
    unfold Machine.phase
    rw [hthread, huses, usesOf_append]
    by_cases hut : u = t
    · subst hut
      have haccess := Phase.step_access (heq ▸ hinner)
      rw [if_pos rfl, if_pos rfl, ← h.order u, List.append_assoc]
      congr 1
      show begun.phase.uses ++ (p.access?.toList ++ begun.tasks.filterMap Task.access?) = _
      rw [← List.append_assoc, ← haccess]
      exact begin_access (machine.thread u)
    · rw [if_neg hut, if_neg hut, List.append_nil]
      exact h.order u

/-- **Every state** that the threads come to keeps it. -/
theorem Working.reaches {first : Machine δ n} (hfirst : Working programs size a first [])
    (hn : programs.length ≤ n) (h : Machine.Reaches first machine history) :
    Working programs size a machine history := by
  induction h with
  | start => exact hfirst
  | step _ hstep ih =>
    obtain ⟨machine', log, heq, hnext⟩ := ih.step hn hstep
    cases heq
    exact hnext

/-! ## The end -/

omit [BlockDevice δ] [LawfulDevice δ] in
theorem Machine.Finished.thread (h : machine.Finished) (t : Nat) :
    machine.phase t = .idle ∧ (machine.thread t).tasks = [] := by
  unfold Machine.phase Machine.thread
  cases hget : machine.threads[t]? with
  | none => exact ⟨rfl, rfl⟩
  | some thread => exact h thread (Array.mem_of_getElem? hget)

/-- Once all threads are done the cache is coherent, with the result of all uses. -/
theorem Working.finished (h : Working programs size a machine history) (hdone : machine.Finished) :
    machine.shared.cache.Coherent (replay history a) ∧ machine.shared.cache.Unpinned ∧
      ∀ t, usesOf history t = (programs.getD t []).filterMap Task.access? := by
  have hidle : ∀ t, machine.phase t = .idle := fun t => (hdone.thread t).1
  have hunpinned : machine.shared.cache.Unpinned := by
    intro i
    by_contra hpins
    obtain ⟨t, -, ht⟩ := h.serving.staffed.exists_of_pinned hpins
    rw [hidle] at ht
    cases ht
  refine ⟨h.serving.orderly.coherent (h.serving.reflects.mono fun i hi => ?_) hunpinned ?_ ?_, hunpinned,
    fun t => ?_⟩
  · obtain ⟨t, ht⟩ := hi
    rw [hidle] at ht
    cases ht
  · intro i hi
    refine Bool.eq_true_of_not_eq_false fun hinvalid => ?_
    obtain ⟨t, ht⟩ := h.serving.staffed.filling hi hinvalid
    rw [hidle] at ht
    cases ht
  · refine List.eq_nil_iff_forall_not_mem.mpr fun entry hentry => ?_
    obtain ⟨t, ht⟩ := h.serving.staffed.leaving hentry
    rw [hidle] at ht
    cases ht
  · have horder := h.order t
    rw [hidle, (hdone.thread t).2] at horder
    rwa [← List.append_nil (usesOf history t)]

/-! ## Counting -/

/-- Does a use change the sector? -/
def Access.changes (s : SectorId) : Access → Bool
  | .view _ => false
  | .store t _ | .update t _ => t == s

omit [BlockDevice δ] [LawfulDevice δ] in
/-- A sector that is always changed in the same way was changed as often as that happened. -/
theorem replay_iterate {s : SectorId} {change : Block → Block} (a : SectorArray)
    (hall : ∀ entry ∈ history, entry.2.sector = s →
      entry.2 = .view s ∨ entry.2 = .update s change) :
    replay history a s = change^[history.countP fun entry => entry.2.changes s] (a s) := by
  induction history generalizing a with
  | nil => rfl
  | cons entry rest ih =>
    obtain ⟨hfirst, hrest⟩ := List.forall_mem_cons.mp hall
    have hreplay : replay (entry :: rest) a s = replay rest (entry.2.apply a) s := rfl
    rw [hreplay, ih (entry.2.apply a) hrest, List.countP_cons]
    by_cases hs : entry.2.sector = s
    · rcases hfirst hs with hview | hupdate
      · rw [hview]
        rfl
      · rw [hupdate]
        simp [Access.changes, Access.apply]
    · -- another sector is used
      obtain ⟨t, access⟩ := entry
      have hother : access.apply a s = a s ∧ access.changes s = false := by
        cases access with
        | view t' => exact ⟨rfl, rfl⟩
        | store t' b =>
          exact ⟨Function.update_of_ne (Ne.symm hs) _ _, beq_eq_false_iff_ne.mpr hs⟩
        | update t' change =>
          exact ⟨Function.update_of_ne (Ne.symm hs) _ _, beq_eq_false_iff_ne.mpr hs⟩
      simp only [hother.1, hother.2]
      rfl

omit [BlockDevice δ] [LawfulDevice δ] in
/-- What is in a history was done by one thread each. -/
theorem countP_usesOf {threads : Nat} (q : Access → Bool) (hall : ∀ entry ∈ history, entry.1 < threads) :
    (history.countP fun entry => q entry.2) =
      ∑ t ∈ Finset.range threads, (usesOf history t).countP q := by
  induction history with
  | nil => exact (Finset.sum_eq_zero fun _ _ => rfl).symm
  | cons entry rest ih =>
    obtain ⟨hfirst, hrest⟩ := List.forall_mem_cons.mp hall
    have hone : ∀ t, (usesOf (entry :: rest) t).countP q =
        (usesOf rest t).countP q + if entry.1 = t then (if q entry.2 then 1 else 0) else 0 := by
      intro t
      unfold usesOf
      by_cases ht : entry.1 = t
      · rw [List.filter_cons_of_pos (by simpa using ht), List.map_cons, List.countP_cons, if_pos ht]
      · rw [List.filter_cons_of_neg (by simpa using ht), if_neg ht, Nat.add_zero]
    rw [List.countP_cons, ih hrest, Finset.sum_congr rfl fun t _ => hone t, Finset.sum_add_distrib,
      Finset.sum_ite_eq, if_pos (Finset.mem_range.mpr hfirst)]

omit [BlockDevice δ] [LawfulDevice δ] in
theorem countP_programs (q : Access → Bool) (programs : List (List Task)) :
    ∑ t ∈ Finset.range programs.length, ((programs.getD t []).filterMap Task.access?).countP q =
      (programs.flatten.filterMap Task.access?).countP q := by
  induction programs with
  | nil => rfl
  | cons tasks rest ih =>
    rw [List.length_cons, Finset.sum_range_succ', List.flatten_cons, List.filterMap_append,
      List.countP_append, ← ih, Nat.add_comm]
    rfl

/-! ## Progress -/

omit [LawfulDevice δ] in
/-- A thread that has locked a frame does not wait. -/
theorem Phase.step_of_locks {p : Phase n} {shared : Shared δ n} {i : Fin n} (h : p.locks? = some i) :
    ∃ reply, p.step shared = some reply := by
  cases p with
  | waited access i | spill access i old | settle access i old | fetch access i | use access i
  | nextUse sweep i frames found => exact ⟨_, rfl⟩
  | _ => cases h

omit [LawfulDevice δ] in
/-- A thread waits for a locked frame only, unless it is between two tasks. -/
theorem Phase.locked_of_stuck {p : Phase n} {shared : Shared δ n} (h : p.step shared = none)
    (hbusy : p ≠ .idle) : ∃ i, shared.isLocked i = true := by
  have hlock : ∀ {i q}, Phase.step.lockThen shared i q = none → shared.isLocked i = true := by
    intro i q hnone
    unfold Phase.step.lockThen at hnone
    split at hnone
    · assumption
    · cases hnone
  cases p with
  | idle => exact absurd rfl hbusy
  | seek access =>
    simp only [Phase.step] at h
    split at h
    · cases h
    · cases h
    · cases h
    · split at h
      · exact ⟨_, by assumption⟩
      · cases h
  | enter access i => exact ⟨i, hlock h⟩
  | wait access i => exact ⟨i, hlock h⟩
  | nextEnter sweep i frames found => exact ⟨i, hlock h⟩
  | next sweep frames found => cases frames <;> cases h
  | forget =>
    simp only [Phase.step] at h
    split at h
    · cases h
    · next hforget =>
      unfold Shared.canForget at hforget
      rw [List.all_eq_true] at hforget
      push Not at hforget
      obtain ⟨i, -, hi⟩ := hforget
      refine ⟨i, Bool.eq_true_of_not_eq_false fun hfree => hi ?_⟩
      rw [hfree, Bool.not_false, Bool.or_true]
  | _ => cases h

omit [LawfulDevice δ] in
/-- A step of its phase is a step of the machine. -/
theorem Machine.step_of_begin {reply : Reply (Shared δ n) (Phase n × Option Finding)}
    (ht : t < machine.threads.size)
    (h : (machine.thread t).begin.phase.step machine.shared = some reply) :
    ∃ reply, machine.step t = some reply := by
  have hthread : machine.threads[t]? = some (machine.thread t) := by
    unfold Machine.thread
    rw [Array.getElem?_eq_getElem ht]
    rfl
  unfold Machine.step
  rw [hthread]
  simp only [Option.bind_eq_bind, Option.bind_some, h]
  split <;> exact ⟨_, rfl⟩

/-- **Some thread can go on** as long as not all are done: whoever has a frame locked does not wait. -/
theorem Working.progress (h : Working programs size a machine history) (hbusy : ¬ machine.Finished) :
    ∃ t reply, machine.step t = some reply := by
  have hexists : ∃ t, t < machine.threads.size ∧ (machine.thread t).begin.phase ≠ .idle := by
    unfold Machine.Finished at hbusy
    push Not at hbusy
    obtain ⟨thread, hthread, hwork⟩ := hbusy
    obtain ⟨t, ht, rfl⟩ := Array.mem_iff_getElem.mp hthread
    have heq : machine.thread t = machine.threads[t] := by
      unfold Machine.thread
      rw [Array.getElem?_eq_getElem ht]
      rfl
    refine ⟨t, ht, ?_⟩
    rw [heq]
    unfold Thread.begin
    split
    · next task rest _ _ => cases task <;> exact nofun
    · next hnot =>
      intro hidle
      cases htasks : machine.threads[t].tasks with
      | nil => exact hwork hidle htasks
      | cons task rest => exact hnot task rest hidle htasks
  obtain ⟨t, ht, hphase⟩ := hexists
  cases hstep : (machine.thread t).begin.phase.step machine.shared with
  | some reply => exact ⟨t, Machine.step_of_begin ht hstep⟩
  | none =>
    obtain ⟨i, hi⟩ := Phase.locked_of_stuck hstep hphase
    obtain ⟨u, hu⟩ := h.serving.staffed.locked.mp hi
    have hsame : (machine.thread u).begin.phase = machine.phase u := by
      unfold Thread.begin
      split
      · next hidle _ =>
        have hidle : machine.phase u = .idle := hidle
        rw [hidle] at hu
        cases hu
      · rfl
    have husize : u < machine.threads.size := by
      rw [h.crowd]
      by_contra hge
      rw [h.serving.staffed.idle u (Nat.le_of_not_lt hge)] at hu
      cases hu
    obtain ⟨reply, hreply⟩ : ∃ reply, (machine.phase u).step machine.shared = some reply :=
      Phase.step_of_locks hu
    exact ⟨u, Machine.step_of_begin husize (hsame ▸ hreply)⟩

/-! ## The theorem -/

omit [LawfulDevice δ] in
/-- What never goes wrong in a machine: a step that can be taken is no fault, as long as there is work some
    thread can take one, a sector has one live frame at most, a sector is not read while it is on its way to
    the device, and a frame that is used is filled and carries the sector. -/
structure Machine.Sane (machine : Machine δ n) : Prop where
  steps : ∀ t reply, machine.step t = some reply → ∃ machine' log, reply = ⟨.ok (), machine', log⟩
  progress : ¬ machine.Finished → ∃ t reply, machine.step t = some reply
  single : ∀ i j s, machine.shared.cache.Live i s → machine.shared.cache.Live j s → i = j
  patient : ∀ t access i, machine.phase t = .fetch access i →
    ∀ j, (access.sector, j) ∉ machine.shared.cache.evicting
  filled : ∀ t access i, machine.phase t = .use access i →
    (machine.shared.cache.frame i).valid = true ∧
      (machine.shared.cache.frame i).sector = some access.sector

theorem Working.sane (h : Working programs size a machine history) (hn : programs.length ≤ n) :
    machine.Sane where
  steps t reply hstep := by
    obtain ⟨machine', log, heq, -⟩ := h.step hn hstep
    exact ⟨machine', log, heq⟩
  progress := h.progress
  single i j s hi hj := h.serving.orderly.live_unique hi hj
  patient t access i hphase j hout := by
    have hfits := h.serving.staffed.fits t
    rw [hphase] at hfits
    exact (h.serving.orderly.out hout).2.2.2 i hfits.1
  filled t access i hphase := by
    have hfits := h.serving.staffed.fits t
    rw [hphase] at hfits
    exact ⟨hfits.2, hfits.1.2⟩

/-- **No update is lost.** Threads, no more than there are frames, work on a cache that stands for the array
    `a`, each through its program, and their steps are taken in any order. Nothing goes wrong at any time.
    Once all are done and the cache is flushed nothing is dirty, and the device has the result of all uses of
    sectors, one after the other in the order of the history, in which the uses of each thread are those of
    its program in their order. A sector that is always changed in the same way was changed as often as the
    programs say. -/
theorem no_update_lost {cache : Cache δ n} (hc : cache.Coherent a) (hp : cache.Unpinned)
    (programs : List (List Task)) (hn : programs.length ≤ n)
    (hfit : ∀ tasks ∈ programs, ∀ access, .access access ∈ tasks →
      access.sector.toNat < BlockDevice.sectorCount cache.device)
    (hreach : Machine.Reaches (Machine.start cache programs) machine history) :
    machine.Sane ∧
    (machine.Finished → ∃ cache' log, flush machine.shared.cache = ⟨.ok (), cache', log⟩ ∧
      cache'.dirtyCount = 0 ∧
      (∀ t, usesOf history t = (programs.getD t []).filterMap Task.access?) ∧
      (∀ s : SectorId, s.toNat < BlockDevice.sectorCount cache.device →
        LawfulDevice.block cache'.device s = replay history a s) ∧
      ∀ (s : SectorId) (change : Block → Block), s.toNat < BlockDevice.sectorCount cache.device →
        (∀ access ∈ programs.flatten.filterMap Task.access?, access.sector = s →
          access = .view s ∨ access = .update s change) →
        LawfulDevice.block cache'.device s =
          change^[(programs.flatten.filterMap Task.access?).countP (Access.changes s)] (a s)) := by
  have h := (Working.start hc hp hfit).reaches hn hreach
  refine ⟨h.sane hn, fun hdone => ?_⟩
  obtain ⟨hcoherent, -, horder⟩ := h.finished hdone
  obtain ⟨cache', log, hflush, hflushed, -, hcount, hframe⟩ := flush_coherent hcoherent
  have hsize := h.serving.orderly.count
  have hblock : ∀ s : SectorId, s.toNat < BlockDevice.sectorCount cache.device →
      LawfulDevice.block cache'.device s = replay history a s := fun s hs =>
    hflushed.block_eq (fun j => hframe j ▸ rfl) (by rwa [hcount, hsize])
  refine ⟨cache', log, hflush, ?_, horder, hblock, fun s change hs hall => ?_⟩
  · refine List.countP_eq_zero.mpr fun i _ => ?_
    rw [hframe]
    exact Bool.false_ne_true
  · -- every use in the history is one of a program
    have hmem : ∀ entry ∈ history, entry.1 < programs.length ∧
        entry.2 ∈ programs.flatten.filterMap Task.access? := by
      intro entry hentry
      have huse : entry.2 ∈ usesOf history entry.1 :=
        List.mem_map.mpr ⟨entry, List.mem_filter.mpr ⟨hentry, beq_self_eq_true _⟩, rfl⟩
      rw [horder, List.getD_eq_getElem?_getD] at huse
      cases hget : programs[entry.1]? with
      | none =>
        rw [hget] at huse
        cases huse
      | some tasks =>
        rw [hget] at huse
        obtain ⟨task, htask, hsome⟩ := List.mem_filterMap.mp huse
        exact ⟨(List.getElem?_eq_some_iff.mp hget).1, List.mem_filterMap.mpr
          ⟨task, List.mem_flatten.mpr ⟨tasks, List.mem_of_getElem? hget, htask⟩, hsome⟩⟩
    rw [hblock s hs, replay_iterate a fun entry hentry => hall _ (hmem entry hentry).2,
      countP_usesOf _ fun entry hentry => (hmem entry hentry).1]
    simp only [horder]
    rw [countP_programs]

end Working

/-- Two threads count in the first byte of one sector, the second one waiting for the frame while the first
    one fills it, and then brings all frames to the device. -/
theorem no_update_lost_contended :
    let count : Block → Block := fun block => block.splice 0 #[block[0] + 1]
    let programs : List (List Task) := [[.access (.update 0 count)], [.access (.update 0 count), .sweep .flush]]
    ∃ machine history, Machine.Reaches (Machine.start (blank 2 (RamDisk.blank 1)) programs) machine history ∧
      machine.Finished ∧ ∃ cache' log, flush machine.shared.cache = ⟨.ok (), cache', log⟩ ∧
        LawfulDevice.block cache'.device 0 = count (count Block.zero) := by
  intro count programs
  have hdisk : LawfulDevice.Sound (RamDisk.blank 1) := trivial
  have hfit : ∀ tasks ∈ programs, ∀ access, .access access ∈ tasks →
      access.sector.toNat < BlockDevice.sectorCount (RamDisk.blank 1) := by
    intro tasks htasks access haccess
    simp only [programs, List.mem_cons, List.not_mem_nil, or_false] at htasks
    rcases htasks with rfl | rfl
    · cases List.mem_singleton.mp haccess
      decide
    · simp only [List.mem_cons, Task.access.injEq, List.not_mem_nil, or_false, reduceCtorEq] at haccess
      cases haccess
      decide
  let first : Machine RamDisk 2 := Machine.start (blank 2 (RamDisk.blank 1)) programs
  have hrun : (Machine.runTurns 16 first).result = .ok () := by decide +kernel
  have hdone : (Machine.runTurns 16 first).state.Finished := by decide +kernel
  have hstart : Machine.Reaches first first [] := .start
  obtain ⟨history, hreach⟩ := hstart.runTurns
    (show Machine.runTurns 16 first = ⟨.ok (), _, _⟩ by rw [← hrun])
  obtain ⟨-, hend⟩ :=
    no_update_lost (blank_coherent hdisk) (blank_unpinned _) programs (Nat.le_refl 2) hfit hreach
  obtain ⟨cache', log, hflush, -, -, -, hcounted⟩ := hend hdone
  refine ⟨_, history, hreach, hdone, cache', log, hflush, ?_⟩
  refine (hcounted 0 count (by decide) fun access haccess _ => Or.inr ?_).trans rfl
  simpa [programs, Task.access?] using haccess

end InodeStore.Cache
