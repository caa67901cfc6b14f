import InodeStore.Cache.Request
import InodeStore.Proofs.Cache.Operations

/-!
# `Proofs.Cache.Requests` — what is done for a request

`Request.run` is put together from smaller actions. `Request.Ran` says of a request that was answered what these
were, with one case for each kind of request: the access that got the frame, the answers to what was asked
meanwhile, and what became of the frame. That is all there is to say (`Request.ran_of_run`, `Request.Ran.run_eq`),
so whoever argues about requests goes through these cases and need not take the actions apart.
-/

namespace InodeStore.Cache

variable {δ : Type} {n : Nat} {cache cache' : Cache δ n} {log : List Event}

variable [BlockDevice δ]

/-- A use of a frame that ends well. -/
theorem withFrame_ok {α : Type} {fill : Fill} {s : SectorId} {body : Fin n → Action (Cache δ n) α} {a : α}
    (h : withFrame fill s body cache = ⟨.ok a, cache', log⟩) :
    ∃ i taken used log₁ log₂, acquire fill s cache = ⟨.ok i, taken, log₁⟩ ∧
      body i taken = ⟨.ok a, used, log₂⟩ ∧ cache' = used.unpin i := by
  obtain ⟨i, taken, log₁, log₂, hacquire, hbody⟩ := Action.bind_ok h
  unfold Action.always at hbody
  cases hused : body i taken with
  | mk result used log₃ =>
    rw [hused] at hbody
    cases hbody
    exact ⟨i, taken, used, log₁, _, hacquire, hused, rfl⟩

namespace Request

/-- A request was answered, and this was done for it. -/
inductive Ran (base : CacheStats) (cache : Cache δ n) : Request → Response × CacheStats → Cache δ n → Prop where
  | read {s : SectorId} (i : Fin n) (taken : Cache δ n) {log : List Event}
      (hacquire : acquire .readThrough s cache = ⟨.ok i, taken, log⟩) :
      Ran base cache (.read s) (.content (taken.frame i).data, base) (taken.unpin i)
  | write {s : SectorId} {b : Block} (i : Fin n) (taken : Cache δ n) {log : List Event}
      (hacquire : acquire .overwrite s cache = ⟨.ok i, taken, log⟩) :
      Ran base cache (.write s b) (.done, base) ((amendFrame i (fun _ => b) taken).state.unpin i)
  | map {s : SectorId} {inner : List Request} (i : Fin n) (taken : Cache δ n) {used : Cache δ n}
      {answers : List Response × CacheStats} {log log' : List Event}
      (hacquire : acquire .readThrough s cache = ⟨.ok i, taken, log⟩)
      (hinner : runAll base inner taken = ⟨.ok answers, used, log'⟩) :
      Ran base cache (.map s inner) (.nested (taken.frame i).data answers.1, answers.2) (used.unpin i)
  | update {s : SectorId} {change : Block → Block} {inner : List Request} (i : Fin n) (taken : Cache δ n)
      {used : Cache δ n} {answers : List Response × CacheStats} {log log' : List Event}
      (hacquire : acquire .readThrough s cache = ⟨.ok i, taken, log⟩)
      -- the frame is dirty from the start, and is changed in the end
      (hinner : runAll base inner (amendFrame i id taken).state = ⟨.ok answers, used, log'⟩) :
      Ran base cache (.update s change inner)
        (.nested ((amendFrame i change used).state.frame i).data answers.1, answers.2)
        ((amendFrame i change used).state.unpin i)
  | flush {flushed : Cache δ n} {log : List Event} (hflush : Cache.flush cache = ⟨.ok (), flushed, log⟩) :
      Ran base cache .flush (.done, base) flushed
  | reset {emptied : Cache δ n} {log : List Event} (hreset : Cache.reset cache = ⟨.ok (), emptied, log⟩) :
      Ran base cache .reset (.done, base) emptied
  | inspect : Ran base cache .inspect (.snapshot cache.snapshot, base) cache
  | sample : Ran base cache .sample (.done, cache.stats) cache
  | sinceSample {counted : CacheStats} (hsince : cache.stats.since base = .ok counted) :
      Ran base cache .sinceSample (.counted counted, base) cache

variable {base : CacheStats} {request : Request} {answer : Response × CacheStats}

/-- Nothing else is done for a request that is answered. -/
theorem ran_of_run (hrun : request.run base cache = ⟨.ok answer, cache', log⟩) :
    request.Ran base cache answer cache' := by
  cases request with
  | read s =>
    rw [run] at hrun
    obtain ⟨b, mid, _, _, hview, hpure⟩ := Action.bind_ok hrun
    cases hpure
    obtain ⟨i, taken, used, _, _, hacquire, hbody, rfl⟩ := withFrame_ok hview
    cases hbody
    exact .read i taken hacquire
  | write s b =>
    rw [run] at hrun
    obtain ⟨⟨⟩, mid, _, _, hstore, hpure⟩ := Action.bind_ok hrun
    cases hpure
    obtain ⟨i, taken, used, _, _, hacquire, hbody, rfl⟩ := withFrame_ok hstore
    cases hbody
    exact .write i taken hacquire
  | map s inner =>
    rw [run] at hrun
    obtain ⟨i, taken, used, _, _, hacquire, hbody, rfl⟩ := withFrame_ok hrun
    obtain ⟨b, mid, _, _, hdata, hbody⟩ := Action.bind_ok hbody
    cases hdata
    obtain ⟨answers, mid, _, _, hinner, hpure⟩ := Action.bind_ok hbody
    cases hpure
    exact .map i taken hacquire hinner
  | update s change inner =>
    rw [run] at hrun
    obtain ⟨i, taken, used, _, _, hacquire, hbody, rfl⟩ := withFrame_ok hrun
    obtain ⟨⟨⟩, begun, _, _, hbegin, hbody⟩ := Action.bind_ok hbody
    cases hbegin
    obtain ⟨answers, mid, _, _, hinner, hbody⟩ := Action.bind_ok hbody
    obtain ⟨⟨⟩, changed, _, _, hchange, hbody⟩ := Action.bind_ok hbody
    cases hchange
    obtain ⟨b, last, _, _, hdata, hpure⟩ := Action.bind_ok hbody
    cases hdata
    cases hpure
    exact .update i taken hacquire hinner
  | flush =>
    rw [run] at hrun
    obtain ⟨⟨⟩, mid, _, _, hflush, hpure⟩ := Action.bind_ok hrun
    cases hpure
    exact .flush hflush
  | reset =>
    rw [run] at hrun
    obtain ⟨⟨⟩, mid, _, _, hreset, hpure⟩ := Action.bind_ok hrun
    cases hpure
    exact .reset hreset
  | inspect =>
    cases hrun
    exact .inspect
  | sample =>
    cases hrun
    exact .sample
  | sinceSample =>
    rw [run] at hrun
    obtain ⟨now, mid, _, _, hget, hrest⟩ := Action.bind_ok hrun
    cases hget
    obtain ⟨counted, mid, _, _, hsince, hpure⟩ := Action.bind_ok hrest
    cases hpure
    cases hdifference : cache.stats.since base with
    | error e =>
      rw [hdifference] at hsince
      cases hsince
    | ok difference =>
      rw [hdifference] at hsince
      cases hsince
      exact .sinceSample hdifference

/-- What was done for a request answers it. -/
theorem Ran.run_eq (h : request.Ran base cache answer cache') :
    ∃ log, request.run base cache = ⟨.ok answer, cache', log⟩ := by
  cases h with
  | @read s i taken log hacquire =>
    have hview : view s cache = _ := withFrame_eq hacquire (rfl : frameData i taken = _)
    refine ⟨log ++ [] ++ [], ?_⟩
    rw [run, Action.bind_def, hview]
    rfl
  | @write s b i taken log hacquire =>
    have hstore : store s b cache = _ := withFrame_eq hacquire (rfl : amendFrame i (fun _ => b) taken = _)
    refine ⟨log ++ [] ++ [], ?_⟩
    rw [run, Action.bind_def, hstore]
    rfl
  | @map s inner i taken used answers log log' hacquire hinner =>
    refine ⟨log ++ (log' ++ []), withFrame_eq hacquire ?_⟩
    simp only [frameData, Action.bind_def, Action.get, hinner, Action.pure_def]
    rfl
  | @update s change inner i taken used answers log log' hacquire hinner =>
    refine ⟨log ++ (log' ++ []), withFrame_eq hacquire ?_⟩
    rw [Action.bind_def, show amendFrame i id taken = ⟨.ok (), (amendFrame i id taken).state, []⟩ from rfl]
    simp only [Action.bind_def, hinner]
    rfl
  | @flush flushed log hflush =>
    refine ⟨log ++ [], ?_⟩
    rw [run, Action.bind_def, hflush]
    rfl
  | @reset emptied log hreset =>
    refine ⟨log ++ [], ?_⟩
    rw [run, Action.bind_def, hreset]
    rfl
  | inspect => exact ⟨[], rfl⟩
  | sample => exact ⟨[], rfl⟩
  | sinceSample hsince =>
    refine ⟨[], ?_⟩
    simp only [run, Action.bind_def, Action.get, hsince]
    rfl

/-- What the cache is afterwards. -/
theorem Ran.state_eq (h : request.Ran base cache answer cache') : (request.run base cache).state = cache' := by
  obtain ⟨log, hrun⟩ := h.run_eq
  rw [hrun]

/-- Nothing is done where nothing is asked. -/
theorem runAll_nil : runAll base [] cache = ⟨.ok ([], base), cache, []⟩ := rfl

/-- Requests that are answered one after the other, by the first one and the others. -/
theorem runAll_ok {rest : List Request} {answers : List Response × CacheStats}
    (hrun : runAll base (request :: rest) cache = ⟨.ok answers, cache', log⟩) :
    ∃ first mid others log₁ log₂, request.run base cache = ⟨.ok first, mid, log₁⟩ ∧
      runAll first.2 rest mid = ⟨.ok others, cache', log₂⟩ ∧ answers = (first.1 :: others.1, others.2) := by
  rw [runAll] at hrun
  obtain ⟨first, mid, log₁, log₂, hfirst, hrest⟩ := Action.bind_ok hrun
  obtain ⟨others, last, log₃, log₄, hothers, hpure⟩ := Action.bind_ok hrest
  cases hpure
  exact ⟨first, mid, others, log₁, log₃, hfirst, hothers, rfl⟩

end Request

end InodeStore.Cache
