import InodeStore.Event
import InodeStore.Fault

/-!
# `InodeStore.Action` — stateful operations that log and may fault

`Action σ α` is an operation on a state `σ`. Whatever way it ends, its `Reply` tells the state it
leaves behind and the events it reported: a fault does not undo what was done before it, since the
engine still has to be taken down in an orderly way from where it stands.

## Contents
- `Reply`, `Action` and the monad.
- `Action.fault`, `Action.emit`, `Action.get`, `Action.modify`, `Action.ofExcept`.
- `Action.always` and `Action.onFault`: what is done on the way out.
-/

namespace InodeStore

/-- What an action leaves behind. -/
structure Reply (σ α : Type) where
  /-- The value, or the fault that ended the action. -/
  result : Except Fault α
  /-- The state afterwards. -/
  state : σ
  /-- What was reported on the way, the oldest first. -/
  log : List Event

/-- An operation on a state `σ` that yields an `α`. -/
def Action (σ α : Type) : Type := σ → Reply σ α

namespace Action

variable {σ α β : Type}

/-- Run an action on a state. -/
@[inline] def run (action : Action σ α) (s : σ) : Reply σ α := action s

/-- Do nothing and yield `a`. -/
@[inline] protected def pure (a : α) : Action σ α := fun s => ⟨.ok a, s, []⟩

/-- One action after the other; a fault of the first ends both. -/
@[inline] protected def bind (first : Action σ α) (next : α → Action σ β) : Action σ β := fun s =>
  match first s with
  | ⟨.error e, s', log⟩ => ⟨.error e, s', log⟩
  | ⟨.ok a, s', log⟩ =>
    match next a s' with
    | ⟨result, s'', log'⟩ => ⟨result, s'', log ++ log'⟩

instance : Monad (Action σ) where
  pure := Action.pure
  bind := Action.bind

/-- Stop with a fault. -/
@[inline] def fault (e : Fault) : Action σ α := fun s => ⟨.error e, s, []⟩

/-- Report an event. -/
@[inline] def emit (event : Event) : Action σ Unit := fun s => ⟨.ok (), s, [event]⟩

/-- Look at the state. -/
@[inline] def get (view : σ → α) : Action σ α := fun s => ⟨.ok (view s), s, []⟩

/-- Change the state. -/
@[inline] def modify (change : σ → σ) : Action σ Unit := fun s => ⟨.ok (), change s, []⟩

/-- A computed value or fault. -/
@[inline] def ofExcept : Except Fault α → Action σ α
  | .ok a => Action.pure a
  | .error e => fault e

/-- Change the state by `change` when the action is over, whether it faulted or not. -/
@[inline] def always (change : σ → σ) (action : Action σ α) : Action σ α := fun s =>
  match action s with
  | ⟨result, s', log⟩ => ⟨result, change s', log⟩

/-- Change the state by `change` if the action faults. -/
@[inline] def onFault (change : σ → σ) (action : Action σ α) : Action σ α := fun s =>
  match action s with
  | ⟨.error e, s', log⟩ => ⟨.error e, change s', log⟩
  | ⟨.ok a, s', log⟩ => ⟨.ok a, s', log⟩

theorem pure_def (a : α) (s : σ) : (pure a : Action σ α) s = ⟨.ok a, s, []⟩ := rfl

/-- A sequence, by how its first part ends. -/
theorem bind_def (first : Action σ α) (next : α → Action σ β) (s : σ) :
    (first >>= next) s =
      match first s with
      | ⟨.error e, s', log⟩ => ⟨.error e, s', log⟩
      | ⟨.ok a, s', log⟩ =>
        ⟨(next a s').result, (next a s').state, log ++ (next a s').log⟩ := rfl

/-- A sequence that ends well, by its parts. -/
theorem bind_ok {first : Action σ α} {next : α → Action σ β} {b : β} {s s' : σ} {log : List Event}
    (h : (first >>= next) s = ⟨.ok b, s', log⟩) :
    ∃ a mid log₁ log₂, first s = ⟨.ok a, mid, log₁⟩ ∧ next a mid = ⟨.ok b, s', log₂⟩ := by
  rw [bind_def] at h
  rcases hfirst : first s with ⟨_ | a, mid, log₁⟩
  · rw [hfirst] at h
    cases h
  · rw [hfirst] at h
    obtain ⟨hresult, hstate, -⟩ := Reply.mk.inj h
    exact ⟨a, mid, log₁, (next a mid).log, rfl, by rw [← hresult, ← hstate]⟩

/-- The monad laws hold: logs are joined in order and nothing else is shared. -/
instance : LawfulMonad (Action σ) := by
  refine LawfulMonad.mk' (Action σ) ?_ ?_ ?_
  · intro α x
    funext s
    show Action.bind x (fun a => Action.pure a) s = x s
    simp only [Action.bind, Action.pure]
    rcases x s with ⟨_ | _, s', log⟩ <;> simp
  · intro α β a f
    funext s
    show Action.bind (Action.pure a) f s = f a s
    simp [Action.bind, Action.pure]
  · intro α β γ x f g
    funext s
    show Action.bind (Action.bind x f) g s = Action.bind x (fun a => Action.bind (f a) g) s
    simp only [Action.bind]
    rcases x s with ⟨_ | a, s', log⟩
    · rfl
    · rcases h : f a s' with ⟨_ | b, s'', log'⟩
      · simp [h]
      · simp [h, List.append_assoc]

end Action

end InodeStore
