import PagingKernel.Proofs.Action.Ensures

/-!
# How an action may end

`Action.Ends action start done refused faulted` describes an action that may also
fault, such as one that reads a directory of which nothing is known.  Where the
faults are excluded it is what the action ensures, so a statement of this kind
serves both callers that know the directory and callers that do not.

The laws are those of `Action.Ensures`, with one more way to end.
-/

namespace PagingKernel.Action

variable {σ ε δ α β : Type}

/-- From `start` the action succeeds, refuses or faults, and each way it ends as is said. -/
def Ends (action : Action σ ε α) (start : σ) (done : α → σ → Prop) (refused : ε → σ → Prop)
    (faulted : Fault → σ → Prop) : Prop :=
  match action start with
  | .ok value stop => done value stop
  | .error (.refused cause) stop => refused cause stop
  | .error (.faulted fault) stop => faulted fault stop

theorem Ends.done {action : Action σ ε α} {start stop : σ} {value : α} {done : α → σ → Prop}
    {refused : ε → σ → Prop} {faulted : Fault → σ → Prop}
    (ends : action.Ends start done refused faulted) (ran : action start = .ok value stop) :
    done value stop := by
  unfold Ends at ends
  rw [ran] at ends
  exact ends

theorem Ends.refused {action : Action σ ε α} {start stop : σ} {cause : ε} {done : α → σ → Prop}
    {refused : ε → σ → Prop} {faulted : Fault → σ → Prop}
    (ends : action.Ends start done refused faulted)
    (ran : action start = .error (.refused cause) stop) : refused cause stop := by
  unfold Ends at ends
  rw [ran] at ends
  exact ends

theorem Ends.mono {action : Action σ ε α} {start : σ} {done weakDone : α → σ → Prop}
    {refused weakRefused : ε → σ → Prop} {faulted weakFaulted : Fault → σ → Prop}
    (ends : action.Ends start done refused faulted)
    (onDone : ∀ value stop, done value stop → weakDone value stop)
    (onRefused : ∀ cause stop, refused cause stop → weakRefused cause stop)
    (onFaulted : ∀ fault stop, faulted fault stop → weakFaulted fault stop) :
    action.Ends start weakDone weakRefused weakFaulted := by
  unfold Ends at ends ⊢
  split at ends
  · exact onDone _ _ ends
  · exact onRefused _ _ ends
  · exact onFaulted _ _ ends

/-- An action ensures how it ends if it cannot fault. -/
theorem ensures_of_ends {action : Action σ ε α} {start : σ} {done : α → σ → Prop}
    {refused : ε → σ → Prop} {faulted : Fault → σ → Prop}
    (ends : action.Ends start done refused faulted)
    (impossible : ∀ fault stop, ¬faulted fault stop) : action.Ensures start done refused := by
  unfold Ends at ends
  unfold Ensures
  cases ran : action start with
  | ok value stop =>
      rw [ran] at ends
      exact ends
  | error failure stop =>
      rw [ran] at ends
      cases failure with
      | refused cause => exact ends
      | faulted fault => exact impossible fault stop ends

/-- An action that ensures how it ends does not fault. -/
theorem ends_of_ensures {action : Action σ ε α} {start : σ} {done : α → σ → Prop}
    {refused : ε → σ → Prop} {faulted : Fault → σ → Prop}
    (ensures : action.Ensures start done refused) :
    action.Ends start done refused faulted := by
  unfold Ends
  split
  · rename_i ran
    exact ensures.done ran
  · rename_i ran
    exact ensures.refused ran
  · rename_i ran
    exact absurd ran ensures.not_faulted

theorem ends_of_eq_ok {action : Action σ ε α} {start stop : σ} {value : α} {done : α → σ → Prop}
    {refused : ε → σ → Prop} {faulted : Fault → σ → Prop} (ran : action start = .ok value stop) :
    action.Ends start done refused faulted ↔ done value stop := by
  unfold Ends
  rw [ran]

/-! ## Laws -/

@[simp]
theorem ends_pure {start : σ} {value : α} {done : α → σ → Prop} {refused : ε → σ → Prop}
    {faulted : Fault → σ → Prop} :
    (pure value : Action σ ε α).Ends start done refused faulted ↔ done value start :=
  Iff.rfl

theorem ends_peek {view : σ → Except Fault α} {start : σ} {done : α → σ → Prop}
    {refused : ε → σ → Prop} {faulted : Fault → σ → Prop} :
    (peek view : Action σ ε α).Ends start done refused faulted ↔
      (∀ value, view start = .ok value → done value start) ∧
        ∀ fault, view start = .error fault → faulted fault start := by
  unfold Ends peek
  cases view start with
  | ok value => simp
  | error fault => simp

@[simp]
theorem ends_bind {first : Action σ ε α} {second : α → Action σ ε β} {start : σ}
    {done : β → σ → Prop} {refused : ε → σ → Prop} {faulted : Fault → σ → Prop} :
    (first >>= second).Ends start done refused faulted ↔
      first.Ends start (fun value middle => (second value).Ends middle done refused faulted)
        refused faulted := by
  change Ends (EStateM.bind first second) _ _ _ _ ↔ _
  unfold Ends EStateM.bind
  cases first start with
  | ok value middle => rfl
  | error failure middle => cases failure <;> rfl

/-- A range is gone through with an invariant that holds before each of its numbers. -/
theorem ends_forRange {act : Nat → Action σ ε Unit} {refused : ε → σ → Prop}
    {faulted : Fault → σ → Prop} (invariant : Nat → σ → Prop) {first count : Nat} {start : σ}
    (initial : invariant first start)
    (step : ∀ number state, first ≤ number → number < first + count → invariant number state →
      (act number).Ends state (fun _ next => invariant (number + 1) next) refused faulted) :
    (forRange first count act).Ends start (fun _ stop => invariant (first + count) stop)
      refused faulted := by
  induction count generalizing first start with
  | zero => exact initial
  | succ count ih =>
      rw [forRange_succ, ends_bind]
      refine (step first start (Nat.le_refl _) (by omega) initial).mono ?_
        (fun _ _ held => held) fun _ _ held => held
      intro _ middle held
      have rest := ih held fun number state above below =>
        step number state (by omega) (by omega)
      rw [show first + (count + 1) = first + 1 + count by omega]
      exact rest

attribute [irreducible] Ends

end PagingKernel.Action
