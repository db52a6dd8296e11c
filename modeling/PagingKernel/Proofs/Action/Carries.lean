import Mathlib.Order.Defs.Unbundled
import PagingKernel.Proofs.Action.Ensures

/-!
# How an action moves its state

`Action.Carries relation action` says that from every state, and however the
action ends, be it by a refusal or by a fault, the state it leaves is related by
`relation` to the state it found.  Nothing is assumed of the state, so such a
statement holds of histories that no invariant describes.

Every way of building actions carries whatever its parts carry, as long as
`relation` is a preorder.
-/

namespace PagingKernel.Action

variable {σ ε δ α β : Type}

/-- The state that an action leaves, however it ends. -/
def after (action : Action σ ε α) (start : σ) : σ :=
  match action start with
  | .ok _ stop => stop
  | .error _ stop => stop

theorem after_of_eq_ok {action : Action σ ε α} {start stop : σ} {value : α}
    (ran : action start = .ok value stop) : action.after start = stop := by
  rw [after, ran]

theorem after_of_eq_error {action : Action σ ε α} {start stop : σ} {failure : Failure ε}
    (ran : action start = .error failure stop) : action.after start = stop := by
  rw [after, ran]

/-- What an action ensures however it ends holds of the state that it leaves. -/
theorem Ensures.after {action : Action σ ε α} {start : σ} {left : σ → Prop}
    (ensures : action.Ensures start (fun _ => left) fun _ => left) : left (action.after start) := by
  rcases ensures.cases with ⟨value, stop, ran, held⟩ | ⟨cause, stop, ran, held⟩
  · rw [after_of_eq_ok ran]
    exact held
  · rw [after_of_eq_error ran]
    exact held

/-- Wherever the action starts, it leaves a state that `relation` relates to the one it found. -/
def Carries (relation : σ → σ → Prop) (action : Action σ ε α) : Prop :=
  ∀ start, relation start (action.after start)

variable {relation : σ → σ → Prop} [IsPreorder σ relation]

/-- An action that leaves its state as it was carries everything. -/
theorem carries_of_after_eq {action : Action σ ε α}
    (unchanged : ∀ start, action.after start = start) :
    action.Carries relation := by
  intro start
  rw [unchanged start]
  exact refl_of relation start

/-! ## Actions that change nothing -/

theorem carries_pure (value : α) : (pure value : Action σ ε α).Carries relation :=
  carries_of_after_eq fun _ => rfl

theorem carries_refuse (cause : ε) : (refuse cause : Action σ ε α).Carries relation :=
  carries_of_after_eq fun _ => rfl

theorem carries_get : (get : Action σ ε σ).Carries relation :=
  carries_of_after_eq fun _ => rfl

theorem carries_peek (view : σ → Except Fault α) : (peek view : Action σ ε α).Carries relation := by
  refine carries_of_after_eq fun start => ?_
  unfold after peek
  cases view start <;> rfl

theorem carries_require (value : Option α) (cause : ε) :
    (require value cause : Action σ ε α).Carries relation := by
  cases value with
  | some value => exact carries_pure value
  | none => exact carries_refuse cause

/-! ## Actions made of others -/

theorem Carries.bind {first : Action σ ε α} {second : α → Action σ ε β}
    (early : first.Carries relation) (late : ∀ value, (second value).Carries relation) :
    (first >>= second).Carries relation := by
  intro start
  have upTo := early start
  change relation start (after (EStateM.bind first second) start)
  unfold after EStateM.bind at *
  cases ran : first start with
  | ok value middle =>
      rw [ran] at upTo
      exact trans_of relation upTo (late value middle)
  | error failure middle =>
      rw [ran] at upTo
      exact upTo

omit [IsPreorder σ relation] in
theorem Carries.mapCause {action : Action σ ε α} (carries : action.Carries relation) (f : ε → δ) :
    (action.mapCause f).Carries relation := by
  intro start
  have moved := carries start
  unfold after Action.mapCause at *
  cases ran : action start <;> rw [ran] at moved <;> exact moved

theorem Carries.onRefusal {action : Action σ ε α} {cleanUp : Action σ ε Unit}
    (carries : action.Carries relation) (cleaned : cleanUp.Carries relation) :
    (action.onRefusal cleanUp).Carries relation := by
  intro start
  have moved := carries start
  unfold after Action.onRefusal at *
  cases ran : action start with
  | ok value stop =>
      rw [ran] at moved
      exact moved
  | error failure middle =>
      rw [ran] at moved
      cases failure with
      | faulted fault => exact moved
      | refused cause =>
          have cleanedUp := cleaned middle
          unfold after at cleanedUp
          dsimp only
          cases done : cleanUp middle <;> rw [done] at cleanedUp <;>
            exact trans_of relation moved cleanedUp

theorem carries_forRange {act : Nat → Action σ ε Unit}
    (carries : ∀ number, (act number).Carries relation)
    (first count : Nat) : (forRange first count act).Carries relation := by
  induction count generalizing first with
  | zero => exact carries_pure ()
  | succ count ih =>
      rw [forRange_succ]
      exact (carries first).bind fun _ => ih (first + 1)

theorem carries_forEach {act : α → Action σ ε Unit}
    (carries : ∀ member, (act member).Carries relation)
    (members : List α) : (forEach act members).Carries relation := by
  induction members with
  | nil => exact carries_pure ()
  | cons head tail ih =>
      rw [forEach_cons]
      exact (carries head).bind fun _ => ih

end PagingKernel.Action
