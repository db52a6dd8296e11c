import PagingKernel.Action

/-!
# What an action ensures

`Action.Ensures action start done refused` states everything about running an
action from one state: it does not fault, its successes are as `done` says and
its refusals are as `refused` says.  Since actions are functions, this is a
complete description of a run and not only of the runs that succeed.

Each way of building actions has a law that takes such a statement apart.  The
laws are equivalences, so that a statement about a sequence is rewritten into
nested statements about its actions.
-/

namespace PagingKernel.Action

variable {σ ε δ α β : Type}

/-- From `start` the action does not fault, and it ends as `done` or `refused` says. -/
def Ensures (action : Action σ ε α) (start : σ) (done : α → σ → Prop) (refused : ε → σ → Prop) :
    Prop :=
  match action start with
  | .ok value stop => done value stop
  | .error (.refused cause) stop => refused cause stop
  | .error (.faulted _) _ => False

/-! ## Reading results off -/

theorem Ensures.done {action : Action σ ε α} {start stop : σ} {value : α}
    {done : α → σ → Prop} {refused : ε → σ → Prop}
    (ensures : action.Ensures start done refused) (ran : action start = .ok value stop) :
    done value stop := by
  unfold Ensures at ensures
  rw [ran] at ensures
  exact ensures

theorem Ensures.refused {action : Action σ ε α} {start stop : σ} {cause : ε}
    {done : α → σ → Prop} {refused : ε → σ → Prop}
    (ensures : action.Ensures start done refused)
    (ran : action start = .error (.refused cause) stop) : refused cause stop := by
  unfold Ensures at ensures
  rw [ran] at ensures
  exact ensures

theorem Ensures.not_faulted {action : Action σ ε α} {start stop : σ} {fault : Fault}
    {done : α → σ → Prop} {refused : ε → σ → Prop}
    (ensures : action.Ensures start done refused) :
    action start ≠ .error (.faulted fault) stop := by
  intro ran
  unfold Ensures at ensures
  rw [ran] at ensures
  exact ensures

/-- An action that ensures something ends in one of the two ways. -/
theorem Ensures.cases {action : Action σ ε α} {start : σ} {done : α → σ → Prop}
    {refused : ε → σ → Prop} (ensures : action.Ensures start done refused) :
    (∃ value stop, action start = .ok value stop ∧ done value stop) ∨
      ∃ cause stop, action start = .error (.refused cause) stop ∧ refused cause stop := by
  cases ran : action start with
  | ok value stop => exact .inl ⟨value, stop, rfl, ensures.done ran⟩
  | error failure stop =>
      cases failure with
      | refused cause => exact .inr ⟨cause, stop, rfl, ensures.refused ran⟩
      | faulted fault => exact absurd ran ensures.not_faulted

theorem eq_ok_of_ensures {action : Action σ ε α} {start stop : σ} {value : α}
    (ensures : action.Ensures start (fun result last => result = value ∧ last = stop)
      fun _ _ => False) : action start = .ok value stop := by
  rcases ensures.cases with ⟨_, _, ran, rfl, rfl⟩ | ⟨_, _, _, impossible⟩
  · exact ran
  · exact impossible.elim

/-- What is ensured may be weakened on both sides. -/
theorem Ensures.mono {action : Action σ ε α} {start : σ}
    {done weakDone : α → σ → Prop} {refused weakRefused : ε → σ → Prop}
    (ensures : action.Ensures start done refused)
    (onDone : ∀ value stop, done value stop → weakDone value stop)
    (onRefused : ∀ cause stop, refused cause stop → weakRefused cause stop) :
    action.Ensures start weakDone weakRefused := by
  unfold Ensures at ensures ⊢
  split at ensures
  · exact onDone _ _ ensures
  · exact onRefused _ _ ensures
  · exact ensures

/-- What is ensured in two ways is ensured in both at once. -/
theorem Ensures.and {action : Action σ ε α} {start : σ} {done alsoDone : α → σ → Prop}
    {refused alsoRefused : ε → σ → Prop} (first : action.Ensures start done refused)
    (second : action.Ensures start alsoDone alsoRefused) :
    action.Ensures start (fun value stop => done value stop ∧ alsoDone value stop)
      fun cause stop => refused cause stop ∧ alsoRefused cause stop := by
  unfold Ensures at first second ⊢
  split at first
  · rename_i ran
    rw [ran] at second
    exact ⟨first, second⟩
  · rename_i ran
    rw [ran] at second
    exact ⟨first, second⟩
  · exact first

theorem ensures_of_eq_ok {action : Action σ ε α} {start stop : σ} {value : α}
    {done : α → σ → Prop} {refused : ε → σ → Prop} (ran : action start = .ok value stop) :
    action.Ensures start done refused ↔ done value stop := by
  unfold Ensures
  rw [ran]

/-! ## Single actions -/

section Single

variable {start : σ} {done : α → σ → Prop} {refused : ε → σ → Prop}

@[simp]
theorem ensures_pure {value : α} :
    (pure value : Action σ ε α).Ensures start done refused ↔ done value start :=
  Iff.rfl

@[simp]
theorem ensures_refuse {cause : ε} :
    (refuse cause : Action σ ε α).Ensures start done refused ↔ refused cause start :=
  Iff.rfl

@[simp]
theorem ensures_get {seen : σ → σ → Prop} :
    (get : Action σ ε σ).Ensures start seen refused ↔ seen start start :=
  Iff.rfl

@[simp]
theorem ensures_peek {view : σ → Except Fault α} :
    (peek view : Action σ ε α).Ensures start done refused ↔
      ∃ value, view start = .ok value ∧ done value start := by
  unfold Ensures peek
  cases view start with
  | ok value => simp
  | error fault => simp

theorem ensures_inspect {view : σ → Except (Failure ε) α} {value : α}
    (seen : view start = .ok value) :
    (inspect view).Ensures start done refused ↔ done value start := by
  unfold Ensures inspect
  rw [seen]

theorem ensures_inspect_refused {view : σ → Except (Failure ε) α} {cause : ε}
    (seen : view start = .error (.refused cause)) :
    (inspect view).Ensures start done refused ↔ refused cause start := by
  unfold Ensures inspect
  rw [seen]

@[simp]
theorem ensures_ofExcept_ok {value : α} :
    (ofExcept (.ok value) : Action σ ε α).Ensures start done refused ↔ done value start :=
  Iff.rfl

@[simp]
theorem ensures_ofExcept_error {cause : ε} :
    (ofExcept (.error cause) : Action σ ε α).Ensures start done refused ↔ refused cause start :=
  Iff.rfl

theorem mapError_ok {δ : Type} (change : ε → δ) (value : α) :
    (Except.ok value : Except ε α).mapError change = .ok value :=
  rfl

@[simp]
theorem ensures_require_some {value : α} {cause : ε} :
    (require (some value) cause : Action σ ε α).Ensures start done refused ↔ done value start :=
  Iff.rfl

@[simp]
theorem ensures_require_none {cause : ε} :
    (require none cause : Action σ ε α).Ensures start done refused ↔ refused cause start :=
  Iff.rfl

end Single

/-! ## Sequences -/

@[simp]
theorem ensures_bind {first : Action σ ε α} {second : α → Action σ ε β} {start : σ}
    {done : β → σ → Prop} {refused : ε → σ → Prop} :
    (first >>= second).Ensures start done refused ↔
      first.Ensures start (fun value middle => (second value).Ensures middle done refused)
        refused := by
  change Ensures (EStateM.bind first second) _ _ _ ↔ _
  unfold Ensures EStateM.bind
  cases first start with
  | ok value middle => rfl
  | error failure middle => cases failure <;> rfl

@[simp]
theorem ensures_mapCause {f : ε → δ} {action : Action σ ε α} {start : σ}
    {done : α → σ → Prop} {refused : δ → σ → Prop} :
    (action.mapCause f).Ensures start done refused ↔
      action.Ensures start done fun cause stop => refused (f cause) stop := by
  unfold Ensures mapCause
  cases action start with
  | ok value stop => rfl
  | error failure stop => cases failure <;> rfl

@[simp]
theorem ensures_onRefusal {action : Action σ ε α} {cleanUp : Action σ ε Unit} {start : σ}
    {done : α → σ → Prop} {refused : ε → σ → Prop} :
    (action.onRefusal cleanUp).Ensures start done refused ↔
      action.Ensures start done fun cause middle =>
        cleanUp.Ensures middle (fun _ stop => refused cause stop) refused := by
  unfold Ensures onRefusal
  cases action start with
  | ok value stop => rfl
  | error failure middle =>
      cases failure with
      | faulted fault => rfl
      | refused cause =>
          dsimp only
          cases cleanUp middle with
          | ok value stop => rfl
          | error failure stop => cases failure <;> rfl

@[simp]
theorem ensures_answer {action : Action σ ε α} {start : σ} {done : Except ε α → σ → Prop}
    {refused : δ → σ → Prop} :
    (action.answer : Action σ δ (Except ε α)).Ensures start done refused ↔
      action.Ensures start (fun value stop => done (.ok value) stop)
        fun cause stop => done (.error cause) stop := by
  unfold Ensures answer
  cases action start with
  | ok value stop => rfl
  | error failure stop => cases failure <;> rfl

/-! ## Repetition -/

/-- A range is gone through with an invariant that holds before each of its numbers. -/
theorem ensures_forRange {act : Nat → Action σ ε Unit} {refused : ε → σ → Prop}
    (invariant : Nat → σ → Prop) {first count : Nat} {start : σ}
    (initial : invariant first start)
    (step : ∀ number state, first ≤ number → number < first + count → invariant number state →
      (act number).Ensures state (fun _ next => invariant (number + 1) next) refused) :
    (forRange first count act).Ensures start (fun _ stop => invariant (first + count) stop)
      refused := by
  induction count generalizing first start with
  | zero => exact initial
  | succ count ih =>
      rw [forRange_succ, ensures_bind]
      refine (step first start (Nat.le_refl _) (by omega) initial).mono ?_ fun _ _ held => held
      intro _ middle held
      have rest := ih held fun number state above below =>
        step number state (by omega) (by omega)
      rw [show first + (count + 1) = first + 1 + count by omega]
      exact rest

/-- A list is gone through with an invariant that knows which members are done. -/
theorem ensures_forEach {act : α → Action σ ε Unit} {refused : ε → σ → Prop}
    (invariant : List α → σ → Prop) {members : List α} {start : σ}
    (initial : invariant [] start)
    (step : ∀ earlier member later state, members = earlier ++ member :: later →
      invariant earlier state →
      (act member).Ensures state (fun _ next => invariant (earlier ++ [member]) next) refused) :
    (forEach act members).Ensures start (fun _ stop => invariant members stop) refused := by
  suffices rest : ∀ later earlier state, members = earlier ++ later → invariant earlier state →
      (forEach act later).Ensures state (fun _ stop => invariant members stop) refused from
    rest members [] start rfl initial
  intro later
  induction later with
  | nil =>
      intro earlier state split held
      rw [List.append_nil] at split
      subst split
      exact held
  | cons member later ih =>
      intro earlier state split held
      rw [forEach_cons, ensures_bind]
      refine (step earlier member later state split held).mono ?_ fun _ _ held => held
      intro _ middle held
      exact ih (earlier ++ [member]) middle (by simp [split]) held

/-! From here on a statement is taken apart by the laws only, and no action is run to see it. -/

attribute [irreducible] Ensures

end PagingKernel.Action
