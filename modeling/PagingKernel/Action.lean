import PagingKernel.Fault

/-!
# Actions on a state

An action changes a state and gives a result, or fails.  A failure does not
undo anything: the state it leaves is the state as it was when the failure
arose, so an operation that promises to leave nothing behind has to clean up,
and `Action.onRefusal` is how it does.
-/

namespace PagingKernel

/-- An action on a state of type `σ` that may refuse with a cause of type `ε`. -/
abbrev Action (σ ε α : Type) : Type :=
  EStateM (Failure ε) σ α

namespace Action

variable {σ ε δ α β : Type}

/-- Refuses for a cause. -/
@[inline]
def refuse (cause : ε) : Action σ ε α :=
  throw (.refused cause)

/-- Stops at a fault. -/
@[inline]
def stop (fault : Fault) : Action σ ε α :=
  throw (.faulted fault)

/-- Reads from the state, which stays as it is. -/
@[inline]
def inspect (view : σ → Except (Failure ε) α) : Action σ ε α := fun state =>
  match view state with
  | .ok value => .ok value state
  | .error failure => .error failure state

/-- Reads from the state what cannot be refused. -/
@[inline]
def peek (view : σ → Except Fault α) : Action σ ε α := fun state =>
  match view state with
  | .ok value => .ok value state
  | .error fault => .error (.faulted fault) state

/-- The outcome of a check that does not depend on the state. -/
@[inline]
def ofExcept (outcome : Except ε α) : Action σ ε α :=
  match outcome with
  | .ok value => pure value
  | .error cause => refuse cause

/-- The value, or a refusal if there is none. -/
@[inline]
def require (value : Option α) (cause : ε) : Action σ ε α :=
  match value with
  | some value => pure value
  | none => refuse cause

/-- The same action with its refusals seen as part of a larger error. -/
@[inline]
def mapCause (f : ε → δ) (action : Action σ ε α) : Action σ δ α := fun state =>
  match action state with
  | .ok value state => .ok value state
  | .error failure state => .error (failure.map f) state

/-- An action with a clean-up that runs, and comes before the refusal, if the action refuses. -/
@[inline]
def onRefusal (action : Action σ ε α) (cleanUp : Action σ ε Unit) : Action σ ε α := fun state =>
  match action state with
  | .ok value state => .ok value state
  | .error (.faulted fault) state => .error (.faulted fault) state
  | .error (.refused cause) state =>
      match cleanUp state with
      | .ok _ state => .error (.refused cause) state
      | .error failure state => .error failure state

/-- The answer of an action, with a refusal as a value. -/
@[inline]
def answer (action : Action σ ε α) : Action σ δ (Except ε α) := fun state =>
  match action state with
  | .ok value state => .ok (.ok value) state
  | .error (.refused cause) state => .ok (.error cause) state
  | .error (.faulted fault) state => .error (.faulted fault) state

/-- Acts on `count` consecutive numbers from `first` upward. -/
@[specialize]
def forRange (first count : Nat) (act : Nat → Action σ ε Unit) : Action σ ε Unit :=
  match count with
  | 0 => pure ()
  | count + 1 => do
      act first
      forRange (first + 1) count act

/-- Acts on the members of a list in order. -/
@[specialize]
def forEach (act : α → Action σ ε Unit) : List α → Action σ ε Unit
  | [] => pure ()
  | head :: tail => do
      act head
      forEach act tail

@[simp]
theorem forRange_zero (first : Nat) (act : Nat → Action σ ε Unit) :
    forRange first 0 act = pure () :=
  rfl

theorem forRange_succ (first count : Nat) (act : Nat → Action σ ε Unit) :
    forRange first (count + 1) act = (do act first; forRange (first + 1) count act) :=
  rfl

@[simp]
theorem forEach_nil (act : α → Action σ ε Unit) : forEach act [] = pure () :=
  rfl

theorem forEach_cons (act : α → Action σ ε Unit) (head : α) (tail : List α) :
    forEach act (head :: tail) = (do act head; forEach act tail) :=
  rfl

/-! ## When actions succeed -/

/-- A sequence succeeds exactly if both of its actions do, the second from where the first ends. -/
theorem bind_eq_ok_iff {first : Action σ ε α} {second : α → Action σ ε β} {start stop : σ}
    {result : β} :
    (first >>= second) start = .ok result stop ↔
      ∃ value middle, first start = .ok value middle ∧ second value middle = .ok result stop := by
  change EStateM.bind first second start = _ ↔ _
  unfold EStateM.bind
  cases first start with
  | ok value middle =>
      constructor
      · intro later
        exact ⟨value, middle, rfl, later⟩
      · rintro ⟨_, _, same, later⟩
        cases same
        exact later
  | error failure middle => simp

/-- A sequence fails where its first action fails, or where its second does. -/
theorem bind_eq_error_iff {first : Action σ ε α} {second : α → Action σ ε β} {start stop : σ}
    {failure : Failure ε} :
    (first >>= second) start = .error failure stop ↔
      first start = .error failure stop ∨
        ∃ value middle, first start = .ok value middle ∧
          second value middle = .error failure stop := by
  change EStateM.bind first second start = _ ↔ _
  unfold EStateM.bind
  cases first start with
  | ok value middle =>
      constructor
      · intro later
        exact .inr ⟨value, middle, rfl, later⟩
      · rintro (impossible | ⟨_, _, same, later⟩)
        · cases impossible
        · cases same
          exact later
  | error failure middle => simp

/-- A clean-up does not turn a refusal into success. -/
theorem onRefusal_eq_ok_iff {action : Action σ ε α} {cleanUp : Action σ ε Unit} {start stop : σ}
    {value : α} :
    action.onRefusal cleanUp start = .ok value stop ↔ action start = .ok value stop := by
  unfold onRefusal
  split
  · simp_all
  · simp_all
  · split <;> simp_all

theorem mapCause_eq_ok_iff {f : ε → δ} {action : Action σ ε α} {start stop : σ} {value : α} :
    action.mapCause f start = .ok value stop ↔ action start = .ok value stop := by
  unfold mapCause
  cases action start <;> simp

end Action

end PagingKernel
