import PagingKernel.Proofs.Action.Ensures

/-!
# Actions that end alike

`Agree left right here there done refused` compares two actions, each run from
its own state: neither faults, both succeed with the same value or both refuse
for the same cause, and the states in which they end are related.

Where it is known exactly what each action ensures, agreement is a matter of
comparing the two statements, which is what `agree_of_ensures` does.  Otherwise
the laws of this module follow the way the actions are built.
-/

namespace PagingKernel.Action

variable {σ ε δ α β : Type}

/-- From `here` and `there` two actions end the same way, in states that are related. -/
def Agree (left right : Action σ ε α) (here there : σ) (done : α → σ → σ → Prop)
    (refused : ε → σ → σ → Prop) : Prop :=
  match left here, right there with
  | .ok value stop, .ok other last => value = other ∧ done value stop last
  | .error (.refused cause) stop, .error (.refused other) last => cause = other ∧
      refused cause stop last
  | _, _ => False

section Results

variable {left right : Action σ ε α} {here there : σ} {done : α → σ → σ → Prop}
  {refused : ε → σ → σ → Prop}

/-- Actions that agree end in one of the two ways together. -/
theorem agree_iff :
    Agree left right here there done refused ↔
      (∃ value stop last, left here = .ok value stop ∧ right there = .ok value last ∧
        done value stop last) ∨
      ∃ cause stop last, left here = .error (.refused cause) stop ∧
        right there = .error (.refused cause) last ∧ refused cause stop last := by
  unfold Agree
  constructor
  · intro agree
    cases ranLeft : left here with
    | ok value stop =>
        cases ranRight : right there with
        | ok other last =>
            rw [ranLeft, ranRight] at agree
            obtain ⟨rfl, held⟩ := agree
            exact .inl ⟨value, stop, last, rfl, rfl, held⟩
        | error failure last =>
            rw [ranLeft, ranRight] at agree
            exact agree.elim
    | error failure stop =>
        cases failure with
        | faulted fault =>
            rw [ranLeft] at agree
            exact agree.elim
        | refused cause =>
            cases ranRight : right there with
            | ok other last =>
                rw [ranLeft, ranRight] at agree
                exact agree.elim
            | error failure last =>
                cases failure with
                | faulted fault =>
                    rw [ranLeft, ranRight] at agree
                    exact agree.elim
                | refused other =>
                    rw [ranLeft, ranRight] at agree
                    obtain ⟨rfl, held⟩ := agree
                    exact .inr ⟨cause, stop, last, rfl, rfl, held⟩
  · rintro (⟨value, stop, last, ranLeft, ranRight, held⟩ |
      ⟨cause, stop, last, ranLeft, ranRight, held⟩)
    · rw [ranLeft, ranRight]
      exact ⟨rfl, held⟩
    · rw [ranLeft, ranRight]
      exact ⟨rfl, held⟩

theorem agree_of_eq_ok {value : α} {stop last : σ} (ranLeft : left here = .ok value stop)
    (ranRight : right there = .ok value last) (held : done value stop last) :
    Agree left right here there done refused :=
  agree_iff.mpr (.inl ⟨value, stop, last, ranLeft, ranRight, held⟩)

theorem agree_of_eq_error {cause : ε} {stop last : σ}
    (ranLeft : left here = .error (.refused cause) stop)
    (ranRight : right there = .error (.refused cause) last) (held : refused cause stop last) :
    Agree left right here there done refused :=
  agree_iff.mpr (.inr ⟨cause, stop, last, ranLeft, ranRight, held⟩)

/-- How two actions end may be related more weakly. -/
theorem Agree.mono {weakDone : α → σ → σ → Prop} {weakRefused : ε → σ → σ → Prop}
    (agree : Agree left right here there done refused)
    (onDone : ∀ value stop last, done value stop last → weakDone value stop last)
    (onRefused : ∀ cause stop last, refused cause stop last → weakRefused cause stop last) :
    Agree left right here there weakDone weakRefused := by
  rcases agree_iff.mp agree with
    ⟨value, stop, last, ranLeft, ranRight, held⟩ | ⟨cause, stop, last, ranLeft, ranRight, held⟩
  · exact agree_of_eq_ok ranLeft ranRight (onDone _ _ _ held)
  · exact agree_of_eq_error ranLeft ranRight (onRefused _ _ _ held)

/-- What each of two actions ensures adds to what relates their ends. -/
theorem Agree.ensures {leftDone rightDone : α → σ → Prop} {leftRefused rightRefused : ε → σ → Prop}
    (agree : Agree left right here there done refused)
    (onLeft : left.Ensures here leftDone leftRefused)
    (onRight : right.Ensures there rightDone rightRefused) :
    Agree left right here there
      (fun value stop last => done value stop last ∧ leftDone value stop ∧ rightDone value last)
      fun cause stop last => refused cause stop last ∧ leftRefused cause stop ∧
        rightRefused cause last := by
  rcases agree_iff.mp agree with
    ⟨value, stop, last, ranLeft, ranRight, held⟩ | ⟨cause, stop, last, ranLeft, ranRight, held⟩
  · exact agree_of_eq_ok ranLeft ranRight ⟨held, onLeft.done ranLeft, onRight.done ranRight⟩
  · exact agree_of_eq_error ranLeft ranRight
      ⟨held, onLeft.refused ranLeft, onRight.refused ranRight⟩

/-- Two actions agree if what they ensure leaves no choice. -/
theorem agree_of_ensures {leftDone rightDone : α → σ → Prop}
    {leftRefused rightRefused : ε → σ → Prop} (onLeft : left.Ensures here leftDone leftRefused)
    (onRight : right.Ensures there rightDone rightRefused)
    (both : ∀ value stop other last, leftDone value stop → rightDone other last →
      value = other ∧ done value stop last)
    (neither : ∀ cause stop other last, leftRefused cause stop → rightRefused other last →
      cause = other ∧ refused cause stop last)
    (leftOnly : ∀ value stop cause last, leftDone value stop → ¬rightRefused cause last)
    (rightOnly : ∀ cause stop value last, leftRefused cause stop → ¬rightDone value last) :
    Agree left right here there done refused := by
  rcases onLeft.cases with ⟨value, stop, ranLeft, held⟩ | ⟨cause, stop, ranLeft, held⟩
  · rcases onRight.cases with ⟨other, last, ranRight, also⟩ | ⟨other, last, ranRight, also⟩
    · obtain ⟨rfl, related⟩ := both _ _ _ _ held also
      exact agree_of_eq_ok ranLeft ranRight related
    · exact absurd also (leftOnly _ _ _ _ held)
  · rcases onRight.cases with ⟨other, last, ranRight, also⟩ | ⟨other, last, ranRight, also⟩
    · exact absurd also (rightOnly _ _ _ _ held)
    · obtain ⟨rfl, related⟩ := neither _ _ _ _ held also
      exact agree_of_eq_error ranLeft ranRight related

/-- Two actions that cannot be refused agree if what they ensure leaves no choice. -/
theorem agree_of_ensures_done {leftDone rightDone : α → σ → Prop}
    (onLeft : left.Ensures here leftDone fun _ _ => False)
    (onRight : right.Ensures there rightDone fun _ _ => False)
    (both : ∀ value stop other last, leftDone value stop → rightDone other last →
      value = other ∧ done value stop last) :
    Agree left right here there done refused :=
  agree_of_ensures onLeft onRight both (fun _ _ _ _ impossible => impossible.elim)
    (fun _ _ _ _ _ => id) fun _ _ _ _ impossible => impossible.elim

/-- Two actions that are refused agree if what they ensure leaves no choice. -/
theorem agree_of_ensures_refused {leftRefused rightRefused : ε → σ → Prop}
    (onLeft : left.Ensures here (fun _ _ => False) leftRefused)
    (onRight : right.Ensures there (fun _ _ => False) rightRefused)
    (neither : ∀ cause stop other last, leftRefused cause stop → rightRefused other last →
      cause = other ∧ refused cause stop last) :
    Agree left right here there done refused :=
  agree_of_ensures onLeft onRight (fun _ _ _ _ impossible => impossible.elim) neither
    (fun _ _ _ _ impossible => impossible.elim) fun _ _ _ _ _ => id

/-! ## Single actions -/

theorem agree_pure {value : α} (held : done value here there) :
    Agree (pure value) (pure value) here there done refused :=
  agree_of_eq_ok rfl rfl held

theorem agree_refuse {cause : ε} (held : refused cause here there) :
    Agree (refuse cause) (refuse cause) here there done refused :=
  agree_of_eq_error rfl rfl held

theorem agree_require_some {value : α} {cause : ε} (held : done value here there) :
    Agree (require (some value) cause) (require (some value) cause) here there done refused :=
  agree_of_eq_ok rfl rfl held

theorem agree_require_none {cause : ε} (held : refused cause here there) :
    Agree (require none cause : Action σ ε α) (require none cause) here there done refused :=
  agree_of_eq_error rfl rfl held

theorem agree_ofExcept_ok {value : α} (held : done value here there) :
    Agree (ofExcept (.ok value) : Action σ ε α) (ofExcept (.ok value)) here there done refused :=
  agree_of_eq_ok rfl rfl held

theorem agree_ofExcept_error {cause : ε} (held : refused cause here there) :
    Agree (ofExcept (.error cause) : Action σ ε α) (ofExcept (.error cause)) here there done
      refused :=
  agree_of_eq_error rfl rfl held

end Results

/-! ## Sequences -/

section Sequences

variable {here there : σ}

/-- Sequences agree if their first actions do, and then what follows. -/
theorem agree_bind {left right : Action σ ε α} {leftNext rightNext : α → Action σ ε β}
    {done : β → σ → σ → Prop} {refused : ε → σ → σ → Prop}
    (agree : Agree left right here there
      (fun value stop last => Agree (leftNext value) (rightNext value) stop last done refused)
      refused) :
    Agree (left >>= leftNext) (right >>= rightNext) here there done refused := by
  rcases agree_iff.mp agree with
    ⟨value, stop, last, ranLeft, ranRight, held⟩ | ⟨cause, stop, last, ranLeft, ranRight, held⟩
  · rcases agree_iff.mp held with
      ⟨result, final, finalLast, nextLeft, nextRight, also⟩ |
      ⟨cause, final, finalLast, nextLeft, nextRight, also⟩
    · exact agree_of_eq_ok (bind_eq_ok_iff.mpr ⟨value, stop, ranLeft, nextLeft⟩)
        (bind_eq_ok_iff.mpr ⟨value, last, ranRight, nextRight⟩) also
    · exact agree_of_eq_error (bind_eq_error_iff.mpr (.inr ⟨value, stop, ranLeft, nextLeft⟩))
        (bind_eq_error_iff.mpr (.inr ⟨value, last, ranRight, nextRight⟩)) also
  · exact agree_of_eq_error (bind_eq_error_iff.mpr (.inl ranLeft))
      (bind_eq_error_iff.mpr (.inl ranRight)) held

section Reads

variable {leftNext rightNext : α → Action σ ε β} {done : β → σ → σ → Prop}
  {refused : ε → σ → σ → Prop}

/-- Each action reads its own state. -/
theorem agree_get_bind {leftNext rightNext : σ → Action σ ε β}
    (agree : Agree (leftNext here) (rightNext there) here there done refused) :
    Agree (get >>= leftNext) (get >>= rightNext) here there done refused :=
  agree

/-- Both actions read the same value. -/
theorem agree_peek_bind {view : σ → Except Fault α} {value : α} (seenHere : view here = .ok value)
    (seenThere : view there = .ok value)
    (agree : Agree (leftNext value) (rightNext value) here there done refused) :
    Agree (peek view >>= leftNext) (peek view >>= rightNext) here there done refused := by
  refine agree_bind (agree_of_eq_ok ?_ ?_ agree)
  · rw [peek, seenHere]
  · rw [peek, seenThere]

end Reads

/-- A larger error is the same if the smaller is. -/
theorem agree_mapCause {left right : Action σ ε α} {f : ε → δ} {done : α → σ → σ → Prop}
    {refused : δ → σ → σ → Prop}
    (agree : Agree left right here there done fun cause stop last => refused (f cause) stop last) :
    Agree (left.mapCause f) (right.mapCause f) here there done refused := by
  rcases agree_iff.mp agree with
    ⟨value, stop, last, ranLeft, ranRight, held⟩ | ⟨cause, stop, last, ranLeft, ranRight, held⟩
  · exact agree_of_eq_ok (mapCause_eq_ok_iff.mpr ranLeft) (mapCause_eq_ok_iff.mpr ranRight) held
  · refine agree_of_eq_error ?_ ?_ held
    · rw [mapCause, ranLeft]
      rfl
    · rw [mapCause, ranRight]
      rfl

/-- Where a refusal is followed by a clean-up, the clean-ups have to agree. -/
theorem agree_onRefusal {left right : Action σ ε α} {leftCleanUp rightCleanUp : Action σ ε Unit}
    {done : α → σ → σ → Prop} {refused : ε → σ → σ → Prop}
    (agree : Agree left right here there done fun cause stop last =>
      Agree leftCleanUp rightCleanUp stop last (fun _ => refused cause) refused) :
    Agree (left.onRefusal leftCleanUp) (right.onRefusal rightCleanUp) here there done refused := by
  rcases agree_iff.mp agree with
    ⟨value, stop, last, ranLeft, ranRight, held⟩ | ⟨cause, stop, last, ranLeft, ranRight, held⟩
  · exact agree_of_eq_ok (onRefusal_eq_ok_iff.mpr ranLeft) (onRefusal_eq_ok_iff.mpr ranRight) held
  · rcases agree_iff.mp held with
      ⟨_, final, finalLast, cleanLeft, cleanRight, also⟩ |
      ⟨other, final, finalLast, cleanLeft, cleanRight, also⟩
    · refine agree_of_eq_error ?_ ?_ also
      · simp only [onRefusal, ranLeft, cleanLeft]
      · simp only [onRefusal, ranRight, cleanRight]
    · refine agree_of_eq_error ?_ ?_ also
      · simp only [onRefusal, ranLeft, cleanLeft]
      · simp only [onRefusal, ranRight, cleanRight]

/-- The answers are the same if values and causes are. -/
theorem agree_answer {left right : Action σ ε α} {done : Except ε α → σ → σ → Prop}
    {refused : δ → σ → σ → Prop}
    (agree : Agree left right here there (fun value => done (.ok value))
      fun cause => done (.error cause)) :
    Agree (left.answer : Action σ δ (Except ε α)) right.answer here there done refused := by
  rcases agree_iff.mp agree with
    ⟨value, stop, last, ranLeft, ranRight, held⟩ | ⟨cause, stop, last, ranLeft, ranRight, held⟩
  · refine agree_of_eq_ok ?_ ?_ held
    · simp only [answer, ranLeft]
    · simp only [answer, ranRight]
  · refine agree_of_eq_ok ?_ ?_ held
    · simp only [answer, ranLeft]
    · simp only [answer, ranRight]

end Sequences

/-! ## Repetition -/

/-- A range is gone through on both sides with a relation that holds before each number. -/
theorem agree_forRange {act : Nat → Action σ ε Unit} {refused : ε → σ → σ → Prop}
    (relation : Nat → σ → σ → Prop) {first count : Nat} {here there : σ}
    (initial : relation first here there)
    (step : ∀ number stop last, first ≤ number → number < first + count →
      relation number stop last →
      Agree (act number) (act number) stop last (fun _ => relation (number + 1)) refused) :
    Agree (forRange first count act) (forRange first count act) here there
      (fun _ => relation (first + count)) refused := by
  induction count generalizing first here there with
  | zero => exact agree_pure initial
  | succ count ih =>
      rw [forRange_succ]
      refine agree_bind ((step first here there (Nat.le_refl _) (by omega) initial).mono ?_
        fun _ _ _ held => held)
      intro _ stop last held
      rw [show first + (count + 1) = first + 1 + count by omega]
      exact ih held fun number stop last above below => step number stop last (by omega) (by omega)

/-- A list is gone through on both sides with a relation that knows which members are done.  The
induction is on what is left of the list. -/
theorem agree_forEach {act : α → Action σ ε Unit} {refused : ε → σ → σ → Prop}
    (relation : List α → σ → σ → Prop) {members : List α} {here there : σ}
    (initial : relation [] here there)
    (step : ∀ earlier member later stop last, members = earlier ++ member :: later →
      relation earlier stop last →
      Agree (act member) (act member) stop last (fun _ => relation (earlier ++ [member]))
        refused) :
    Agree (forEach act members) (forEach act members) here there (fun _ => relation members)
      refused := by
  suffices rest : ∀ later earlier stop last, members = earlier ++ later →
      relation earlier stop last →
      Agree (forEach act later) (forEach act later) stop last (fun _ => relation members)
        refused from rest members [] here there rfl initial
  intro later
  induction later with
  | nil =>
      intro earlier stop last split held
      rw [List.append_nil] at split
      subst split
      exact agree_pure held
  | cons member later ih =>
      intro earlier stop last split held
      rw [forEach_cons]
      refine agree_bind ((step earlier member later stop last split held).mono ?_
        fun _ _ _ held => held)
      intro _ stop last held
      exact ih (earlier ++ [member]) stop last (by simp [split]) held

attribute [irreducible] Agree

end PagingKernel.Action
