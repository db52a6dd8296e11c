import PagingKernel.Proofs.Run.Regular

/-!
# Traces of runs

A trace lists the steps that lead from one state of a run to another, each with
the states before and after it.  What holds of a run as a whole is said of its
traces: that something happened last, or in between, or never.
-/

namespace PagingKernel.Run

/-- A run that has just begun: the kernel is up and has started its workload. -/
inductive Initial (setting : Setting) : State → Prop
  | start {kernel started : Kernel} {pid : Pid}
      (booted : Kernel.boot setting.machine setting.ram setting.programs setting.layout =
        .ok kernel)
      (created : Kernel.start (.ofCommand setting.command) kernel = .ok pid started) :
      Initial setting ⟨started, .entering pid⟩

/-- A step of a run with the states before and after it. -/
structure Moment where
  /-- The state before the step. -/
  before : State
  /-- What happens in the step. -/
  event : Event
  /-- The state after the step. -/
  after : State

/-- The steps that lead from a state to another, in the order in which they are taken. -/
inductive Trace (first : State) : List Moment → State → Prop
  | nil : Trace first [] first
  | snoc {past : List Moment} {state next : State} {event : Event}
      (trace : Trace first past state) (step : Step state event next) :
      Trace first (past ++ [⟨state, event, next⟩]) next

variable {setting : Setting} {first last : State} {past : List Moment} {moment : Moment}

theorem Initial.reached (initial : Initial setting first) : Reached setting first := by
  cases initial with
  | start booted created => exact .start booted created

namespace Trace

theorem reached (reached : Reached setting first) (trace : Trace first past last) :
    Reached setting last := by
  induction trace with
  | nil => exact reached
  | snoc trace step ih => exact ih.step step

/-- Every step of a trace is a step of the run. -/
theorem step_of_mem (reached : Reached setting first) (trace : Trace first past last)
    (listed : moment ∈ past) :
    Reached setting moment.before ∧ Step moment.before moment.event moment.after := by
  induction trace with
  | nil => cases listed
  | snoc trace step ih =>
      rcases List.mem_append.mp listed with earlier | isLast
      · exact ih earlier
      · obtain rfl := List.mem_singleton.mp isLast
        exact ⟨trace.reached reached, step⟩

theorem of_snoc (trace : Trace first (past ++ [moment]) last) :
    Trace first past moment.before ∧ Step moment.before moment.event moment.after ∧
      moment.after = last := by
  generalize whole : past ++ [moment] = all at trace
  cases trace with
  | nil => simp at whole
  | snoc trace step =>
      obtain ⟨rfl, same⟩ := List.append_inj' whole rfl
      obtain rfl := List.singleton_inj.mp same
      exact ⟨trace, step, rfl⟩

/-- A trace, which grows at its end, may be cut anywhere: its later part is taken off. -/
theorem of_append {late : List Moment} (trace : Trace first (past ++ late) last) :
    ∃ middle, Trace first past middle ∧ Trace middle late last := by
  induction late using List.reverseRecOn generalizing last with
  | nil =>
      rw [List.append_nil] at trace
      exact ⟨last, trace, .nil⟩
  | append_singleton late moment ih =>
      rw [← List.append_assoc] at trace
      obtain ⟨early, step, rfl⟩ := trace.of_snoc
      obtain ⟨middle, before, after⟩ := ih early
      exact ⟨middle, before, after.snoc step⟩

theorem of_nil (trace : Trace first [] last) : first = last := by
  generalize nothing : ([] : List Moment) = all at trace
  cases trace with
  | nil => rfl
  | snoc trace step => simp at nothing

theorem of_cons (trace : Trace first (moment :: past) last) :
    first = moment.before ∧ Step moment.before moment.event moment.after ∧
      Trace moment.after past last := by
  have split : Trace first ([moment] ++ past) last := trace
  obtain ⟨middle, single, rest⟩ := split.of_append
  have alone : Trace first ([] ++ [moment]) middle := single
  obtain ⟨nothing, step, rfl⟩ := alone.of_snoc
  exact ⟨nothing.of_nil, step, rest⟩

end Trace

/-! ## Traps in a trace -/

/-- User code of a slot traps with these registers. -/
def Moment.TrapsWith (moment : Moment) (slot : Fin slotCount) (frame : TrapFrame) : Prop :=
  moment.before.phase = .user (.ofIndex slot) ∧
    ∃ faultAddress, moment.event = .trap faultAddress frame

/-- The process of a slot never trapped. -/
def Untrapped (past : List Moment) (slot : Fin slotCount) : Prop :=
  ∀ moment ∈ past, ∀ frame, ¬moment.TrapsWith slot frame

theorem Untrapped.snoc {slot : Fin slotCount} (untrapped : Untrapped past slot)
    (calm : ∀ frame, ¬moment.TrapsWith slot frame) : Untrapped (past ++ [moment]) slot := by
  intro other listed
  rcases List.mem_append.mp listed with earlier | isLast
  · exact untrapped other earlier
  · obtain rfl := List.mem_singleton.mp isLast
    exact calm

/-- A trap is taken by the user code of a slot. -/
theorem exists_trapsWith {state next : State} {faultAddress : Nat} {frame : TrapFrame}
    (reached : Reached setting state) (step : Step state (.trap faultAddress frame) next) :
    ∃ slot, Moment.TrapsWith ⟨state, .trap faultAddress frame, next⟩ slot frame := by
  obtain ⟨boot, books, -, regular⟩ := regular_of_reached reached
  cases step with
  | trap kernel pid faultAddress frame =>
      obtain ⟨⟨slot, rfl, -⟩, -⟩ := regular.phase
      exact ⟨slot, rfl, faultAddress, rfl⟩

/-- A trap that a run takes does what `TrapTaken` says. -/
theorem trapTaken_of_trapsWith {slot : Fin slotCount} {frame : TrapFrame}
    (reached : Reached setting moment.before)
    (step : Step moment.before moment.event moment.after) (traps : moment.TrapsWith slot frame) :
    TrapTaken slot frame moment.before moment.after := by
  obtain ⟨boot, books, -, regular⟩ := regular_of_reached reached
  rcases moment with ⟨before, event, after⟩
  rcases traps with ⟨inUser, faultAddress, isTrap⟩
  dsimp only at inUser isTrap step regular ⊢
  subst isTrap
  cases step with
  | trap kernel pid faultAddress frame =>
      obtain rfl : pid = .ofIndex slot := Phase.user.inj inUser
      exact trapTaken regular faultAddress frame

/-- A step that is no trap leaves the process table alone. -/
theorem tasks_eq_of_not_trap {state next : State} {event : Event} (reached : Reached setting state)
    (step : Step state event next)
    (noTrap : ∀ faultAddress frame, event ≠ .trap faultAddress frame) :
    next.kernel.resources.tasks = state.kernel.resources.tasks := by
  obtain ⟨boot, books, -, regular⟩ := regular_of_reached reached
  cases step with
  | enter kernel pid =>
      obtain ⟨slot, rfl, -, runnable⟩ := regular.phase
      rcases (Kernel.ensures_switchTo Fatal runnable).cases with
          ⟨_, _, ran, -, rfl⟩ | ⟨_, _, -, impossible⟩
      · rw [ran]
        rfl
      · exact impossible.elim
  | store kernel slot address byte mapping permitted =>
      have fits : Dispatch.Fits kernel.resources.tasks (.resume (.ofIndex slot)) := regular.phase.1
      have inUse : (kernel.resources.tasks.process slot).state ≠ .free := by simp [fits.runnable]
      obtain ⟨view, found⟩ := regular.coherent.sound.exists_space inUse
      obtain ⟨page, onPage, -⟩ := openTo_of_mayStore regular found permitted
      rcases (ensures_storeByte onPage ⟨address.toNat⟩ byte).cases with
        ⟨_, _, ran, ram, rfl, -⟩ | ⟨_, _, -, impossible⟩
      · rw [ran]
        rfl
      · exact impossible.elim
  | trap kernel pid faultAddress frame => exact absurd rfl (noTrap faultAddress frame)

end PagingKernel.Run
