import PagingKernel.Proofs.Run.Interference
import PagingKernel.Proofs.Run.Trace

/-!
# The life of a process

A process in use stays in use: once its slot is filled it is never free again.
It can run until a page fault breaks it, and a broken process never runs again.
-/

namespace PagingKernel.Run

variable {setting : Setting} {first state next last : State} {event : Event}
  {past : List Moment} {moment : Moment} {slot : Fin slotCount}

/-- The process of a slot can run. -/
def State.Runnable (state : State) (slot : Fin slotCount) : Prop :=
  (state.kernel.resources.tasks.process slot).state = .runnable

theorem State.Runnable.live (runnable : state.Runnable slot) : state.kernel.Live slot := by
  rw [Runnable] at runnable
  simp [Kernel.Live, runnable]

/-- Whoever has its turn can run. -/
theorem runnable_of_turn (reached : Reached setting state)
    (turn : state.phase.pid? = some (.ofIndex slot)) : state.Runnable slot := by
  obtain ⟨boot, books, -, regular⟩ := regular_of_reached reached
  have fits := regular.phase
  rcases state with ⟨kernel, phase⟩
  cases phase with
  | entering pid =>
      obtain rfl := Option.some.inj turn
      exact fits.runnable
  | user pid =>
      obtain rfl := Option.some.inj turn
      exact fits.1.runnable
  | idle => cases turn
  | stopped failure => cases turn

theorem State.Runnable.ne_reserved (runnable : state.Runnable slot)
    (reached : Reached setting state) : slot ≠ ProcessTable.reservedSlot := by
  obtain ⟨boot, books, -, regular⟩ := regular_of_reached reached
  exact regular.coherent.sound.ne_reserved runnable.live

/-- A step is the step of the process whose turn it is, and leaves the others alone. -/
theorem exists_mover (reached : Reached setting state) (step : Step state event next) :
    ∃ mover : Fin slotCount, state.phase.pid? = some (.ofIndex mover) ∧
      ∀ other, other ≠ mover → state.kernel.Live other →
        next.kernel.resources.tasks.process other = state.kernel.resources.tasks.process other := by
  obtain ⟨boot, books, -, regular⟩ := regular_of_reached reached
  obtain ⟨mover, turn, moved⟩ := regular.moved step
  exact ⟨mover, turn, fun other apart live => moved.process_eq apart live⟩

/-- A trap is taken by the process whose turn it is, or there is none. -/
theorem traps_or_calm (reached : Reached setting state) (step : Step state event next) :
    (∃ slot frame, Moment.TrapsWith ⟨state, event, next⟩ slot frame) ∨
      (∀ slot frame, ¬Moment.TrapsWith ⟨state, event, next⟩ slot frame) ∧
        next.kernel.resources.tasks = state.kernel.resources.tasks := by
  by_cases traps : ∃ slot frame, Moment.TrapsWith ⟨state, event, next⟩ slot frame
  · exact .inl traps
  · refine .inr ⟨fun slot frame given => traps ⟨slot, frame, given⟩, ?_⟩
    refine tasks_eq_of_not_trap reached step fun faultAddress frame isTrap => traps ?_
    subst isTrap
    obtain ⟨slot, given⟩ := exists_trapsWith reached step
    exact ⟨slot, frame, given⟩

theorem Moment.TrapsWith.turn {frame : TrapFrame} (traps : moment.TrapsWith slot frame) :
    moment.before.phase.pid? = some (.ofIndex slot) := by
  rw [traps.1]
  rfl

theorem Moment.TrapsWith.unique {other : Fin slotCount} {frame given : TrapFrame}
    (traps : moment.TrapsWith slot frame) (also : moment.TrapsWith other given) : other = slot := by
  have inUser := also.1
  rw [traps.1] at inUser
  exact (ProcessTable.ofIndex_injective (Phase.user.inj inUser)).symm

/-- A process in use stays in use. -/
theorem live_of_step (reached : Reached setting state) (step : Step state event next)
    (live : state.kernel.Live slot) : next.kernel.Live slot := by
  rcases traps_or_calm reached step with ⟨trapper, frame, traps⟩ | ⟨-, same⟩
  · by_cases isTrapper : slot = trapper
    · rw [isTrapper]
      exact (trapTaken_of_trapsWith reached step traps).turned.live
    · obtain ⟨mover, turn, others⟩ := exists_mover reached step
      obtain rfl := ProcessTable.ofIndex_injective (Option.some.inj (traps.turn.symm.trans turn))
      rw [Kernel.Live, others slot isTrapper live]
      exact live
  · rw [Kernel.Live, same]
    exact live

/-- A process that is in use and can run after a step could run before. -/
theorem runnable_of_step (reached : Reached setting state) (step : Step state event next)
    (live : state.kernel.Live slot) (runnable : next.Runnable slot) : state.Runnable slot := by
  obtain ⟨mover, turn, others⟩ := exists_mover reached step
  by_cases isMover : slot = mover
  · rw [isMover]
    exact runnable_of_turn reached turn
  · rw [State.Runnable, ← others slot isMover live]
    exact runnable

/-- A process that can run goes on being able to, unless it takes a page fault itself. -/
theorem runnable_after_step (reached : Reached setting state) (step : Step state event next)
    (runnable : state.Runnable slot)
    (noFault : ∀ frame, Moment.TrapsWith ⟨state, event, next⟩ slot frame →
      frame.vector ≠ Interrupt.pageFault) : next.Runnable slot := by
  rcases traps_or_calm reached step with ⟨trapper, frame, traps⟩ | ⟨-, same⟩
  · by_cases isTrapper : slot = trapper
    · subst isTrapper
      rw [State.Runnable,
        (trapTaken_of_trapsWith reached step traps).turned.stays (noFault frame traps)]
      exact runnable
    · obtain ⟨mover, turn, others⟩ := exists_mover reached step
      obtain rfl := ProcessTable.ofIndex_injective (Option.some.inj (traps.turn.symm.trans turn))
      rw [State.Runnable, others slot isTrapper runnable.live]
      exact runnable
  · rw [State.Runnable, same]
    exact runnable

theorem Trace.live (reached : Reached setting first) (trace : Trace first past last)
    (live : first.kernel.Live slot) : last.kernel.Live slot := by
  induction trace with
  | nil => exact live
  | @snoc past state next event trace step ih =>
      exact live_of_step (trace.reached reached) step ih

/-- A process that can run at the end of a trace, and was in use all along, could run all along. -/
theorem Trace.runnable (reached : Reached setting first) (trace : Trace first past last)
    (live : first.kernel.Live slot) (runnable : last.Runnable slot) :
    first.Runnable slot ∧ ∀ moment ∈ past, moment.after.Runnable slot := by
  induction trace with
  | nil => exact ⟨runnable, fun _ impossible => by cases impossible⟩
  | @snoc past state next event trace step ih =>
      have before :=
        runnable_of_step (trace.reached reached) step (trace.live reached live) runnable
      obtain ⟨atFirst, earlier⟩ := ih before
      refine ⟨atFirst, fun moment listed => ?_⟩
      rcases List.mem_append.mp listed with isEarlier | isLast
      · exact earlier moment isEarlier
      · obtain rfl := List.mem_singleton.mp isLast
        exact runnable

end PagingKernel.Run
