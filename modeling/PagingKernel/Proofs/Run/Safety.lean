import PagingKernel.Proofs.Run.Underway

/-!
# Runs are safe

Whatever programs store and whatever registers they trap with, the kernel never
faults, its check never finds anything, and a process that is to run can run.
-/

namespace PagingKernel.Run

variable {setting : Setting} {state next : State} {event : Event}

/-- A step ended as it should.  A process that is to run is a runnable one behind the reserved
slot, no process runs only if none is runnable, and the kernel stops only at a trap, for one of
three causes that the trap accounts for. -/
def Safe (event : Event) (next : State) : Prop :=
  match next.phase with
  | .entering pid | .user pid => 1 ≤ pid.index ∧ pid.index < slotCount ∧
      next.kernel.resources.tasks.state? pid = some .runnable
  | .idle => ∀ pid, next.kernel.resources.tasks.state? pid ≠ some .runnable
  | .stopped failure => ∃ cause faultAddress frame, failure = .refused cause ∧
      event = .trap faultAddress frame ∧ cause.Justified frame

/-- Who runs next is named by the number of a slot that holds a runnable process. -/
theorem state?_of_fits {tasks : ProcessTable} {pid : Pid}
    (fits : Dispatch.Fits tasks (.resume pid)) :
    1 ≤ pid.index ∧ pid.index < slotCount ∧ tasks.state? pid = some .runnable := by
  rcases fits with ⟨slot, rfl, notReserved, runnable⟩
  have small : slot.val < UInt32.size := Nat.lt_trans slot.isLt (by decide)
  rw [Pid.index_ofIndex small, ProcessTable.state?, ProcessTable.get?_ofIndex, Option.map_some,
    runnable]
  refine ⟨?_, slot.isLt, rfl⟩
  by_contra zero
  exact notReserved (Fin.ext (show slot.val = 0 by omega))

theorem state?_of_idle {tasks : ProcessTable} (fits : Dispatch.Fits tasks .idle) (pid : Pid) :
    tasks.state? pid ≠ some .runnable := by
  intro runnable
  rw [ProcessTable.state?, ProcessTable.get?, Option.map_map] at runnable
  obtain ⟨slot, -, isRunnable⟩ := Option.map_eq_some_iff.mp runnable
  exact fits slot isRunnable

/-- Every step of every run ends as it should. -/
theorem steps_are_safe (reached : Reached setting state) (step : Step state event next) :
    Safe event next := by
  obtain ⟨boot, books, -, regular⟩ := regular_of_reached reached
  obtain ⟨slot, -, moved⟩ := regular.moved step
  rcases next with ⟨kernel, phase⟩
  have fits := moved.phase
  cases phase with
  | entering pid => exact state?_of_fits fits
  | user pid => exact state?_of_fits fits.1
  | idle => exact state?_of_idle fits
  | stopped failure =>
      rcases fits with ⟨cause, rfl⟩
      obtain ⟨faultAddress, frame, isTrap, justified⟩ := moved.justified cause rfl
      exact ⟨cause, faultAddress, frame, rfl, isTrap, justified⟩

/-- A run from blank memory reaches user code, which forks safely. -/
theorem small_fork_is_safe :
    ∃ state next, Reached .small state ∧
      Step state (.trap 0 forkFrame) next ∧
      Safe (.trap 0 forkFrame) next := by
  obtain ⟨kernel, slot, reached, -⟩ := Setting.suitable_small.exists_running
  have step := Step.trap kernel (.ofIndex slot) 0 forkFrame
  exact ⟨_, _, reached, step, steps_are_safe reached step⟩

end PagingKernel.Run
