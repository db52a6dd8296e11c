import PagingKernel.Resources

/-!
# The scheduler

Processes take turns.  The next one to run is the first runnable one behind the
current one, going round the table once; the current one comes last.
-/

namespace PagingKernel

/-- Who runs, and how many timer interrupts there have been. -/
structure Scheduler where
  /-- The process that ran when the last trap arrived. -/
  current : Pid := .reserved
  /-- Timer interrupts so far, modulo 2^64. -/
  ticks : UInt64 := 0
deriving DecidableEq, Repr

namespace Scheduler

/-- The slot that lies `distance` slots behind another, going round the table. -/
def slotAfter (current : Pid) (distance : Nat) : Pid :=
  .ofIndex ((current.index + distance) % slotCount)

/-- The first runnable process behind the current one, which itself is tried last. -/
def pickNext (table : ProcessTable) (current : Pid) : Option Pid :=
  ((List.range' 1 slotCount).map (slotAfter current)).find? fun pid =>
    table.state? pid = some .runnable

/-- The scheduler with another process running. -/
def setCurrent (scheduler : Scheduler) (pid : Pid) : Scheduler :=
  { scheduler with current := pid }

/-- The scheduler after one more timer interrupt. -/
def tick (scheduler : Scheduler) : Scheduler :=
  { scheduler with ticks := scheduler.ticks + 1 }

/-- Chooses the next process and reports the choice. -/
def choose {ε : Type} (scheduler : Scheduler) : Action Resources ε (Option Pid) := do
  match pickNext (← get).tasks scheduler.current with
  | none => return none
  | some pid =>
      Resources.report (.picked pid scheduler.current)
      return some pid

end Scheduler

end PagingKernel
