import PagingKernel.Address
import PagingKernel.Trap.Frame

/-!
# The machine

What the kernel asks of the processor, and how it leaves the kernel: by
restoring the registers of a process, by stopping, or by waiting for good.
-/

namespace PagingKernel

/-- The state of the processor that the kernel sees and sets. -/
structure Machine where
  /-- Every directory that has been installed, the oldest first. -/
  loadedRoots : Array PhysAddr := #[]
  /-- The address whose access caused the last page fault. -/
  faultAddress : Nat := 0
  /-- Whether the operator asks for a stop. -/
  stopRequested : Bool := false
  /-- Timer interrupts in a second, once the timer has been started. -/
  timer : Option Nat := none
deriving DecidableEq, Repr

namespace Machine

/-- Makes a directory the one that translates addresses. -/
def loadDirectory (machine : Machine) (root : PhysAddr) : Machine :=
  { machine with loadedRoots := machine.loadedRoots.push root }

/-- The directory that translates addresses. -/
def activeRoot? (machine : Machine) : Option PhysAddr :=
  machine.loadedRoots.back?

/-- Starts the timer. -/
def startTimer (machine : Machine) (frequency : Nat) : Machine :=
  { machine with timer := some frequency }

@[simp]
theorem activeRoot?_loadDirectory (machine : Machine) (root : PhysAddr) :
    (machine.loadDirectory root).activeRoot? = some root := by
  simp [activeRoot?, loadDirectory]

end Machine

/-- How control leaves the kernel. -/
inductive Departure where
  /-- A process goes on with these registers. -/
  | resumed (frame : TrapFrame)
  /-- The machine stops. -/
  | halted
  /-- Nothing can run and no stop is asked for, so the kernel waits. -/
  | waiting
deriving DecidableEq, Repr

/-- What a machine without user mode reports in place of a departure. -/
def Departure.report : Departure → String
  | resumed frame =>
      "host machine cannot resume user mode (eip="
        ++ String.join (Text.Hex.number frame.eip.toNat) ++ ")"
  | halted => "host machine halted"
  | waiting => "host machine waiting"

end PagingKernel
