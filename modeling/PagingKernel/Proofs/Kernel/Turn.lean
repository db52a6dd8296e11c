import PagingKernel.Kernel.Trap
import PagingKernel.Proofs.Kernel.Coherent
import PagingKernel.Proofs.Kernel.Schedule
import PagingKernel.Proofs.Syscall.Calls

/-!
# What a trap does for its own process

The process that took a trap keeps the registers it trapped with, except for the
one in which a system call answers.  `Yields` says which registers those are, in
terms of what the trap did to the process table and to the caller's directory,
and `Turned` adds what it means for the slot and for the child of a fork.
-/

namespace PagingKernel

open PageTable

/-! ## Who goes on -/

/-- The trap passes the processor on: a tick, a yield, or a page fault of user code. -/
def TrapFrame.Reschedules (frame : TrapFrame) : Prop :=
  frame.vector = Interrupt.timer ∨ frame.vector = Interrupt.yield ∨
    frame.vector = Interrupt.pageFault ∧ (PageFaultCode.ofBits frame.errorCode.toNat).user = true

instance (frame : TrapFrame) : Decidable frame.Reschedules :=
  inferInstanceAs (Decidable (_ ∨ _ ∨ _ ∧ _))

/-- The choice of the scheduler as a decision. -/
def Dispatch.ofPick : Option Pid → Dispatch
  | some pid => .resume pid
  | none => .idle

/-- After a trap that reschedules the scheduler decides; after others the same process goes on. -/
def Dispatch.Follows (slot : Fin slotCount) (frame : TrapFrame) (tasks : ProcessTable)
    (next : Dispatch) : Prop :=
  next = if frame.Reschedules then .ofPick (Scheduler.pickNext tasks (.ofIndex slot))
    else .resume (.ofIndex slot)

/-! ## System calls by their vectors -/

/-- The interrupt vector with which a system call is made. -/
def Syscall.vector : Syscall → UInt32
  | getPid => Interrupt.getPid
  | pageAlloc => Interrupt.pageAlloc
  | fork => Interrupt.fork

/-- The vectors of the calls that answer their caller. -/
def answeringVectors : List UInt32 :=
  [Interrupt.getPid, Interrupt.pageAlloc, Interrupt.fork]

namespace SyscallTable

/-- The standard table has a call for the three vectors of calls. -/
theorem handles_standard {vector : UInt32} (unhandled : standard.handles vector = false) :
    vector ∉ answeringVectors := by
  intro listed
  simp only [answeringVectors, List.mem_cons, List.not_mem_nil, or_false] at listed
  rcases listed with rfl | rfl | rfl
  · exact absurd unhandled (by decide)
  · exact absurd unhandled (by decide)
  · exact absurd unhandled (by decide)

/-- In the standard table a call is made by its own vector only. -/
theorem vector_of_call? {vector : UInt32} {call : Syscall}
    (found : standard.call? vector = some call) : vector = call.vector := by
  obtain ⟨slot, inside, isCall⟩ := Option.bind_eq_some_iff.mp found
  have only : ∀ place : Fin callVectorCount, standard.calls[place] = some call →
      firstCallVector + place = call.vector.toNat := by
    cases call <;> decide
  have number := only slot isCall
  unfold slot? at inside
  split at inside
  · rename_i bounds
    have place := congrArg Fin.val (Option.some.inj inside)
    apply UInt32.toNat_inj.mp
    dsimp only at place
    omega
  · cases inside

end SyscallTable

namespace Kernel

variable {boot : Ledger} {books : Books} {kernel : Kernel} {slot : Fin slotCount}
  {view : SpaceView} {frame : TrapFrame}

/-! ## The registers after a trap -/

/-- The registers that a process finds when it next runs after a trap with registers `frame`.
Only a system call changes one of them: its answer is the caller's identifier, or whether a page
came to be mapped where it was asked for, or the identifier of the child, which starts with the
same registers and answer 0. -/
inductive Yields (slot : Fin slotCount) (frame : TrapFrame) (before after : Kernel) :
    TrapFrame → Prop
  | pid (asked : frame.vector = Interrupt.getPid) :
      Yields slot frame before after { frame with eax := (Pid.ofIndex slot).raw }
  | page (asked : frame.vector = Interrupt.pageAlloc) (mapping : Mapping)
      (absent : (before.directory slot).lookup before.resources.memory.ram ⟨frame.eax.toNat⟩ =
        .ok none)
      (present : (after.directory slot).lookup after.resources.memory.ram ⟨frame.eax.toNat⟩ =
        .ok (some mapping))
      (writable : mapping.flags.isUserWritable = true) :
      Yields slot frame before after { frame with eax := 0 }
  | noPage (asked : frame.vector = Interrupt.pageAlloc)
      (memory_eq : after.resources.memory = before.resources.memory) :
      Yields slot frame before after { frame with eax := Syscall.failedCall }
  | child (asked : frame.vector = Interrupt.fork) (child : Fin slotCount) (space : AddressSpace)
      (absent : (before.resources.tasks.process child).state = .free)
      (present : after.resources.tasks.process child =
        ⟨.runnable, { frame with eax := 0 }, some (.own space)⟩) :
      Yields slot frame before after { frame with eax := (Pid.ofIndex child).raw }
  | noChild (asked : frame.vector = Interrupt.fork)
      (others : ∀ other, other ≠ slot →
        after.resources.tasks.process other = before.resources.tasks.process other)
      (ledger_eq : after.resources.memory.ledger = before.resources.memory.ledger) :
      Yields slot frame before after { frame with eax := Syscall.failedCall }
  | unchanged (others : frame.vector ∉ answeringVectors) : Yields slot frame before after frame

/-- What a trap did for the process of a slot, and for a process that it may have created. -/
structure Turned (slot : Fin slotCount) (frame : TrapFrame) (before after : Kernel) : Prop where
  registers : Yields slot frame before after (after.resources.tasks.process slot).frame
  live : (after.resources.tasks.process slot).state ≠ .free
  stays : frame.vector ≠ Interrupt.pageFault →
    (after.resources.tasks.process slot).state = (before.resources.tasks.process slot).state
  current_eq : after.scheduler.current = before.scheduler.current
  filled : ∀ other, (before.resources.tasks.process other).state = .free →
    (after.resources.tasks.process other).state ≠ .free → frame.vector = Interrupt.fork ∧
      (after.resources.tasks.process other).frame = { frame with eax := 0 }

/-- The process with an answer in its register. -/
def withAnswer (process : Process) (answer : UInt32) : Process :=
  { process with frame := { process.frame with eax := answer } }

/-- The resources once a call is answered: the answer is in the register of its caller. -/
def answered (resources : Resources) (slot : Fin slotCount) (answer : UInt32)
    (console : Console) : Resources :=
  ⟨resources.memory,
    resources.tasks.put slot (withAnswer (resources.tasks.process slot) answer), console⟩

section Answers

variable {after : Resources} {console : Console} {call : Syscall}

theorem process_answered_self (answer : UInt32) :
    (answered after slot answer console).tasks.process slot =
      withAnswer (after.tasks.process slot) answer :=
  ProcessTable.process_put_self ..

theorem process_answered_of_ne {other : Fin slotCount} (apart : other ≠ slot) (answer : UInt32) :
    (answered after slot answer console).tasks.process other = after.tasks.process other :=
  ProcessTable.process_put_of_ne apart _

/-- An answer is put into a register of the caller, which otherwise stays what it is. -/
theorem turned_of_yields (saved : (kernel.resources.tasks.process slot).frame = frame)
    (same : after.tasks.process slot = kernel.resources.tasks.process slot) {answer : UInt32}
    (inUse : (kernel.resources.tasks.process slot).state ≠ .free)
    (registers : Yields slot frame kernel
      { kernel with resources := answered after slot answer console } { frame with eax := answer })
    (filled : ∀ other, other ≠ slot → (kernel.resources.tasks.process other).state = .free →
      (after.tasks.process other).state ≠ .free → frame.vector = Interrupt.fork ∧
        (after.tasks.process other).frame = { frame with eax := 0 }) :
    Turned slot frame kernel { kernel with resources := answered after slot answer console } where
  registers := by
    dsimp only
    rw [process_answered_self, same, withAnswer, saved]
    exact registers
  live := by
    dsimp only
    rw [process_answered_self, same]
    exact inUse
  stays _ := by
    dsimp only
    rw [process_answered_self, same]
    rfl
  current_eq := rfl
  filled := by
    intro other isFree isFilled
    have apart : other ≠ slot := by
      rintro rfl
      exact inUse isFree
    dsimp only at isFilled ⊢
    rw [process_answered_of_ne apart] at isFilled ⊢
    exact filled other apart isFree isFilled

/-- A call that is granted answers what it did. -/
theorem turned_of_granted (coherent : Coherent boot books kernel)
    (found : books.space slot = some view)
    (saved : (kernel.resources.tasks.process slot).frame = frame)
    (asked : frame.vector = call.vector) {child : Option (Fin slotCount)} {value : UInt32}
    (granted : Syscall.Granted view slot frame.eax kernel.resources after call child value) :
    Turned slot frame kernel { kernel with resources := answered after slot value console } := by
  have inUse : (kernel.resources.tasks.process slot).state ≠ .free := by
    rw [Ne, coherent.sound.live slot, found]
    simp
  cases granted with
  | getPid unchanged =>
      subst unchanged
      exact turned_of_yields saved rfl inUse (.pid asked)
        fun other _ isFree isFilled => absurd isFree isFilled
  | @pageAlloc place page allocated =>
      have sameTasks := allocated.tasks_eq
      have unfilled (other : Fin slotCount) (_ : other ≠ slot)
          (isFree : (kernel.resources.tasks.process other).state = .free)
          (isFilled : (after.tasks.process other).state ≠ .free) :
          frame.vector = Interrupt.fork ∧
            (after.tasks.process other).frame = { frame with eax := 0 } := by
        rw [sameTasks] at isFilled
        exact absurd isFree isFilled
      refine turned_of_yields saved (by rw [sameTasks]) inUse ?_ unfilled
      obtain ⟨atAddress, -⟩ := Syscall.requestedPage_eq_ok_iff.mp allocated.requested
      have stands := allocated.stands coherent.sound found
      have atRoot : Kernel.directory { kernel with resources := answered after slot 0 console }
          slot = ⟨.ofPage view.root⟩ := by
        rw [← coherent.directory_eq found, directory, directory, userSpace, userSpace]
        dsimp only
        rw [process_answered_self, sameTasks]
        rfl
      refine .page asked (Leaf.mapping ⟨page, true⟩) ?_ ?_ (by simp)
      · rw [coherent.directory_eq found, ← atAddress,
          (coherent.sound.stands slot view found).lookup_placeNumber, allocated.vacant]
        rfl
      · have listed := stands.lookup_placeNumber place
        rw [SpaceView.leaf_setLeaf_self, Option.map_some, SpaceView.setLeaf_root, atAddress]
          at listed
        rw [atRoot]
        exact listed
  | @fork free child next first forked =>
      obtain ⟨same, isSame, -, isFree⟩ := ProcessTable.firstFree?_eq_some first
      obtain rfl := ProcessTable.ofIndex_injective isSame
      have apart : free ≠ slot := by
        rintro rfl
        exact inUse isFree
      have atChild : after.tasks.process free = ⟨.runnable, { frame with eax := 0 },
          some (.own (child.space (.process (.ofIndex free))))⟩ := by
        rw [forked.tasks_eq, ProcessTable.process_put_self, saved]
      have present : (answered after slot (Pid.ofIndex free).raw console).tasks.process free = _ :=
        (process_answered_of_ne apart _).trans atChild
      refine turned_of_yields saved ?_ inUse (.child asked free _ isFree present) ?_
      · rw [forked.tasks_eq, ProcessTable.process_put_of_ne apart.symm]
      · intro other _ wasFree isFilled
        by_cases isChild : other = free
        · rw [isChild, atChild]
          exact ⟨asked, rfl⟩
        · rw [forked.tasks_eq, ProcessTable.process_put_of_ne isChild] at isFilled
          exact absurd wasFree isFilled

/-- A call that is refused answers that it failed. -/
theorem turned_of_refused (inUse : (kernel.resources.tasks.process slot).state ≠ .free)
    (saved : (kernel.resources.tasks.process slot).frame = frame)
    (asked : frame.vector = call.vector)
    (refused : Syscall.Refused kernel.resources after call) :
    Turned slot frame kernel
      { kernel with resources := answered after slot Syscall.failedCall console } := by
  cases refused with
  | pageAlloc unchanged =>
      subst unchanged
      exact turned_of_yields saved rfl inUse (.noPage asked rfl)
        fun other _ isFree isFilled => absurd isFree isFilled
  | fork next tasks_eq memory_eq =>
      refine turned_of_yields saved (by rw [tasks_eq]) inUse (.noChild asked ?_ ?_) ?_
      · intro other apart
        dsimp only
        rw [process_answered_of_ne apart, tasks_eq]
      · rw [answered, memory_eq]
      · intro other _ isFree isFilled
        rw [tasks_eq] at isFilled
        exact absurd isFree isFilled

end Answers

/-- A trap that is no call leaves the registers, and no slot is filled. -/
theorem turned_of_others (saved : (kernel.resources.tasks.process slot).frame = frame)
    (others : frame.vector ∉ answeringVectors) {after : Kernel}
    (current_eq : after.scheduler.current = kernel.scheduler.current) {process : Process}
    (tasks_eq : after.resources.tasks = kernel.resources.tasks.put slot process)
    (wasInUse : (kernel.resources.tasks.process slot).state ≠ .free)
    (inUse : process.state ≠ .free)
    (frame_eq : process.frame = (kernel.resources.tasks.process slot).frame)
    (stays : frame.vector ≠ Interrupt.pageFault →
      process.state = (kernel.resources.tasks.process slot).state) :
    Turned slot frame kernel after where
  registers := by
    rw [tasks_eq, ProcessTable.process_put_self, frame_eq, saved]
    exact .unchanged others
  live := by
    rw [tasks_eq, ProcessTable.process_put_self]
    exact inUse
  stays notFault := by
    rw [tasks_eq, ProcessTable.process_put_self]
    exact stays notFault
  current_eq := current_eq
  filled := by
    intro other isFree isFilled
    by_cases same : other = slot
    · rw [same] at isFree
      exact absurd isFree wasInUse
    · rw [tasks_eq, ProcessTable.process_put_of_ne same] at isFilled
      exact absurd isFree isFilled

section Saved

variable {machine : Machine}

/-- The kernel once the registers of the process of a slot are saved. -/
def saved (kernel : Kernel) (slot : Fin slotCount) (frame : TrapFrame) (machine : Machine) :
    Kernel :=
  { kernel with
    machine
    resources := ⟨kernel.resources.memory, kernel.resources.tasks.put slot
      { kernel.resources.tasks.process slot with frame }, kernel.resources.console⟩ }

theorem directory_saved (kernel : Kernel) (slot : Fin slotCount) (frame : TrapFrame)
    (machine : Machine) : (kernel.saved slot frame machine).directory slot =
      kernel.directory slot := by
  rw [directory, directory, userSpace, userSpace, saved]
  dsimp only
  rw [ProcessTable.process_put_self]
  rfl

theorem process_saved_of_ne {other : Fin slotCount} (apart : other ≠ slot) (frame : TrapFrame)
    (machine : Machine) : (kernel.saved slot frame machine).resources.tasks.process other =
      kernel.resources.tasks.process other :=
  ProcessTable.process_put_of_ne apart _

/-- The registers do not depend on whether those of the trap are saved before or after. -/
theorem Yields.of_saved {after : Kernel} {registers : TrapFrame}
    (inUse : (kernel.resources.tasks.process slot).state ≠ .free)
    (yields : Yields slot frame (kernel.saved slot frame machine) after registers) :
    Yields slot frame kernel after registers := by
  cases yields with
  | pid asked => exact .pid asked
  | page asked mapping absent present writable =>
      rw [directory_saved] at absent
      exact .page asked mapping absent present writable
  | noPage asked memory_eq => exact .noPage asked memory_eq
  | child asked child space absent present =>
      have apart : child ≠ slot := by
        rintro rfl
        rw [saved, ProcessTable.process_put_self] at absent
        exact inUse absent
      rw [process_saved_of_ne apart] at absent
      exact .child asked child space absent present
  | noChild asked others ledger_eq =>
      refine .noChild asked (fun other apart => ?_) ledger_eq
      rw [others other apart, process_saved_of_ne apart]
  | unchanged others => exact .unchanged others

/-- What a trap does once the registers are saved, it does from before. -/
theorem Turned.of_saved {after : Kernel}
    (inUse : (kernel.resources.tasks.process slot).state ≠ .free)
    (turned : Turned slot frame (kernel.saved slot frame machine) after) :
    Turned slot frame kernel after where
  registers := turned.registers.of_saved inUse
  live := turned.live
  stays notFault := by
    rw [turned.stays notFault, saved, ProcessTable.process_put_self]
  current_eq := turned.current_eq
  filled := by
    intro other isFree
    have apart : other ≠ slot := by
      rintro rfl
      exact inUse isFree
    have still := turned.filled other
    rw [process_saved_of_ne apart] at still
    exact still isFree

/-- What the processor reports with the trap does not matter. -/
theorem Turned.of_machine {after : Kernel}
    (turned : Turned slot frame { kernel with machine } after) :
    Turned slot frame kernel after where
  registers := by
    cases turned with
    | mk registers _ _ _ _ =>
        generalize (after.resources.tasks.process slot).frame = given at registers ⊢
        cases registers with
        | pid asked => exact .pid asked
        | page asked mapping absent present writable =>
            exact .page asked mapping absent present writable
        | noPage asked memory_eq => exact .noPage asked memory_eq
        | child asked child space absent present => exact .child asked child space absent present
        | noChild asked others ledger_eq => exact .noChild asked others ledger_eq
        | unchanged others => exact .unchanged others
  live := turned.live
  stays := turned.stays
  current_eq := turned.current_eq
  filled := turned.filled

end Saved

end Kernel

end PagingKernel
