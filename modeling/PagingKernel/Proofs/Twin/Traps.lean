import PagingKernel.Proofs.Kernel.Handle
import PagingKernel.Proofs.Twin.Calls
import PagingKernel.Proofs.Twin.Strings

/-!
# Traps in two memories

Two kernels are twins if they are alike and agree with the same books.  Twins
handle a trap alike and are twins afterwards, except that a message which a
process asks to be shown from the page of the console is what memory held there.
-/

namespace PagingKernel

open PageTable PagingKernel.Action

namespace Kernel

/-- Kernels that differ in memory and console at most, and whose memories are alike. -/
structure Alike (boot : Ledger) (left right : Kernel) : Prop where
  machine_eq : left.machine = right.machine
  programs_eq : left.programs = right.programs
  space_eq : left.space = right.space
  scheduler_eq : left.scheduler = right.scheduler
  syscalls_eq : left.syscalls = right.syscalls
  resources : Resources.Alike boot left.resources right.resources

/-- Kernels that are alike, and agree with the same books. -/
structure Twin (boot : Ledger) (books : Books) (left right : Kernel) : Prop where
  alike : Alike boot left right
  onLeft : Coherent boot books left
  onRight : Coherent boot books right

/-- Two kernels are twins if some books agree with both. -/
def Twins (boot : Ledger) (left right : Kernel) : Prop :=
  ∃ books, Twin boot books left right

/-! ## Actions on parts of the kernel -/

section Parts

variable {ε α : Type} {left right : Kernel} {refused : ε → Kernel → Kernel → Prop}

theorem agree_onResources {here there : Action Resources ε α} {done : α → Kernel → Kernel → Prop}
    (agree : Agree here there left.resources right.resources
      (fun value leftNext rightNext =>
        done value { left with resources := leftNext } { right with resources := rightNext })
      fun cause leftNext rightNext =>
        refused cause { left with resources := leftNext } { right with resources := rightNext }) :
    Agree (onResources here) (onResources there) left right done refused := by
  rcases agree_iff.mp agree with
    ⟨value, stop, last, ranLeft, ranRight, held⟩ | ⟨cause, stop, last, ranLeft, ranRight, held⟩
  · refine agree_of_eq_ok ?_ ?_ held
    · simp only [onResources, ranLeft]
    · simp only [onResources, ranRight]
  · refine agree_of_eq_error ?_ ?_ held
    · simp only [onResources, ranLeft]
    · simp only [onResources, ranRight]

theorem agree_modifyMachine {change : Machine → Machine} {done : Unit → Kernel → Kernel → Prop}
    (held : done () { left with machine := change left.machine }
      { right with machine := change right.machine }) :
    Agree (modifyMachine change) (modifyMachine change) left right done refused :=
  agree_of_eq_ok rfl rfl held

theorem agree_modifyScheduler {change : Scheduler → Scheduler}
    {done : Unit → Kernel → Kernel → Prop}
    (held : done () { left with scheduler := change left.scheduler }
      { right with scheduler := change right.scheduler }) :
    Agree (modifyScheduler change) (modifyScheduler change) left right done refused :=
  agree_of_eq_ok rfl rfl held

end Parts

variable {boot : Ledger} {books other : Books} {left right : Kernel} {slot : Fin slotCount}
  {frame : TrapFrame}

/-- Kernels that are alike agree with the same books, if each agrees with some. -/
theorem Alike.twin (alike : Alike boot left right) (onLeft : Coherent boot books left)
    (onRight : Coherent boot other right) : Twin boot books left right := by
  have sameRoot : books.kernelRoot = other.kernelRoot := by
    have same := alike.space_eq
    rw [onLeft.space_eq, onRight.space_eq] at same
    exact PhysAddr.ofPage_inj.mp (congrArg AddressSpace.root same)
  obtain rfl := alike.resources.books_eq onLeft.sound onRight.sound sameRoot
  exact ⟨alike, onLeft, onRight⟩

theorem Alike.twins (alike : Alike boot left right) (onLeft : Coherent boot books left)
    (onRight : Coherent boot other right) : Twins boot left right :=
  ⟨books, alike.twin onLeft onRight⟩

/-- The consistency check is passed by both. -/
theorem Twins.agree_check {ε : Type} {change : InvariantViolation → ε}
    {done : Unit → Kernel → Kernel → Prop} {refused : ε → Kernel → Kernel → Prop}
    (twins : Twins boot left right) (held : done () left right) :
    Agree ((inspect check).mapCause change) ((inspect check).mapCause change) left right done
      refused := by
  obtain ⟨books, -, onLeft, onRight⟩ := twins
  have passedLeft : inspect check left = .ok () left := by
    rw [inspect, onLeft.check_eq_ok]
  have passedRight : inspect check right = .ok () right := by
    rw [inspect, onRight.check_eq_ok]
  exact agree_mapCause (agree_of_eq_ok passedLeft passedRight held)

/-- The same change of the processor leaves twins. -/
theorem Twin.withMachine (twin : Twin boot books left right) (change : Machine → Machine) :
    Twin boot books { left with machine := change left.machine }
      { right with machine := change right.machine } where
  alike := ⟨congrArg change twin.alike.machine_eq, twin.alike.programs_eq, twin.alike.space_eq,
    twin.alike.scheduler_eq, twin.alike.syscalls_eq, twin.alike.resources⟩
  onLeft := twin.onLeft.withMachine _
  onRight := twin.onRight.withMachine _

/-- Kernels that are alike stay so with other resources that are alike. -/
theorem Alike.of_resources (alike : Alike boot left right) {leftNext rightNext : Resources}
    (resources : Resources.Alike boot leftNext rightNext) :
    Alike boot { left with resources := leftNext } { right with resources := rightNext } :=
  ⟨alike.machine_eq, alike.programs_eq, alike.space_eq, alike.scheduler_eq, alike.syscalls_eq,
    resources⟩

/-! ## Messages -/

/-- The frame asks for no message from the page of the console. -/
def Discreet (frame : TrapFrame) : Prop :=
  frame.vector = Interrupt.panic → (⟨frame.eax.toNat⟩ : VirtAddr).pageBase ≠ ⟨consoleAddress⟩

/-- A message that does not begin in the console is the same in twins. -/
theorem Twin.userMessage_eq (twin : Twin boot books left right) {view : SpaceView}
    (found : books.space slot = some view) {pointer : UInt32}
    (apart : (⟨pointer.toNat⟩ : VirtAddr).pageBase ≠ ⟨consoleAddress⟩) :
    left.userMessage (.ofIndex slot) pointer = right.userMessage (.ofIndex slot) pointer := by
  have sound := twin.onLeft.sound
  have same (place : Fin processPageCount) (leaf : Leaf) (mapped : view.leaf place = some leaf) :
      Ram.SamePage left.resources.memory.ram right.resources.memory.ram leaf.page :=
    twin.alike.resources.samePage sound
      ((SpaceView.refs_leaf_pos mapped).trans_le (Books.refs_le found))
  have read := (sound.stands slot view found).readStringFrom_eq_of_same
    (twin.onRight.sound.stands slot view found) same (.process (.ofIndex slot))
    ⟨pointer.toNat⟩ 0 messageLimit fun pos reached => ?_
  · rw [userMessage, userMessage, ← twin.alike.resources.tasks_eq, ProcessTable.get?_ofIndex,
      Option.bind_some, sound.ownSpace found]
    dsimp only [Option.getD_some]
    rw [AddressSpace.readString, AddressSpace.readString, read]
  · obtain ⟨sum, -⟩ := VirtAddr.add?_eq_some_iff.mp reached
    obtain rfl : pos = ⟨pointer.toNat⟩ := congrArg VirtAddr.mk sum.symm
    exact ⟨pointer.toNat_lt, apart⟩

/-! ## Deciding who runs next -/

theorem agree_scheduleNext {ε : Type} {refused : ε → Kernel → Kernel → Prop}
    (alike : Alike boot left right) :
    Agree scheduleNext scheduleNext left right (fun _ => Alike boot) refused := by
  rcases left with ⟨machine, ⟨leftMemory, tasks, leftConsole⟩, programs, space, scheduler, syscalls⟩
  rcases right with ⟨_, ⟨rightMemory, _, rightConsole⟩, _, _, _, _⟩
  obtain ⟨rfl, rfl, rfl, rfl, rfl, rfl, memory⟩ := alike
  refine agree_get_bind (agree_bind (agree_onResources (agree_get_bind ?_)))
  dsimp only
  cases Scheduler.pickNext tasks scheduler.current with
  | none => exact agree_pure (agree_pure ⟨rfl, rfl, rfl, rfl, rfl, rfl, memory⟩)
  | some pid =>
      refine agree_bind (Resources.agree_report (agree_pure (agree_pure ?_)))
      exact ⟨rfl, rfl, rfl, rfl, rfl, rfl, memory⟩

/-- A page fault is dealt with alike. -/
theorem agree_handlePageFault (alike : Alike boot left right) (pid : Pid) (frame : TrapFrame) :
    Agree (handlePageFault pid frame) (handlePageFault pid frame) left right
      (fun _ => Alike boot) fun _ => Alike boot := by
  have unchanged := alike
  rcases left with ⟨machine, ⟨leftMemory, tasks, leftConsole⟩, programs, space, scheduler, syscalls⟩
  rcases right with ⟨_, ⟨rightMemory, _, rightConsole⟩, _, _, _, _⟩
  obtain ⟨rfl, rfl, rfl, rfl, rfl, rfl, memory⟩ := alike
  refine agree_get_bind ?_
  dsimp only
  by_cases user :
      (PageFault.ofReport machine.faultAddress frame.errorCode frame.eip).code.user = true
  · rw [if_neg (by simp [user])]
    refine agree_bind (agree_onResources (Resources.agree_report ?_))
    refine agree_bind (agree_onResources (Resources.agree_modifyTasks ?_))
    exact agree_scheduleNext ⟨rfl, rfl, rfl, rfl, rfl, rfl, memory⟩
  · rw [if_pos (by simp [user])]
    exact agree_bind (agree_refuse unchanged)

/-- A system call of twins is answered alike. -/
theorem Twin.agree_handleCall (twin : Twin boot books left right) {view : SpaceView}
    (found : books.space slot = some view) (vector : UInt32) (frame : TrapFrame) :
    Agree (handleCall (.ofIndex slot) vector frame) (handleCall (.ofIndex slot) vector frame)
      left right (fun _ => Alike boot) fun _ => Alike boot := by
  have alike := twin.alike
  refine agree_get_bind ?_
  rw [← alike.syscalls_eq]
  by_cases handled : left.syscalls.handles vector = true
  · obtain ⟨call, isCall⟩ := Option.isSome_iff_exists.mp handled
    rw [if_neg (by simp [handled])]
    refine agree_get_bind (agree_bind ?_)
    rw [← alike.space_eq, twin.onLeft.space_eq]
    have dispatched : left.syscalls.dispatch ⟨⟨.ofPage books.kernelRoot⟩, .kernel⟩ vector
        (.ofIndex slot) frame.eax =
        call.perform ⟨⟨.ofPage books.kernelRoot⟩, .kernel⟩ (.ofIndex slot) frame.eax := by
      rw [SyscallTable.dispatch, isCall]
      rfl
    rw [dispatched]
    refine agree_answer (agree_onResources ((Syscall.agree_perform alike.resources
      twin.onLeft.sound twin.onRight.sound found call frame.eax).mono ?_ ?_))
    · rintro value ⟨leftMemory, tasks, _⟩ ⟨rightMemory, _, _⟩ ⟨rfl, memory⟩
      refine agree_bind (agree_onResources (Resources.agree_modifyTasks (agree_pure ?_)))
      exact alike.of_resources ⟨rfl, memory⟩
    · rintro cause ⟨leftMemory, tasks, _⟩ ⟨rightMemory, _, _⟩ ⟨rfl, memory⟩
      refine agree_bind (agree_onResources (Resources.agree_report ?_))
      refine agree_bind (agree_onResources (Resources.agree_modifyTasks (agree_pure ?_)))
      exact alike.of_resources ⟨rfl, memory⟩
  · rw [if_pos (by simp [handled])]
    exact agree_bind (agree_refuse alike)

/-! ## All traps -/

theorem Twin.agree_dispatch (twin : Twin boot books left right)
    (inUse : (left.resources.tasks.process slot).state ≠ .free) (discreet : Discreet frame) :
    Agree (dispatch (.ofIndex slot) frame) (dispatch (.ofIndex slot) frame) left right
      (fun _ => Alike boot) fun _ => Alike boot := by
  have alike := twin.alike
  obtain ⟨view, found⟩ := twin.onLeft.sound.exists_space inUse
  have asked := TrapCause.ofVector_spec frame.vector
  rw [dispatch]
  cases cause : TrapCause.ofVector frame.vector with
  | panic =>
      rw [cause] at asked
      obtain ⟨message, shown⟩ := userMessage_eq_ok twin.onLeft found frame.eax
      have same := twin.userMessage_eq found (discreet asked)
      exact agree_peek_bind shown (same.symm.trans shown) (agree_refuse alike)
  | yield => exact agree_scheduleNext alike
  | timer =>
      refine agree_bind (agree_modifyScheduler (agree_scheduleNext ?_))
      exact ⟨alike.machine_eq, alike.programs_eq, alike.space_eq,
        congrArg Scheduler.tick alike.scheduler_eq, alike.syscalls_eq, alike.resources⟩
  | pageFault => exact agree_handlePageFault alike _ frame
  | call vector => exact twin.agree_handleCall found vector frame

theorem Twin.saved (twin : Twin boot books left right)
    (inUse : (left.resources.tasks.process slot).state ≠ .free) (frame : TrapFrame)
    (machine : Machine) :
    Twin boot books (left.saved slot frame machine) (right.saved slot frame machine) where
  alike := ⟨rfl, twin.alike.programs_eq, twin.alike.space_eq, twin.alike.scheduler_eq,
    twin.alike.syscalls_eq,
    by simp only [Kernel.saved, twin.alike.resources.tasks_eq], twin.alike.resources.memory⟩
  onLeft := (twin.onLeft.put { left.resources.tasks.process slot with frame } inUse inUse rfl
    left.resources.console).of_resources rfl rfl rfl
  onRight := by
    rw [twin.alike.resources.tasks_eq] at inUse
    exact (twin.onRight.put { right.resources.tasks.process slot with frame } inUse inUse rfl
      right.resources.console).of_resources rfl rfl rfl

/-- Twins handle a trap alike, and are twins afterwards. -/
theorem Twin.agree_handleTrap (twin : Twin boot books left right)
    (current : left.scheduler.current = .ofIndex slot)
    (runnable : (left.resources.tasks.process slot).state = .runnable)
    (discreet : Discreet frame) :
    Agree (handleTrap frame) (handleTrap frame) left right (fun _ => Twins boot)
      fun _ => Twins boot := by
  have alike := twin.alike
  have inUse : (left.resources.tasks.process slot).state ≠ .free := by simp [runnable]
  have isSaved := twin.saved inUse frame (left.machine.loadDirectory left.space.root)
  have atSlot : ((left.saved slot frame (left.machine.loadDirectory
      left.space.root)).resources.tasks.process slot) =
      { left.resources.tasks.process slot with frame } := ProcessTable.process_put_self ..
  have atOther : ((right.saved slot frame (left.machine.loadDirectory
      left.space.root)).resources.tasks.process slot) =
      { left.resources.tasks.process slot with frame } := by
    rw [← isSaved.alike.resources.tasks_eq, atSlot]
  have onLeft := ensures_dispatch isSaved.onLeft current (by rw [atSlot]; exact runnable)
    (by rw [atSlot] : _ = frame)
  have onRight := ensures_dispatch isSaved.onRight (alike.scheduler_eq ▸ current)
    (by rw [atOther]; exact runnable) (by rw [atOther] : _ = frame)
  have inUseStill : ((left.saved slot frame (left.machine.loadDirectory
      left.space.root)).resources.tasks.process slot).state ≠ .free := by
    rw [atSlot]
    exact inUse
  have dispatched := (isSaved.agree_dispatch inUseStill discreet).ensures onLeft onRight
  refine agree_get_bind ?_
  rw [← alike.scheduler_eq, current]
  refine agree_bind (agree_onResources (Resources.agree_modifyTasks (agree_get_bind ?_)))
  dsimp only
  rw [← congrArg AddressSpace.root alike.space_eq, ProcessTable.modify_ofIndex,
    ProcessTable.modify_ofIndex]
  refine agree_bind (agree_modifyMachine (agree_bind ?_))
  dsimp only
  rw [← alike.machine_eq]
  refine dispatched.mono ?_ ?_
  · rintro next leftAfter rightAfter ⟨after, ⟨-, -, _, leftHandled, -⟩, -, -, _, rightHandled, -⟩
    obtain ⟨_, leftCoherent, -⟩ := leftHandled.coherent isSaved.onLeft
    obtain ⟨_, rightCoherent, -⟩ := rightHandled.coherent isSaved.onRight
    have twins := after.twins leftCoherent rightCoherent
    exact agree_bind (twins.agree_check (agree_pure twins))
  · rintro cause leftAfter rightAfter ⟨after, ⟨-, leftHandled⟩, -, rightHandled⟩
    obtain ⟨_, leftCoherent, -⟩ := leftHandled.coherent isSaved.onLeft
    obtain ⟨_, rightCoherent, -⟩ := rightHandled.coherent isSaved.onRight
    exact after.twins leftCoherent rightCoherent

end Kernel

end PagingKernel
