import PagingKernel.Proofs.Kernel.Handle
import PagingKernel.Proofs.Session.Calls
import PagingKernel.Proofs.Session.Kept

/-!
# Traps whoever is the current process

The kernel handles a trap on behalf of the current process whatever the state of
that is.  A page fault of user code breaks it, be it the reserved slot itself; a
system call lets it go on, be it broken; every other trap passes the processor
to a process that can run.  The check at the end only ever finds that the
reserved slot is in use.
-/

namespace PagingKernel

open PagingKernel.Action

/-- The process of one slot has been broken, and no other state has changed. -/
def ProcessTable.Breaks (slot : Fin slotCount) (before after : ProcessTable) : Prop :=
  (after.process slot).state = .broken ∧
    ∀ other, other ≠ slot → (after.process other).state = (before.process other).state

/-- A trap with the vector of a call lets its caller go on, another one a process that can run. -/
def Dispatch.GoesOn (caller : Pid) (frame : TrapFrame) (tasks : ProcessTable) (next : Dispatch) :
    Prop :=
  if frame.vector ∈ answeringVectors then next = .resume caller
  else ∀ pid, next = .resume pid → tasks.state? pid = some .runnable

theorem Dispatch.goesOn_ofPick {frame : TrapFrame} (others : frame.vector ∉ answeringVectors)
    (caller current : Pid) (tasks : ProcessTable) :
    (Dispatch.ofPick (Scheduler.pickNext tasks current)).GoesOn caller frame tasks := by
  rw [GoesOn, if_neg others]
  intro pid picked
  cases pick : Scheduler.pickNext tasks current with
  | none =>
      rw [pick] at picked
      cases picked
  | some next =>
      rw [pick] at picked
      cases picked
      obtain ⟨slot, rfl, runnable⟩ := Scheduler.pickNext_eq_some pick
      rw [Scheduler.state?_ofIndex, runnable]

theorem Syscall.vector_mem (call : Syscall) : call.vector ∈ answeringVectors := by
  cases call <;> decide

namespace Kernel

/-- What every call relies on and leaves behind. -/
structure Steady (boot : Ledger) (kernelRoot : Fin pageCount) (kernel : Kernel) : Prop where
  kept : Kept boot kernelRoot kernel.resources
  space_eq : kernel.space = ⟨⟨.ofPage kernelRoot⟩, .kernel⟩
  syscalls_eq : kernel.syscalls = .standard

/-- How the kernel is after an action that leaves the choice of the current process alone. -/
structure Advanced (boot : Ledger) (kernelRoot : Fin pageCount)
    (states : ProcessTable → ProcessTable → Prop) (before after : Kernel) : Prop where
  steady : Steady boot kernelRoot after
  current_eq : after.scheduler.current = before.scheduler.current
  states : states before.resources.tasks after.resources.tasks

/-- How the states of the slots change when a trap is handled for the process of a slot. -/
def Turns (slot : Fin slotCount) (frame : TrapFrame) (before after : ProcessTable) : Prop :=
  frame.IsUserFault ∧ ProcessTable.Breaks slot before after ∨
    ¬frame.IsUserFault ∧ before.Fills after

variable {ε : Type} {boot : Ledger} {kernelRoot : Fin pageCount} {kernel : Kernel}
  {slot : Fin slotCount} {frame : TrapFrame}

namespace Steady

variable (steady : Steady boot kernelRoot kernel)

include steady

theorem advanced_refl : Advanced boot kernelRoot ProcessTable.Fills kernel kernel :=
  ⟨steady, rfl, .refl _⟩

theorem advanced {resources : Resources}
    (keeps : Keeps boot kernelRoot kernel.resources resources) :
    Advanced boot kernelRoot ProcessTable.Fills kernel { kernel with resources } :=
  ⟨⟨keeps.kept, steady.space_eq, steady.syscalls_eq⟩, rfl, keeps.fills⟩

/-- The registers of the machine and the ticks do not matter. -/
theorem withMachine (machine : Machine) : Steady boot kernelRoot { kernel with machine } :=
  ⟨steady.kept, steady.space_eq, steady.syscalls_eq⟩

theorem check_cases :
    (kernel.resources.tasks.process ProcessTable.reservedSlot).state = .free ∧
        kernel.check = .ok () ∨
      (kernel.resources.tasks.process ProcessTable.reservedSlot).state ≠ .free ∧
        kernel.check = .error (.refused .reservedSlotInUse) := by
  by_cases isFree : (kernel.resources.tasks.process ProcessTable.reservedSlot).state = .free
  · obtain ⟨books, sound, rfl⟩ := steady.kept.sound isFree
    refine .inl ⟨isFree, ?_⟩
    rw [check, steady.space_eq]
    exact Consistency.check_eq_ok sound
  · exact .inr ⟨isFree, Consistency.check_eq_error isFree⟩

theorem userMessage_eq_ok (pid : Pid) (pointer : UInt32) :
    ∃ message, kernel.userMessage pid pointer = .ok message := by
  obtain ⟨books, standing, rfl⟩ := steady.kept.standing
  cases own : (kernel.resources.tasks.get? pid).bind (·.ownSpace?) with
  | none =>
      have inKernel : ((kernel.resources.tasks.get? pid).bind (·.ownSpace?)).getD kernel.space =
          ⟨⟨.ofPage books.kernelRoot⟩, .kernel⟩ := by
        rw [own, Option.getD_none, steady.space_eq]
      exact userMessage_eq_ok_of_spans inKernel standing.kernelStands mapsPages_kernelWord pointer
  | some space =>
      obtain ⟨slot, view, rfl, found, rfl⟩ := standing.exists_caller own
      have inOwn : ((kernel.resources.tasks.get? (.ofIndex slot)).bind (·.ownSpace?)).getD
          kernel.space = view.space (.process (.ofIndex slot)) := by
        rw [own, Option.getD_some]
      exact userMessage_eq_ok_of_spans inOwn (standing.stands slot view found) view.mapsPages
        pointer

end Steady

/-! ## The kinds of traps -/

/-- How a trap is handled if the kernel goes on. -/
def Goes (boot : Ledger) (kernelRoot : Fin pageCount) (slot : Fin slotCount) (frame : TrapFrame)
    (before : Kernel) (next : Dispatch) (after : Kernel) : Prop :=
  Advanced boot kernelRoot (Turns slot frame) before after ∧
    next.GoesOn (.ofIndex slot) frame after.resources.tasks

/-- How a trap is handled if it stops the kernel. -/
def Stops (boot : Ledger) (kernelRoot : Fin pageCount) (slot : Fin slotCount) (frame : TrapFrame)
    (before : Kernel) (cause : Fatal) (after : Kernel) : Prop :=
  Advanced boot kernelRoot (Turns slot frame) before after ∧ cause.Justified frame

/-- Any trap but a page fault of user code fills slots at most. -/
theorem Advanced.turns {after : Kernel} (quiet : ¬frame.IsUserFault)
    (advanced : Advanced boot kernelRoot ProcessTable.Fills kernel after) :
    Advanced boot kernelRoot (Turns slot frame) kernel after :=
  ⟨advanced.steady, advanced.current_eq, .inr ⟨quiet, advanced.states⟩⟩

section Dispatching

variable (steady : Steady boot kernelRoot kernel)

include steady

/-- Reports do not matter. -/
theorem Steady.withConsole (console : Console) :
    Advanced boot kernelRoot ProcessTable.Fills kernel
      { kernel with resources := { kernel.resources with console } } :=
  steady.advanced ⟨⟨steady.kept.standing, steady.kept.sound⟩, .refl _⟩

theorem ensures_choose_steady (others : frame.vector ∉ answeringVectors)
    (quiet : ¬frame.IsUserFault) :
    (scheduleNext : Action Kernel Fatal Dispatch).Ensures kernel
      (Goes boot kernelRoot slot frame kernel) (Stops boot kernelRoot slot frame kernel) := by
  refine (ensures_choose kernel).mono ?_ fun _ _ impossible => impossible.elim
  rintro _ _ ⟨rfl, console, rfl⟩
  exact ⟨(steady.withConsole console).turns quiet, Dispatch.goesOn_ofPick others _ _ _⟩

theorem ensures_timer_steady (ticks : frame.vector = Interrupt.timer) :
    (modifyScheduler (·.tick) >>= fun _ => scheduleNext : Action Kernel Fatal Dispatch).Ensures
      kernel (Goes boot kernelRoot slot frame kernel)
      (Stops boot kernelRoot slot frame kernel) := by
  have ticked : Steady boot kernelRoot { kernel with scheduler := kernel.scheduler.tick } :=
    ⟨steady.kept, steady.space_eq, steady.syscalls_eq⟩
  have quiet : ¬frame.IsUserFault := fun fault => absurd (ticks.symm.trans fault.1) (by decide)
  refine ensures_bind.mpr (ensures_modifyScheduler.mpr ?_)
  refine (ensures_choose _).mono ?_ fun _ _ impossible => impossible.elim
  rintro _ _ ⟨rfl, console, rfl⟩
  refine ⟨⟨(ticked.withConsole console).steady, rfl, .inr ⟨quiet, .refl _⟩⟩, ?_⟩
  exact Dispatch.goesOn_ofPick (by rw [ticks]; decide) _ _ _

/-- A page fault of user code breaks the current process, whatever the state of that is. -/
theorem ensures_pageFault_steady
    (occupied : slot = ProcessTable.reservedSlot ∨
      (kernel.resources.tasks.process slot).state ≠ .free)
    (faults : frame.vector = Interrupt.pageFault) :
    (handlePageFault (.ofIndex slot) frame).Ensures kernel
      (Goes boot kernelRoot slot frame kernel) (Stops boot kernelRoot slot frame kernel) := by
  simp only [handlePageFault, ensures_bind, ensures_get]
  by_cases user : (PageFault.ofReport kernel.machine.faultAddress frame.errorCode
      frame.eip).code.user = true
  · rw [if_neg (by simp [user]), ensures_bind, ensures_onResources, Resources.ensures_report,
      ensures_bind, ensures_onResources, Resources.ensures_modifyTasks,
      ProcessTable.modify_ofIndex]
    refine (ensures_choose _).mono ?_ fun _ _ impossible => impossible.elim
    rintro _ _ ⟨rfl, console, rfl⟩
    refine ⟨⟨⟨steady.kept.broken occupied console, steady.space_eq, steady.syscalls_eq⟩, rfl,
      .inl ⟨⟨faults, user⟩, ?_, fun other apart => ?_⟩⟩, ?_⟩
    · exact congrArg Process.state (ProcessTable.process_put_self ..)
    · exact congrArg Process.state (ProcessTable.process_put_of_ne apart _)
    · exact Dispatch.goesOn_ofPick (by rw [faults]; decide) _ _ _
  · rw [if_pos (by simp [user]), ensures_bind, ensures_refuse]
    exact ⟨steady.advanced_refl.turns fun fault => user fault.2, faults, rfl,
      Bool.eq_false_of_not_eq_true user⟩

/-- A call is performed for whoever is the current process, and lets it go on. -/
theorem ensures_call_steady (others : frame.vector ∉
      [Interrupt.pageFault, Interrupt.timer, Interrupt.panic, Interrupt.yield]) :
    (handleCall (.ofIndex slot) frame.vector frame).Ensures kernel
      (Goes boot kernelRoot slot frame kernel) (Stops boot kernelRoot slot frame kernel) := by
  have quiet : ¬frame.IsUserFault := fun fault => others (by simp [fault.1])
  rcases kernel with ⟨machine, ⟨memory, tasks, console⟩, programs, space, scheduler, syscalls⟩
  obtain ⟨kept, rfl, rfl⟩ := id steady
  simp only [handleCall, ensures_bind, ensures_get]
  by_cases handled : SyscallTable.standard.handles frame.vector = true
  · obtain ⟨call, isCall⟩ := Option.isSome_iff_exists.mp handled
    have asked : frame.vector ∈ answeringVectors := by
      rw [SyscallTable.vector_of_call? isCall]
      exact call.vector_mem
    have goesOn (tasks : ProcessTable) :
        (Dispatch.resume (.ofIndex slot)).GoesOn (.ofIndex slot) frame tasks := by
      rw [Dispatch.GoesOn, if_pos asked]
    simp only [if_neg (show ¬(!SyscallTable.standard.handles frame.vector) = true by
        simp [handled]), ensures_bind, ensures_get, ensures_answer, ensures_onResources,
      SyscallTable.dispatch, isCall, ensures_require_some]
    apply (kept.ensures_syscall call (.ofIndex slot) frame.eax).mono
    · rintro value ⟨nextMemory, nextTasks, nextConsole⟩ keeps
      rw [Resources.ensures_modifyTasks, ProcessTable.modify_ofIndex, ensures_pure]
      exact ⟨(steady.advanced (keeps.trans (keeps.kept.withFrame slot _ _))).turns quiet, goesOn _⟩
    · rintro cause ⟨nextMemory, nextTasks, nextConsole⟩ keeps
      rw [Resources.ensures_report, Resources.ensures_modifyTasks, ProcessTable.modify_ofIndex,
        ensures_pure]
      exact ⟨(steady.advanced (keeps.trans (keeps.kept.withFrame slot _ _))).turns quiet, goesOn _⟩
  · have noCall := SyscallTable.handles_standard (Bool.eq_false_of_not_eq_true handled)
    rw [if_pos (by simp [handled]), ensures_bind, ensures_refuse]
    refine ⟨steady.advanced_refl.turns quiet, rfl, ?_⟩
    simp only [answeringVectors, List.mem_cons, List.not_mem_nil, or_false, not_or]
      at others noCall ⊢
    exact ⟨others.1, others.2.1, others.2.2.1, noCall.1, others.2.2.2, noCall.2⟩

theorem ensures_dispatch_steady
    (occupied : slot = ProcessTable.reservedSlot ∨
      (kernel.resources.tasks.process slot).state ≠ .free) :
    (dispatch (.ofIndex slot) frame).Ensures kernel
      (Goes boot kernelRoot slot frame kernel) (Stops boot kernelRoot slot frame kernel) := by
  have asked := TrapCause.ofVector_spec frame.vector
  rw [dispatch]
  cases cause : TrapCause.ofVector frame.vector with
  | panic =>
      rw [cause] at asked
      obtain ⟨message, shown⟩ := steady.userMessage_eq_ok (.ofIndex slot) frame.eax
      refine ensures_bind.mpr (ensures_peek.mpr ⟨message, shown, ensures_refuse.mpr ⟨?_, asked⟩⟩)
      exact steady.advanced_refl.turns fun fault => absurd (asked.symm.trans fault.1) (by decide)
  | yield =>
      rw [cause] at asked
      exact ensures_choose_steady steady (by rw [asked]; decide) fun fault =>
        absurd (asked.symm.trans fault.1) (by decide)
  | timer =>
      rw [cause] at asked
      exact ensures_timer_steady steady asked
  | pageFault =>
      rw [cause] at asked
      exact ensures_pageFault_steady steady occupied asked
  | call vector =>
      rw [cause] at asked
      obtain ⟨rfl, others⟩ := asked
      exact ensures_call_steady steady others

end Dispatching

/-! ## All traps -/

/-- What was done after the registers of a slot were saved was done from before. -/
theorem Advanced.of_saved {after : Kernel} {machine : Machine}
    (advanced : Advanced boot kernelRoot (Turns slot frame) (kernel.saved slot frame machine)
      after) : Advanced boot kernelRoot (Turns slot frame) kernel after := by
  have saves : kernel.resources.tasks.Fills (kernel.saved slot frame machine).resources.tasks :=
    .put rfl
  refine ⟨advanced.steady, advanced.current_eq, ?_⟩
  rcases advanced.states with ⟨fault, isBroken, others⟩ | ⟨quiet, fills⟩
  · refine .inl ⟨fault, isBroken, fun other apart => (others other apart).trans ?_⟩
    exact congrArg Process.state (ProcessTable.process_put_of_ne apart _)
  · exact .inr ⟨quiet, saves.trans fills⟩

/-- A trap is handled whoever is the current process.  It stops the kernel for a reason that lies
in the trap, or because the reserved slot is in use. -/
theorem ensures_handleTrap_steady (steady : Steady boot kernelRoot kernel)
    (current : kernel.scheduler.current = .ofIndex slot)
    (occupied : slot = ProcessTable.reservedSlot ∨
      (kernel.resources.tasks.process slot).state ≠ .free) (frame : TrapFrame) :
    (handleTrap frame).Ensures kernel
      (fun next after => Goes boot kernelRoot slot frame kernel next after ∧
        (after.resources.tasks.process ProcessTable.reservedSlot).state = .free)
      fun cause after => Advanced boot kernelRoot (Turns slot frame) kernel after ∧
        (cause.Justified frame ∨ cause = .invariant .reservedSlotInUse ∧
          (after.resources.tasks.process ProcessTable.reservedSlot).state ≠ .free) := by
  have isSaved : Steady boot kernelRoot
      (kernel.saved slot frame (kernel.machine.loadDirectory kernel.space.root)) :=
    ⟨(steady.kept.withFrame slot frame kernel.resources.console).kept, steady.space_eq,
      steady.syscalls_eq⟩
  have stillOccupied : slot = ProcessTable.reservedSlot ∨
      ((kernel.saved slot frame (kernel.machine.loadDirectory
        kernel.space.root)).resources.tasks.process slot).state ≠ .free := by
    refine occupied.imp_right fun inUse => ?_
    rw [saved, ProcessTable.process_put_self]
    exact inUse
  rw [handleTrap, ensures_bind, ensures_get, current, ensures_bind, ensures_onResources,
    Resources.ensures_modifyTasks, ProcessTable.modify_ofIndex, ensures_bind, ensures_get,
    ensures_bind, ensures_modifyMachine, ensures_bind]
  apply (ensures_dispatch_steady isSaved stillOccupied).mono
  · rintro next after ⟨advanced, goesOn⟩
    rw [ensures_bind, ensures_mapCause]
    rcases advanced.steady.check_cases with ⟨isFree, passes⟩ | ⟨inUse, fails⟩
    · rw [ensures_inspect passes, ensures_pure]
      exact ⟨⟨advanced.of_saved, goesOn⟩, isFree⟩
    · rw [ensures_inspect_refused fails]
      exact ⟨advanced.of_saved, .inr ⟨rfl, inUse⟩⟩
  · rintro cause after ⟨advanced, justified⟩
    exact ⟨advanced.of_saved, .inl justified⟩

end Kernel

end PagingKernel
