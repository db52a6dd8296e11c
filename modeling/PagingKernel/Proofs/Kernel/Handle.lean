import PagingKernel.Proofs.AddressSpace.UserString
import PagingKernel.Proofs.Kernel.Turn

/-!
# Handling traps

A trap that the process of a slot takes ends with a decision about who runs next
or with one of three causes, each with its own vectors.  Either way the kernel
stays coherent, the other slots are spared, and the process of the slot itself
is turned as `Turned` says.
-/

namespace PagingKernel

open PagingKernel.Action PageTable

/-- A condition that stops the kernel has its reason in the trap that was taken. -/
def Fatal.Justified (frame : TrapFrame) : Fatal → Prop
  | .panic _ _ => frame.vector = Interrupt.panic
  | .kernelPageFault fault => frame.vector = Interrupt.pageFault ∧
      fault.code = .ofBits frame.errorCode.toNat ∧ fault.code.user = false
  | .unexpectedInterrupt vector => vector = frame.vector ∧
      vector ∉ [Interrupt.pageFault, Interrupt.timer, Interrupt.panic, Interrupt.getPid,
        Interrupt.yield, Interrupt.pageAlloc, Interrupt.fork]
  | .invariant _ => False

theorem Fatal.Justified.not_reschedules {frame : TrapFrame} {cause : Fatal}
    (justified : cause.Justified frame) : ¬frame.Reschedules := by
  rintro (isTimer | isYield | ⟨isFault, user⟩)
  · cases cause with
    | panic pid message => exact absurd (justified.symm.trans isTimer) (by decide)
    | kernelPageFault fault => exact absurd (justified.1.symm.trans isTimer) (by decide)
    | unexpectedInterrupt vector => exact justified.2 (by simp [justified.1, isTimer])
    | invariant violation => exact justified
  · cases cause with
    | panic pid message => exact absurd (justified.symm.trans isYield) (by decide)
    | kernelPageFault fault => exact absurd (justified.1.symm.trans isYield) (by decide)
    | unexpectedInterrupt vector => exact justified.2 (by simp [justified.1, isYield])
    | invariant violation => exact justified
  · cases cause with
    | panic pid message => exact absurd (justified.symm.trans isFault) (by decide)
    | kernelPageFault fault =>
        obtain ⟨-, code, notUser⟩ := justified
        rw [code, user] at notUser
        cases notUser
    | unexpectedInterrupt vector => exact justified.2 (by simp [justified.1, isFault])
    | invariant violation => exact justified

/-! ## Vectors -/

theorem TrapCause.ofVector_spec (vector : UInt32) :
    match ofVector vector with
    | .panic => vector = Interrupt.panic
    | .yield => vector = Interrupt.yield
    | .timer => vector = Interrupt.timer
    | .pageFault => vector = Interrupt.pageFault
    | .call number => number = vector ∧
        vector ∉ [Interrupt.pageFault, Interrupt.timer, Interrupt.panic, Interrupt.yield] := by
  unfold ofVector
  split_ifs with isPanic isYield isTimer isPageFault
  · exact isPanic
  · exact isYield
  · exact isTimer
  · exact isPageFault
  · simp [isPanic, isYield, isTimer, isPageFault]

namespace Kernel

variable {ε : Type} {boot : Ledger} {books : Books} {kernel : Kernel} {slot : Fin slotCount}
  {view : SpaceView} {frame : TrapFrame}

/-! ## Who runs next -/

theorem ensures_switchTo (ε : Type)
    (runnable : (kernel.resources.tasks.process slot).state = .runnable) :
    (switchTo (.ofIndex slot) : Action Kernel ε TrapFrame).Ensures kernel
      (fun frame after => frame = (kernel.resources.tasks.process slot).frame ∧
        after = { kernel with
          machine := kernel.machine.loadDirectory (kernel.directory slot).root
          scheduler := kernel.scheduler.setCurrent (.ofIndex slot) })
      fun _ _ => False := by
  rw [switchTo, ensures_bind, ensures_get, ProcessTable.get?_ofIndex]
  dsimp only
  rw [if_neg (by simp [runnable]), ensures_bind, ensures_modifyScheduler, ensures_bind,
    ensures_get, ensures_bind, ensures_modifyMachine, ensures_pure]
  exact ⟨rfl, rfl⟩

/-- Choosing who runs next changes nothing but what is reported. -/
theorem ensures_choose (kernel : Kernel) :
    (scheduleNext : Action Kernel ε Dispatch).Ensures kernel
      (fun next after => next =
          .ofPick (Scheduler.pickNext kernel.resources.tasks kernel.scheduler.current) ∧
        ∃ console, after = { kernel with resources := { kernel.resources with console } })
      fun _ _ => False := by
  simp only [scheduleNext, Scheduler.choose, ensures_bind, ensures_get, ensures_onResources]
  cases Scheduler.pickNext kernel.resources.tasks kernel.scheduler.current with
  | none => exact ensures_pure.mpr (ensures_pure.mpr ⟨rfl, kernel.resources.console, rfl⟩)
  | some pid =>
      rw [ensures_bind, Resources.ensures_report, ensures_pure]
      exact ensures_pure.mpr ⟨rfl, _, rfl⟩

theorem ensures_scheduleNext (coherent : Coherent boot books kernel) :
    (scheduleNext : Action Kernel ε Dispatch).Ensures kernel
      (fun next after => next =
          .ofPick (Scheduler.pickNext kernel.resources.tasks kernel.scheduler.current) ∧
        next.Fits kernel.resources.tasks ∧ ∃ console,
        after = { kernel with resources := { kernel.resources with console } })
      fun _ _ => False := by
  refine (ensures_choose kernel).mono ?_ fun _ _ impossible => impossible
  rintro _ after ⟨rfl, console⟩
  refine ⟨rfl, ?_, console⟩
  cases picked : Scheduler.pickNext kernel.resources.tasks kernel.scheduler.current with
  | none => exact Scheduler.pickNext_eq_none picked
  | some pid =>
      obtain ⟨slot, rfl, runnable⟩ := Scheduler.pickNext_eq_some picked
      exact ⟨slot, rfl, coherent.sound.ne_reserved (by simp [runnable]), runnable⟩

/-! ## Page faults -/

/-- A page fault of user code breaks its process; one of the kernel stops the kernel. -/
theorem ensures_handlePageFault (coherent : Coherent boot books kernel)
    (inUse : (kernel.resources.tasks.process slot).state ≠ .free) (frame : TrapFrame) :
    (handlePageFault (.ofIndex slot) frame).Ensures kernel
      (fun next after => (PageFaultCode.ofBits frame.errorCode.toNat).user = true ∧
        ∃ console, after = { kernel with resources := ⟨kernel.resources.memory,
          kernel.resources.tasks.put slot
            { kernel.resources.tasks.process slot with state := .broken }, console⟩ } ∧
        next = .ofPick (Scheduler.pickNext after.resources.tasks kernel.scheduler.current) ∧
        next.Fits after.resources.tasks)
      fun cause after => after = kernel ∧ ∃ fault, cause = .kernelPageFault fault ∧
        fault.code = .ofBits frame.errorCode.toNat ∧ fault.code.user = false := by
  simp only [handlePageFault, ensures_bind, ensures_get]
  by_cases user : (PageFault.ofReport kernel.machine.faultAddress frame.errorCode
      frame.eip).code.user = true
  · rw [if_neg (by simp [user]), ensures_bind, ensures_onResources, Resources.ensures_report,
      ensures_bind, ensures_onResources, Resources.ensures_modifyTasks,
      ProcessTable.modify_ofIndex]
    have broken := coherent.put { kernel.resources.tasks.process slot with state := .broken } inUse
      (by simp) rfl
    refine (ensures_scheduleNext (broken _)).mono ?_ fun _ _ impossible => impossible.elim
    rintro next _ ⟨picked, fits, console, rfl⟩
    exact ⟨user, console, rfl, picked, fits⟩
  · rw [if_pos (by simp [user]), ensures_bind, ensures_refuse]
    exact ⟨rfl, _, rfl, rfl, Bool.eq_false_of_not_eq_true user⟩

/-! ## System calls -/

/-- A slot was served, and its process finds the answer in its register. -/
structure Answered (boot : Ledger) (books : Books) (slot : Fin slotCount) (vector : UInt32)
    (before after : Resources) : Prop where
  spared : ∃ child, Spared boot books slot child before after ∧
    ∀ filled, child = some filled → vector = Interrupt.fork ∧
      (after.tasks.process slot).frame.eax = (Pid.ofIndex filled).raw
  state_eq : (after.tasks.process slot).state = (before.tasks.process slot).state

theorem answered_of_served {child : Option (Fin slotCount)} {before after : Resources}
    (served : Served boot books slot child before after)
    (inUse : (before.tasks.process slot).state ≠ .free) {vector answer : UInt32}
    (filled : ∀ found, child = some found → vector = Interrupt.fork ∧
      answer = (Pid.ofIndex found).raw) (console : Console) :
    Answered boot books slot vector before (answered after slot answer console) where
  spared := by
    have inUseStill : (after.tasks.process slot).state ≠ .free := by
      rw [served.self]
      exact inUse
    refine ⟨child, served.toSpared.put (withAnswer (after.tasks.process slot) answer) inUseStill
      inUseStill rfl console, fun found same => ?_⟩
    obtain ⟨isFork, isChild⟩ := filled found same
    refine ⟨isFork, ?_⟩
    rw [process_answered_self]
    exact isChild
  state_eq := by
    rw [process_answered_self, ← served.self]
    rfl

/-- A call is answered whether it is done or refused, and its caller goes on. -/
theorem ensures_handleCall (coherent : Coherent boot books kernel)
    (found : books.space slot = some view)
    (saved : (kernel.resources.tasks.process slot).frame = frame) :
    (handleCall (.ofIndex slot) frame.vector frame).Ensures kernel
      (fun next after => next = .resume (.ofIndex slot) ∧ ∃ resources,
        after = { kernel with resources } ∧
        Answered boot books slot frame.vector kernel.resources resources ∧
        Turned slot frame kernel after)
      fun cause after => after = kernel ∧ cause = .unexpectedInterrupt frame.vector ∧
        SyscallTable.standard.handles frame.vector = false := by
  have inUse : (kernel.resources.tasks.process slot).state ≠ .free := by
    rw [Ne, coherent.sound.live slot, found]
    simp
  rcases kernel with ⟨machine, ⟨memory, tasks, console⟩, programs, space, scheduler, syscalls⟩
  obtain ⟨sound, rfl, rfl⟩ := id coherent
  simp only [handleCall, ensures_bind, ensures_get]
  by_cases handled : SyscallTable.standard.handles frame.vector = true
  · obtain ⟨call, isCall⟩ := Option.isSome_iff_exists.mp handled
    have asked := SyscallTable.vector_of_call? isCall
    simp only [if_neg (show ¬(!SyscallTable.standard.handles frame.vector) = true by
        simp [handled]), ensures_bind, ensures_get, ensures_answer, ensures_onResources,
      SyscallTable.dispatch, isCall, ensures_require_some]
    apply (Syscall.ensures_perform sound found call frame.eax).mono
    · rintro value ⟨nextMemory, nextTasks, nextConsole⟩ ⟨child, granted, served⟩
      rw [Resources.ensures_modifyTasks, ProcessTable.modify_ofIndex, ensures_pure]
      refine ⟨rfl, _, rfl, answered_of_served served inUse (fun filled same => ?_) _, ?_⟩
      · obtain ⟨rfl, isValue⟩ := granted.filled filled same
        exact ⟨asked, isValue⟩
      · exact turned_of_granted coherent found saved asked granted
    · rintro cause ⟨nextMemory, nextTasks, nextConsole⟩ ⟨refused, served⟩
      rw [Resources.ensures_report, Resources.ensures_modifyTasks, ProcessTable.modify_ofIndex,
        ensures_pure]
      refine ⟨rfl, _, rfl, answered_of_served served inUse (fun _ impossible => ?_) _, ?_⟩
      · cases impossible
      · exact turned_of_refused inUse saved asked refused
  · rw [if_pos (by simp [handled]), ensures_bind, ensures_refuse]
    exact ⟨rfl, rfl, Bool.eq_false_of_not_eq_true handled⟩

/-! ## All traps -/

/-- What handling a trap that the process of a slot took leaves behind, whatever its outcome. -/
structure Handled (boot : Ledger) (books : Books) (slot : Fin slotCount) (frame : TrapFrame)
    (child : Option (Fin slotCount)) (machine : Machine) (before after : Kernel) : Prop where
  spared : Spared boot books slot child before.resources after.resources
  turned : Turned slot frame before after
  machine_eq : after.machine = machine
  space_eq : after.space = before.space
  syscalls_eq : after.syscalls = before.syscalls
  ticks_eq : after.scheduler.ticks =
    before.scheduler.ticks + if frame.vector = Interrupt.timer then 1 else 0

/-- The run goes on: who runs next can run, and a slot was filled only by a successful fork. -/
def Continued (boot : Ledger) (books : Books) (slot : Fin slotCount) (frame : TrapFrame)
    (machine : Machine) (before : Kernel) (next : Dispatch) (after : Kernel) : Prop :=
  next.Fits after.resources.tasks ∧ next.Follows slot frame after.resources.tasks ∧ ∃ child,
    Handled boot books slot frame child machine before after ∧
    ∀ filled, child = some filled → frame.vector = Interrupt.fork ∧
      next = .resume (.ofIndex slot) ∧
      (after.resources.tasks.process slot).frame.eax = (Pid.ofIndex filled).raw

/-- The run stops, for a reason that lies in the trap. -/
def Stopped (boot : Ledger) (books : Books) (slot : Fin slotCount) (frame : TrapFrame)
    (machine : Machine) (before : Kernel) (cause : Fatal) (after : Kernel) : Prop :=
  cause.Justified frame ∧ Handled boot books slot frame none machine before after

/-- Handling that changes the resources only, and spares the others. -/
theorem handled_of_spared {child : Option (Fin slotCount)} {resources : Resources}
    (spared : Spared boot books slot child kernel.resources resources)
    (turned : Turned slot frame kernel { kernel with resources })
    (notTimer : frame.vector ≠ Interrupt.timer) :
    Handled boot books slot frame child kernel.machine kernel { kernel with resources } where
  spared := spared
  turned := turned
  machine_eq := rfl
  space_eq := rfl
  syscalls_eq := rfl
  ticks_eq := by
    rw [if_neg notTimer]
    exact (UInt64.add_zero _).symm

/-- A message is always shown, if only as unreadable, where the space it is in stands. -/
theorem userMessage_eq_ok_of_spans {pid : Pid} {root table : Fin pageCount} {words : Nat → UInt32}
    {owner : Owner}
    (inSpace : ((kernel.resources.tasks.get? pid).bind (·.ownSpace?)).getD kernel.space =
      ⟨⟨.ofPage root⟩, owner⟩)
    (spans : kernel.resources.memory.ram.Spans root table words) (pages : MapsPages words)
    (pointer : UInt32) : ∃ message, kernel.userMessage pid pointer = .ok message := by
  rw [userMessage, inSpace, AddressSpace.readString]
  cases read : (⟨⟨.ofPage root⟩, owner⟩ : AddressSpace).readStringFrom
      kernel.resources.memory.ram ⟨pointer.toNat⟩ 0 messageLimit with
  | ok bytes => exact ⟨_, rfl⟩
  | error failure =>
      cases failure with
      | refused cause => exact ⟨_, rfl⟩
      | faulted fault => exact absurd read (spans.readStringFrom_ne_faulted pages _ _ _ fault)

theorem userMessage_eq_ok (coherent : Coherent boot books kernel)
    (found : books.space slot = some view) (pointer : UInt32) :
    ∃ message, kernel.userMessage (.ofIndex slot) pointer = .ok message := by
  have inSpace : ((kernel.resources.tasks.get? (.ofIndex slot)).bind (·.ownSpace?)).getD
      kernel.space = view.space (.process (.ofIndex slot)) := by
    rw [ProcessTable.get?_ofIndex, Option.bind_some, coherent.sound.ownSpace found,
      Option.getD_some]
  exact userMessage_eq_ok_of_spans inSpace (coherent.sound.stands slot view found)
    view.mapsPages pointer

section Dispatching

variable (coherent : Coherent boot books kernel)
  (current : kernel.scheduler.current = .ofIndex slot)
  (runnable : (kernel.resources.tasks.process slot).state = .runnable)
  (saved : (kernel.resources.tasks.process slot).frame = frame)

include runnable saved

/-- A trap that only stops the kernel, or only lets another process run, leaves its process. -/
theorem turned_of_tasks (others : frame.vector ∉ answeringVectors) {after : Kernel}
    (current_eq : after.scheduler.current = kernel.scheduler.current)
    (tasks_eq : after.resources.tasks = kernel.resources.tasks) :
    Turned slot frame kernel after := by
  have inUse : (kernel.resources.tasks.process slot).state ≠ .free := by simp [runnable]
  refine turned_of_others saved others current_eq ?_ inUse inUse rfl fun _ => rfl
  rw [tasks_eq, ProcessTable.put_process]

include coherent current

theorem continued_of_yield (yields : frame.vector = Interrupt.yield) :
    (scheduleNext : Action Kernel Fatal Dispatch).Ensures kernel
      (Continued boot books slot frame kernel.machine kernel)
      (Stopped boot books slot frame kernel.machine kernel) := by
  have reschedules : frame.Reschedules := .inr (.inl yields)
  refine (ensures_scheduleNext coherent).mono ?_ fun _ _ impossible => impossible.elim
  rintro next _ ⟨picked, fits, console, rfl⟩
  refine ⟨fits, ?_, none, handled_of_spared ?_ ?_ ?_, fun _ impossible => by cases impossible⟩
  · rw [Dispatch.Follows, if_pos reschedules, picked, current]
  · exact Spared.refl coherent.sound slot kernel.resources.console console
  · exact turned_of_tasks runnable saved (by rw [yields]; decide) rfl rfl
  · rw [yields]
    decide

/-- A tick is counted before who runs next is chosen. -/
theorem continued_of_timer (ticks : frame.vector = Interrupt.timer) :
    (modifyScheduler (·.tick) >>= fun _ => scheduleNext : Action Kernel Fatal Dispatch).Ensures
      kernel (Continued boot books slot frame kernel.machine kernel)
      (Stopped boot books slot frame kernel.machine kernel) := by
  have reschedules : frame.Reschedules := .inl ticks
  have ticked : Coherent boot books { kernel with scheduler := kernel.scheduler.tick } :=
    coherent.of_resources rfl rfl rfl
  refine ensures_bind.mpr (ensures_modifyScheduler.mpr ?_)
  refine (ensures_scheduleNext ticked).mono ?_ fun _ _ impossible => impossible.elim
  rintro next _ ⟨picked, fits, console, rfl⟩
  refine ⟨fits, ?_, none, ⟨?_, ?_, rfl, rfl, rfl, ?_⟩, fun _ impossible => by cases impossible⟩
  · rw [Dispatch.Follows, if_pos reschedules, picked, ← current]
    rfl
  · exact Spared.refl coherent.sound slot kernel.resources.console console
  · exact turned_of_tasks runnable saved (by rw [ticks]; decide) rfl rfl
  · rw [if_pos ticks]
    rfl

theorem ensures_pageFault (faults : frame.vector = Interrupt.pageFault) :
    (handlePageFault (.ofIndex slot) frame).Ensures kernel
      (Continued boot books slot frame kernel.machine kernel)
      (Stopped boot books slot frame kernel.machine kernel) := by
  have inUse : (kernel.resources.tasks.process slot).state ≠ .free := by simp [runnable]
  have untouched := Spared.refl coherent.sound slot kernel.resources.console
    kernel.resources.console
  have others : frame.vector ∉ answeringVectors := by
    rw [faults]
    decide
  have notTimer : frame.vector ≠ Interrupt.timer := by
    rw [faults]
    decide
  apply (ensures_handlePageFault coherent inUse frame).mono
  · rintro next _ ⟨user, console, rfl, picked, fits⟩
    have reschedules : frame.Reschedules := .inr (.inr ⟨faults, user⟩)
    refine ⟨fits, ?_, none, handled_of_spared ?_ ?_ notTimer, fun _ impossible => by
      cases impossible⟩
    · rw [Dispatch.Follows, if_pos reschedules, picked, current]
    · exact untouched.put { kernel.resources.tasks.process slot with state := .broken } inUse
        (by simp) rfl console
    · exact turned_of_others saved others rfl rfl inUse (by simp) rfl
        fun notFault => absurd faults notFault
  · rintro _ _ ⟨rfl, fault, rfl, code, notUser⟩
    exact ⟨⟨faults, code, notUser⟩, handled_of_spared untouched
      (turned_of_tasks runnable saved others rfl rfl) notTimer⟩

omit current

/-- A vector of the rest is that of a call, or stops the kernel. -/
theorem ensures_call (others : frame.vector ∉
      [Interrupt.pageFault, Interrupt.timer, Interrupt.panic, Interrupt.yield]) :
    (handleCall (.ofIndex slot) frame.vector frame).Ensures kernel
      (Continued boot books slot frame kernel.machine kernel)
      (Stopped boot books slot frame kernel.machine kernel) := by
  have inUse : (kernel.resources.tasks.process slot).state ≠ .free := by simp [runnable]
  obtain ⟨view, found⟩ := coherent.sound.exists_space inUse
  simp only [List.mem_cons, List.not_mem_nil, or_false, not_or] at others
  obtain ⟨notFault, notTimer, notPanic, notYield⟩ := others
  have goesOn : ¬frame.Reschedules := by
    rintro (isTimer | isYield | ⟨isFault, -⟩)
    · exact notTimer isTimer
    · exact notYield isYield
    · exact notFault isFault
  apply (ensures_handleCall coherent found saved).mono
  · rintro _ _ ⟨rfl, resources, rfl, answered, turned⟩
    obtain ⟨child, spared, filled⟩ := answered.spared
    refine ⟨⟨slot, rfl, coherent.sound.ne_reserved inUse, answered.state_eq.trans runnable⟩, ?_,
      child, handled_of_spared spared turned notTimer, fun found same => ?_⟩
    · rw [Dispatch.Follows, if_neg goesOn]
    · obtain ⟨isFork, isChild⟩ := filled found same
      exact ⟨isFork, rfl, isChild⟩
  · rintro _ _ ⟨rfl, rfl, unhandled⟩
    have noCall := SyscallTable.handles_standard unhandled
    refine ⟨⟨rfl, ?_⟩, handled_of_spared ?_ ?_ notTimer⟩
    · simp only [answeringVectors, List.mem_cons, List.not_mem_nil, or_false, not_or] at noCall ⊢
      exact ⟨notFault, notTimer, notPanic, noCall.1, notYield, noCall.2⟩
    · exact Spared.refl coherent.sound slot _ _
    · exact turned_of_tasks runnable saved noCall rfl rfl

include current

theorem ensures_dispatch :
    (dispatch (.ofIndex slot) frame).Ensures kernel
      (Continued boot books slot frame kernel.machine kernel)
      (Stopped boot books slot frame kernel.machine kernel) := by
  have inUse : (kernel.resources.tasks.process slot).state ≠ .free := by simp [runnable]
  obtain ⟨view, found⟩ := coherent.sound.exists_space inUse
  have asked := TrapCause.ofVector_spec frame.vector
  rw [dispatch]
  cases cause : TrapCause.ofVector frame.vector with
  | panic =>
      rw [cause] at asked
      obtain ⟨message, shown⟩ := userMessage_eq_ok coherent found frame.eax
      refine ensures_bind.mpr (ensures_peek.mpr ⟨message, shown, ensures_refuse.mpr ⟨asked, ?_⟩⟩)
      refine handled_of_spared ?_ ?_ (by rw [asked]; decide)
      · exact Spared.refl coherent.sound slot kernel.resources.console kernel.resources.console
      · exact turned_of_tasks runnable saved (by rw [asked]; decide) rfl rfl
  | yield =>
      rw [cause] at asked
      exact continued_of_yield coherent current runnable saved asked
  | timer =>
      rw [cause] at asked
      exact continued_of_timer coherent current runnable saved asked
  | pageFault =>
      rw [cause] at asked
      exact ensures_pageFault coherent current runnable saved asked
  | call vector =>
      rw [cause] at asked
      rcases asked with ⟨rfl, others⟩
      exact ensures_call coherent runnable saved others

end Dispatching

theorem Handled.coherent {child : Option (Fin slotCount)} {machine : Machine} {after : Kernel}
    (handled : Handled boot books slot frame child machine kernel after)
    (coherent : Coherent boot books kernel) :
    ∃ next, Coherent boot next after ∧ next.kernelTable = books.kernelTable := by
  obtain ⟨next, sound, sameRoot, sameTable⟩ := handled.spared.sound
  refine ⟨next, ⟨sound, ?_, handled.syscalls_eq.trans coherent.syscalls_eq⟩, sameTable⟩
  rw [handled.space_eq, coherent.space_eq, sameRoot]

theorem Coherent.saved (coherent : Coherent boot books kernel)
    (inUse : (kernel.resources.tasks.process slot).state ≠ .free) (frame : TrapFrame)
    (machine : Machine) : Coherent boot books (kernel.saved slot frame machine) :=
  (coherent.put { kernel.resources.tasks.process slot with frame } inUse inUse rfl
    kernel.resources.console).of_resources rfl rfl rfl

/-- What is handled once the registers of the slot are saved is handled from before. -/
theorem Handled.of_saved {child : Option (Fin slotCount)} {after : Kernel}
    {machine last : Machine} (inUse : (kernel.resources.tasks.process slot).state ≠ .free)
    (handled : Handled boot books slot frame child last (kernel.saved slot frame machine) after) :
    Handled boot books slot frame child last kernel after where
  spared := handled.spared.of_put inUse inUse kernel.resources.console
  turned := handled.turned.of_saved inUse
  machine_eq := handled.machine_eq
  space_eq := handled.space_eq
  syscalls_eq := handled.syscalls_eq
  ticks_eq := handled.ticks_eq

/-- A trap is handled: someone goes on, or the kernel stops for a reason that lies in the trap.
Either way the kernel's own directory is in force. -/
theorem ensures_handleTrap (coherent : Coherent boot books kernel)
    (current : kernel.scheduler.current = .ofIndex slot)
    (runnable : (kernel.resources.tasks.process slot).state = .runnable) (frame : TrapFrame) :
    (handleTrap frame).Ensures kernel
      (Continued boot books slot frame (kernel.machine.loadDirectory kernel.space.root) kernel)
      (Stopped boot books slot frame (kernel.machine.loadDirectory kernel.space.root) kernel) := by
  have inUse : (kernel.resources.tasks.process slot).state ≠ .free := by simp [runnable]
  have isSaved := coherent.saved inUse frame (kernel.machine.loadDirectory kernel.space.root)
  rw [handleTrap, ensures_bind, ensures_get, current, ensures_bind, ensures_onResources,
    Resources.ensures_modifyTasks, ProcessTable.modify_ofIndex, ensures_bind, ensures_get,
    ensures_bind, ensures_modifyMachine, ensures_bind]
  have atSlot : (kernel.saved slot frame (kernel.machine.loadDirectory
      kernel.space.root)).resources.tasks.process slot =
      { kernel.resources.tasks.process slot with frame } := ProcessTable.process_put_self ..
  apply (ensures_dispatch isSaved current (by rw [atSlot]; exact runnable)
    (by rw [atSlot] : _ = frame)).mono
  · rintro next after ⟨fits, follows, child, handled, filled⟩
    obtain ⟨last, lastCoherent, -⟩ := handled.coherent isSaved
    rw [ensures_bind, ensures_mapCause, ensures_inspect lastCoherent.check_eq_ok, ensures_pure]
    exact ⟨fits, follows, child, handled.of_saved inUse, filled⟩
  · rintro cause after ⟨justified, handled⟩
    exact ⟨justified, handled.of_saved inUse⟩

/-! ## A call from end to end -/

theorem ensures_performedCall (coherent : Coherent boot books kernel) {call : Syscall}
    {vector : UInt32} (asked : SyscallTable.standard.call? vector = some call)
    {done : UInt32 → Resources → Prop} {refused : Resources → Prop}
    (performed : (call.perform kernel.space (.ofIndex slot) frame.eax).Ensures kernel.resources
      done fun _ resources => refused resources) :
    (handleCall (.ofIndex slot) vector frame).Ensures kernel
      (fun next after => next = .resume (.ofIndex slot) ∧ ∃ resources answer console,
        (done answer resources ∨ answer = Syscall.failedCall ∧ refused resources) ∧
        after = { kernel with resources := answered resources slot answer console })
      fun _ _ => False := by
  rcases kernel with ⟨machine, resources, programs, space, scheduler, syscalls⟩
  obtain rfl := coherent.syscalls_eq
  have handled : SyscallTable.standard.handles vector = true := by
    rw [SyscallTable.handles, asked, Option.isSome_some]
  simp only [handleCall, ensures_bind, ensures_get]
  simp only [if_neg (show ¬(!SyscallTable.standard.handles vector) = true by simp [handled]),
    ensures_bind, ensures_get, ensures_answer, ensures_onResources, SyscallTable.dispatch, asked,
    ensures_require_some]
  apply performed.mono
  · rintro value ⟨nextMemory, nextTasks, nextConsole⟩ isDone
    rw [Resources.ensures_modifyTasks, ProcessTable.modify_ofIndex, ensures_pure]
    exact ⟨rfl, ⟨nextMemory, nextTasks, nextConsole⟩, _, _, .inl isDone, rfl⟩
  · rintro cause ⟨nextMemory, nextTasks, nextConsole⟩ isRefused
    rw [Resources.ensures_report, Resources.ensures_modifyTasks, ProcessTable.modify_ofIndex,
      ensures_pure]
    exact ⟨rfl, ⟨nextMemory, nextTasks, nextConsole⟩, _, _, .inr ⟨rfl, isRefused⟩, rfl⟩

/-- A trap that makes a call saves the caller's registers, and answers the call. -/
theorem ensures_callTrap (coherent : Coherent boot books kernel)
    (current : kernel.scheduler.current = .ofIndex slot)
    (runnable : (kernel.resources.tasks.process slot).state = .runnable) {call : Syscall}
    (asked : SyscallTable.standard.call? frame.vector = some call)
    {done : UInt32 → Resources → Prop} {refused : Resources → Prop}
    (performed : (call.perform kernel.space (.ofIndex slot) frame.eax).Ensures
      (kernel.saved slot frame (kernel.machine.loadDirectory kernel.space.root)).resources
      done fun _ resources => refused resources) :
    (handleTrap frame).Ensures kernel
      (fun next after => next = .resume (.ofIndex slot) ∧ ∃ resources answer console,
        (done answer resources ∨ answer = Syscall.failedCall ∧ refused resources) ∧
        after = { kernel with
          machine := kernel.machine.loadDirectory kernel.space.root
          resources := answered resources slot answer console })
      fun _ _ => False := by
  have inUse : (kernel.resources.tasks.process slot).state ≠ .free := by simp [runnable]
  have isSaved := coherent.saved inUse frame (kernel.machine.loadDirectory kernel.space.root)
  have atSlot : (kernel.saved slot frame (kernel.machine.loadDirectory
      kernel.space.root)).resources.tasks.process slot =
      { kernel.resources.tasks.process slot with frame } := ProcessTable.process_put_self ..
  have others : frame.vector ∉
      [Interrupt.pageFault, Interrupt.timer, Interrupt.panic, Interrupt.yield] := by
    rw [SyscallTable.vector_of_call? asked]
    cases call <;> decide
  have isCall : TrapCause.ofVector frame.vector = .call frame.vector := by
    rw [SyscallTable.vector_of_call? asked]
    cases call <;> rfl
  rw [handleTrap, ensures_bind, ensures_get, current, ensures_bind, ensures_onResources,
    Resources.ensures_modifyTasks, ProcessTable.modify_ofIndex, ensures_bind, ensures_get,
    ensures_bind, ensures_modifyMachine, ensures_bind, dispatch, isCall]
  have handled := ensures_call isSaved (by rw [atSlot]; exact runnable) (by rw [atSlot]) others
  apply ((ensures_performedCall isSaved asked performed).and handled).mono
  · rintro _ after ⟨⟨rfl, resources, answer, console, outcome, rfl⟩, -, -, child, handled, -⟩
    obtain ⟨last, lastCoherent, -⟩ := handled.coherent isSaved
    rw [ensures_bind, ensures_mapCause, ensures_inspect lastCoherent.check_eq_ok, ensures_pure]
    exact ⟨rfl, resources, answer, console, outcome, rfl⟩
  · exact fun _ _ impossible => impossible.1

end Kernel

end PagingKernel
