import PagingKernel.Proofs.Kernel.Handle
import PagingKernel.Proofs.Kernel.Start
import PagingKernel.Proofs.Run.Steps

/-!
# The invariant of runs

A state is regular if its kernel is coherent and its phase fits the process
table.  `Moved` says what one step does to a regular state, whatever the event,
and with it every state that a run reaches is regular.
-/

namespace PagingKernel.Run

open PagingKernel.Action PageTable

/-- The phase of a run fits the kernel: who runs can run, and a stop is not for a fault. -/
def Phase.Fits (kernel : Kernel) : Phase → Prop
  | entering pid => Dispatch.Fits kernel.resources.tasks (.resume pid)
  | user pid => Dispatch.Fits kernel.resources.tasks (.resume pid) ∧
      kernel.scheduler.current = pid
  | idle => Dispatch.Fits kernel.resources.tasks .idle
  | stopped failure => ∃ cause, failure = .refused cause

/-- Kernel and books agree, the page of the console was set aside, and the phase fits. -/
structure Regular (boot : Ledger) (books : Books) (state : State) : Prop where
  coherent : Kernel.Coherent boot books state.kernel
  console : boot.Taken consolePage
  phase : state.phase.Fits state.kernel

/-- How many ticks of the timer an event is. -/
def Event.ticks : Event → UInt64
  | .trap _ frame => if frame.vector = Interrupt.timer then 1 else 0
  | _ => 0

/-- The event is a successful fork that filled the slot of the child. -/
def Event.Forks (event : Event) (slot child : Fin slotCount) (next : State) : Prop :=
  (∃ faultAddress frame, event = .trap faultAddress frame ∧ frame.vector = Interrupt.fork) ∧
    next.phase = .entering (.ofIndex slot) ∧
    (next.kernel.resources.tasks.process slot).frame.eax = (Pid.ofIndex child).raw

/-- What a step of the process of a slot does to a regular state. -/
structure Moved (boot : Ledger) (books : Books) (slot : Fin slotCount) (event : Event)
    (before after : State) : Prop where
  spared : ∃ child,
    Spared boot books slot child before.kernel.resources after.kernel.resources ∧
    ∀ filled, child = some filled → event.Forks slot filled after
  space_eq : after.kernel.space = before.kernel.space
  syscalls_eq : after.kernel.syscalls = before.kernel.syscalls
  ticks_eq : after.kernel.scheduler.ticks = before.kernel.scheduler.ticks + event.ticks
  phase : after.phase.Fits after.kernel
  justified : ∀ cause, after.phase = .stopped (.refused cause) →
    ∃ faultAddress frame, event = .trap faultAddress frame ∧ cause.Justified frame

variable {setting : Setting} {boot : Ledger} {books : Books} {state next : State} {event : Event}
  {kernel : Kernel} {slot : Fin slotCount} {view : SpaceView}

/-! ## What a step does -/

theorem openTo_of_mayStore (regular : Regular boot books state)
    (found : books.space slot = some view) {address : UInt32} {mapping : Mapping}
    (permitted : MayStore state.kernel slot ⟨address.toNat⟩ mapping) :
    ∃ page : Fin pageCount, mapping.pa = .ofPage page ∧ books.OpenTo boot slot page := by
  have writable := permitted.writable
  rcases regular.coherent.user_cases found permitted.lookup
      (PageFlags.user_of_isUserWritable writable) with
    ⟨-, rfl⟩ | ⟨-, -, place, leaf, mapped, rfl⟩
  · exact ⟨consolePage, rfl, .inl regular.console⟩
  · rw [Leaf.mapping_flags, Leaf.isUserWritable_flags] at writable
    exact ⟨leaf.page, rfl, .inr ⟨view, place, leaf, found, mapped, writable, rfl⟩⟩

theorem storeByte_eq_ok {mapping : Mapping} {page : Fin pageCount}
    (onPage : mapping.pa = .ofPage page) (va : VirtAddr) (byte : UInt8) :
    storeByte mapping va byte kernel = .ok () { kernel with resources :=
      ⟨⟨kernel.resources.memory.ledger,
        kernel.resources.memory.ram.overwrite page va.pageOffset 1 fun _ => byte⟩,
        kernel.resources.tasks, kernel.resources.console⟩ } := by
  have inside : va.pageOffset + 1 ≤ pageSize := Nat.mod_lt _ (by decide)
  refine eq_ok_of_ensures ?_
  rw [storeByte, Kernel.ensures_onResources, Resources.ensures_onMemory, Memory.ensures_onRam,
    onPage]
  exact (ensures_of_eq_ok (Ram.replace_inside inside fun _ => byte)).mpr ⟨rfl, rfl⟩

theorem ensures_storeByte {mapping : Mapping} {page : Fin pageCount}
    (onPage : mapping.pa = .ofPage page) (va : VirtAddr) (byte : UInt8) :
    (storeByte mapping va byte).Ensures kernel
      (fun _ after => ∃ ram, after = { kernel with resources :=
          ⟨⟨kernel.resources.memory.ledger, ram⟩, kernel.resources.tasks,
            kernel.resources.console⟩ } ∧
        ∀ other, other ≠ page → Ram.SamePage kernel.resources.memory.ram ram other)
      fun _ _ => False := by
  have inside : va.pageOffset + 1 ≤ pageSize := Nat.mod_lt _ (by decide)
  refine (ensures_of_eq_ok (storeByte_eq_ok onPage va byte)).mpr ⟨_, rfl, fun other apart => ?_⟩
  exact Ram.samePage_overwrite_of_ne inside apart

/-- A trap that user code takes in a regular state is handled, or stops the kernel. -/
theorem Regular.trap_cases (regular : Regular boot books ⟨kernel, .user (.ofIndex slot)⟩)
    (faultAddress : Nat) (frame : TrapFrame) :
    let reported := { kernel with machine := { kernel.machine with faultAddress } }
    let entered := reported.machine.loadDirectory kernel.space.root
    (∃ decision after, Kernel.handleTrap frame reported = .ok decision after ∧
      Kernel.Continued boot books slot frame entered reported decision after) ∨
    ∃ cause after, Kernel.handleTrap frame reported = .error (.refused cause) after ∧
      Kernel.Stopped boot books slot frame entered reported cause after := by
  obtain ⟨fits, current⟩ := regular.phase
  have reported := regular.coherent.withMachine { kernel.machine with faultAddress }
  exact (Kernel.ensures_handleTrap reported current fits.runnable frame).cases

theorem moved_enter (regular : Regular boot books ⟨kernel, .entering (.ofIndex slot)⟩) :
    Moved boot books slot .enter ⟨kernel, .entering (.ofIndex slot)⟩
      (.after (fun _ => .user (.ofIndex slot)) (Kernel.switchTo (.ofIndex slot) kernel)) := by
  have fits : Dispatch.Fits kernel.resources.tasks (.resume (.ofIndex slot)) := regular.phase
  rcases (Kernel.ensures_switchTo Fatal fits.runnable).cases with
      ⟨_, _, ran, -, rfl⟩ | ⟨_, _, -, impossible⟩
  · rw [ran]
    exact {
      spared := ⟨none, Spared.refl regular.coherent.sound slot kernel.resources.console
        kernel.resources.console, fun _ impossible => by cases impossible⟩
      space_eq := rfl
      syscalls_eq := rfl
      ticks_eq := (UInt64.add_zero _).symm
      phase := ⟨fits, rfl⟩
      justified := fun _ impossible => by cases impossible }
  · exact impossible.elim

theorem moved_store (regular : Regular boot books ⟨kernel, .user (.ofIndex slot)⟩)
    {address : UInt32} {byte : UInt8} {mapping : Mapping}
    (permitted : MayStore kernel slot ⟨address.toNat⟩ mapping) :
    Moved boot books slot (.store address byte) ⟨kernel, .user (.ofIndex slot)⟩
      (.after (fun _ => .user (.ofIndex slot))
        (storeByte mapping ⟨address.toNat⟩ byte kernel)) := by
  have fits : Dispatch.Fits kernel.resources.tasks (.resume (.ofIndex slot)) := regular.phase.1
  have inUse : (kernel.resources.tasks.process slot).state ≠ .free := by simp [fits.runnable]
  obtain ⟨view, found⟩ := regular.coherent.sound.exists_space inUse
  obtain ⟨page, onPage, isOpen⟩ := openTo_of_mayStore regular found permitted
  rcases (ensures_storeByte onPage ⟨address.toNat⟩ byte).cases with
    ⟨_, _, ran, ram, rfl, kept⟩ | ⟨_, _, -, impossible⟩
  · rw [ran]
    exact {
      spared := ⟨none, Spared.of_write regular.coherent.sound isOpen kept kernel.resources.console
        kernel.resources.console, fun _ impossible => by cases impossible⟩
      space_eq := rfl
      syscalls_eq := rfl
      ticks_eq := (UInt64.add_zero _).symm
      phase := regular.phase
      justified := fun _ impossible => by cases impossible }
  · exact impossible.elim

/-- A trap is handled for the process that took it. -/
theorem moved_trap (regular : Regular boot books ⟨kernel, .user (.ofIndex slot)⟩)
    (faultAddress : Nat) (frame : TrapFrame) :
    Moved boot books slot (.trap faultAddress frame) ⟨kernel, .user (.ofIndex slot)⟩
      (.after .ofDispatch (Kernel.handleTrap frame
        { kernel with machine := { kernel.machine with faultAddress } })) := by
  rcases regular.trap_cases faultAddress frame with
    ⟨decision, after, ran, fits, -, child, handled, filled⟩ |
    ⟨cause, after, ran, justified, handled⟩
  · rw [ran]
    exact {
      spared := by
        refine ⟨child, handled.spared, fun found isChild => ?_⟩
        obtain ⟨isFork, rfl, answered⟩ := filled found isChild
        exact ⟨⟨faultAddress, frame, rfl, isFork⟩, rfl, answered⟩
      space_eq := handled.space_eq
      syscalls_eq := handled.syscalls_eq
      ticks_eq := handled.ticks_eq
      phase := by
        cases decision with
        | resume pid => exact fits
        | idle => exact fits
      justified := by
        cases decision with
        | resume pid => exact fun _ impossible => by cases impossible
        | idle => exact fun _ impossible => by cases impossible }
  · rw [ran]
    exact {
      spared := ⟨none, handled.spared, fun _ impossible => by cases impossible⟩
      space_eq := handled.space_eq
      syscalls_eq := handled.syscalls_eq
      ticks_eq := handled.ticks_eq
      phase := ⟨cause, rfl⟩
      justified := by
        intro other same
        cases same
        exact ⟨faultAddress, frame, rfl, justified⟩ }

/-- What a trap of the process of a slot does beyond sparing the others. -/
structure TrapTaken (slot : Fin slotCount) (frame : TrapFrame) (before after : State) : Prop where
  turned : Kernel.Turned slot frame before.kernel after.kernel
  root : after.kernel.machine.activeRoot? = some after.kernel.space.root
  next : (∃ decision, after.phase = .ofDispatch decision ∧
      decision.Follows slot frame after.kernel.resources.tasks) ∨
    (∃ failure, after.phase = .stopped failure) ∧ ¬frame.Reschedules

/-- A trap turns its process, and leaves the kernel's own directory in force. -/
theorem trapTaken (regular : Regular boot books ⟨kernel, .user (.ofIndex slot)⟩)
    (faultAddress : Nat) (frame : TrapFrame) :
    TrapTaken slot frame ⟨kernel, .user (.ofIndex slot)⟩
      (.after .ofDispatch (Kernel.handleTrap frame
        { kernel with machine := { kernel.machine with faultAddress } })) := by
  rcases regular.trap_cases faultAddress frame with
    ⟨decision, after, ran, -, follows, child, handled, -⟩ | ⟨cause, after, ran, justified, handled⟩
  · rw [ran]
    refine ⟨handled.turned.of_machine, ?_, .inl ⟨decision, rfl, follows⟩⟩
    change after.machine.activeRoot? = some after.space.root
    rw [handled.machine_eq, Machine.activeRoot?_loadDirectory, handled.space_eq]
  · rw [ran]
    refine ⟨handled.turned.of_machine, ?_, .inr ⟨⟨_, rfl⟩, justified.not_reschedules⟩⟩
    change after.machine.activeRoot? = some after.space.root
    rw [handled.machine_eq, Machine.activeRoot?_loadDirectory, handled.space_eq]

/-- The process whose turn it is, while one has its turn. -/
def Phase.pid? : Phase → Option Pid
  | entering pid => some pid
  | user pid => some pid
  | _ => none

/-- Every step of a regular state is a step of the process whose turn it is. -/
theorem Regular.moved (regular : Regular boot books state) (step : Step state event next) :
    ∃ slot : Fin slotCount, state.phase.pid? = some (.ofIndex slot) ∧
      Moved boot books slot event state next := by
  cases step with
  | enter kernel pid =>
      obtain ⟨slot, rfl, -⟩ := regular.phase
      exact ⟨slot, rfl, moved_enter regular⟩
  | store kernel slot address byte mapping permitted =>
      exact ⟨slot, rfl, moved_store regular permitted⟩
  | trap kernel pid faultAddress frame =>
      obtain ⟨⟨slot, rfl, -⟩, -⟩ := regular.phase
      exact ⟨slot, rfl, moved_trap regular faultAddress frame⟩

/-! ## The invariant -/

theorem Moved.regular (moved : Moved boot books slot event state next)
    (regular : Regular boot books state) : ∃ last, Regular boot last next := by
  obtain ⟨child, spared, -⟩ := moved.spared
  obtain ⟨last, sound, sameRoot, -⟩ := spared.sound
  refine ⟨last, ⟨sound, ?_, moved.syscalls_eq.trans regular.coherent.syscalls_eq⟩,
    regular.console, moved.phase⟩
  rw [moved.space_eq, regular.coherent.space_eq, sameRoot]

/-- Every state that a run reaches is regular. -/
theorem regular_of_reached (reached : Reached setting state) :
    ∃ boot books, Ledger.ofLayout setting.layout = .ok boot ∧ Regular boot books state := by
  induction reached with
  | @start kernel started pid booted created =>
      obtain ⟨boot, books, laidOut, isBooted⟩ := Kernel.booted_of_boot booted
      have starts := (Kernel.ensures_start isBooted.coherent _).done created
      obtain ⟨slot, rfl, runnable⟩ := starts.first
      obtain ⟨last, coherent⟩ := starts.populated.coherent
      have console : boot.Taken consolePage := by
        rw [Ledger.Taken, Ledger.entry_of_isReserved laidOut (by decide)]
        decide
      refine ⟨boot, last, laidOut, coherent, console, slot, rfl, ?_, runnable⟩
      exact coherent.sound.ne_reserved (by simp [runnable])
  | step reached step regular =>
      rcases regular with ⟨boot, books, laidOut, regular⟩
      obtain ⟨slot, -, moved⟩ := regular.moved step
      obtain ⟨last, regular⟩ := moved.regular regular
      exact ⟨boot, last, laidOut, regular⟩

end PagingKernel.Run
