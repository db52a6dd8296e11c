import PagingKernel.Proofs.Run.Trace
import PagingKernel.Proofs.Twin.Start

/-!
# Runs that are taken again

A step of a run is determined by the state that it is taken in and by what
happens in it.  What happens in one run can happen as well in a run that began
with other contents of memory, and then the two stay twins: `Twin` is the
relation between their states, and every step preserves it.
-/

namespace PagingKernel.Run

open PagingKernel.Action PageTable

variable {boot : Ledger} {books : Books} {setting : Setting} {state next other left right : State}
  {event : Event}

/-! ## Steps by what happens in them -/

theorem Step.of_enter (step : Step state .enter next) :
    ∃ pid, state.phase = .entering pid ∧
      next = .after (fun _ => .user pid) (Kernel.switchTo pid state.kernel) := by
  cases step with
  | enter kernel pid => exact ⟨pid, rfl, rfl⟩

theorem Step.of_store {address : UInt32} {byte : UInt8}
    (step : Step state (.store address byte) next) :
    ∃ (slot : Fin slotCount) (mapping : Mapping), state.phase = .user (.ofIndex slot) ∧
      MayStore state.kernel slot ⟨address.toNat⟩ mapping ∧
      next = .after (fun _ => .user (.ofIndex slot))
        (storeByte mapping ⟨address.toNat⟩ byte state.kernel) := by
  cases step with
  | store kernel slot address byte mapping permitted => exact ⟨slot, mapping, rfl, permitted, rfl⟩

theorem Step.of_trap {faultAddress : Nat} {frame : TrapFrame}
    (step : Step state (.trap faultAddress frame) next) :
    ∃ pid, state.phase = .user pid ∧ next = .after .ofDispatch (Kernel.handleTrap frame
      { state.kernel with machine := { state.kernel.machine with faultAddress } }) := by
  cases step with
  | trap kernel pid faultAddress frame => exact ⟨pid, rfl, rfl⟩

/-- A step is determined by what happens in it. -/
theorem Step.functional (first : Step state event next) (second : Step state event other) :
    next = other := by
  cases event with
  | enter =>
      obtain ⟨pid, isEntering, rfl⟩ := first.of_enter
      obtain ⟨same, alsoEntering, rfl⟩ := second.of_enter
      obtain rfl := Phase.entering.inj (isEntering.symm.trans alsoEntering)
      rfl
  | store address byte =>
      obtain ⟨slot, mapping, inUser, permitted, rfl⟩ := first.of_store
      obtain ⟨same, alsoMapping, alsoUser, alsoPermitted, rfl⟩ := second.of_store
      obtain rfl := ProcessTable.ofIndex_injective (Phase.user.inj (inUser.symm.trans alsoUser))
      obtain rfl := Option.some.inj (Except.ok.inj
        (permitted.lookup.symm.trans alsoPermitted.lookup))
      rfl
  | trap faultAddress frame =>
      obtain ⟨pid, -, rfl⟩ := first.of_trap
      obtain ⟨same, -, rfl⟩ := second.of_trap
      rfl

/-- The states of a trace are determined by where it begins and by what happens. -/
theorem Trace.functional {first last final : State} {past retrace : List Moment}
    (trace : Trace first past last) (again : Trace first retrace final)
    (same : retrace.map Moment.event = past.map Moment.event) : retrace = past ∧ final = last := by
  induction trace generalizing retrace final with
  | nil =>
      obtain rfl := List.map_eq_nil_iff.mp same
      exact ⟨rfl, again.of_nil.symm⟩
  | @snoc past state next event trace step ih =>
      rw [List.map_append] at same
      obtain ⟨early, late, rfl, sameEarly, sameLate⟩ := List.map_eq_append_iff.mp same
      obtain ⟨moment, rfl, isEvent⟩ := List.map_eq_singleton_iff.mp sameLate
      obtain ⟨before, lastStep, rfl⟩ := again.of_snoc
      obtain ⟨rfl, isBefore⟩ := ih before sameEarly
      rcases moment with ⟨_, _, after⟩
      dsimp only at isEvent isBefore lastStep ⊢
      subst isEvent isBefore
      obtain rfl := step.functional lastStep
      exact ⟨rfl, rfl⟩

/-! ## Twins -/

/-- States of two runs that are in the same phase, with kernels that are twins. -/
structure Twin (boot : Ledger) (left right : State) : Prop where
  phase_eq : left.phase = right.phase
  kernels : Kernel.Twins boot left.kernel right.kernel

/-- Where actions agree, the states after them are twins. -/
theorem twin_after {α : Type} {here there : Action Kernel Fatal α} {left right : Kernel}
    (agree : Agree here there left right (fun _ => Kernel.Twins boot) fun _ => Kernel.Twins boot)
    (phase : α → Phase) :
    Twin boot (.after phase (here left)) (.after phase (there right)) := by
  rcases agree_iff.mp agree with
    ⟨value, stop, last, ranLeft, ranRight, held⟩ | ⟨cause, stop, last, ranLeft, ranRight, held⟩
  · rw [ranLeft, ranRight]
    exact ⟨rfl, held⟩
  · rw [ranLeft, ranRight]
    exact ⟨rfl, held⟩

/-- No message is asked for from the page of the console. -/
def Event.Discreet : Event → Prop
  | .trap _ frame => Kernel.Discreet frame
  | _ => True

section Steps

variable {kernel twin : Kernel} {slot : Fin slotCount} {page : Fin pageCount}

theorem agree_switchTo (twins : Kernel.Twin boot books kernel twin)
    (runnable : (kernel.resources.tasks.process slot).state = .runnable) :
    Agree (Kernel.switchTo (.ofIndex slot) : Action Kernel Fatal TrapFrame)
      (Kernel.switchTo (.ofIndex slot)) kernel twin (fun _ => Kernel.Twins boot)
      fun _ => Kernel.Twins boot := by
  obtain ⟨alike, onLeft, onRight⟩ := twins
  have alsoRunnable := runnable
  rw [alike.resources.tasks_eq] at alsoRunnable
  refine agree_of_ensures_done (Kernel.ensures_switchTo Fatal runnable)
    (Kernel.ensures_switchTo Fatal alsoRunnable) ?_
  rintro _ _ _ _ ⟨rfl, rfl⟩ ⟨rfl, rfl⟩
  have sameDirectory : kernel.directory slot = twin.directory slot := by
    rw [Kernel.directory, Kernel.directory, Kernel.userSpace, Kernel.userSpace,
      alike.resources.tasks_eq, alike.space_eq]
  refine ⟨by rw [alike.resources.tasks_eq], books, ⟨?_, alike.programs_eq, alike.space_eq, ?_,
    alike.syscalls_eq, alike.resources⟩, onLeft.of_resources rfl rfl rfl,
    onRight.of_resources rfl rfl rfl⟩
  · dsimp only
    rw [alike.machine_eq, sameDirectory]
  · dsimp only
    rw [alike.scheduler_eq]

/-- A kernel stays coherent when a byte is stored where user code may store it. -/
theorem coherent_of_store (coherent : Kernel.Coherent boot books kernel)
    (isOpen : books.OpenTo boot slot page) (va : VirtAddr) (byte : UInt8) :
    Kernel.Coherent boot books { kernel with resources :=
      ⟨⟨kernel.resources.memory.ledger,
        kernel.resources.memory.ram.overwrite page va.pageOffset 1 fun _ => byte⟩,
        kernel.resources.tasks, kernel.resources.console⟩ } where
  sound := by
    have inside : va.pageOffset + 1 ≤ pageSize := Nat.mod_lt _ (by decide)
    refine coherent.sound.ram_congr fun other structural => Ram.samePage_overwrite_of_ne inside ?_
    rintro rfl
    exact isOpen.not_structural coherent.sound.balanced structural
  space_eq := coherent.space_eq
  syscalls_eq := coherent.syscalls_eq

theorem agree_storeByte (twins : Kernel.Twin boot books kernel twin) {mapping : Mapping}
    (onPage : mapping.pa = .ofPage page) (isOpen : books.OpenTo boot slot page) (va : VirtAddr)
    (byte : UInt8) :
    Agree (storeByte mapping va byte) (storeByte mapping va byte) kernel twin
      (fun _ => Kernel.Twins boot) fun _ => Kernel.Twins boot := by
  have inside : va.pageOffset + 1 ≤ pageSize := Nat.mod_lt _ (by decide)
  obtain ⟨alike, onLeft, onRight⟩ := twins
  refine agree_of_eq_ok (storeByte_eq_ok onPage va byte) (storeByte_eq_ok onPage va byte)
    ⟨books, alike.of_resources ⟨alike.resources.tasks_eq, alike.resources.memory.ledger_eq, ?_⟩,
      coherent_of_store onLeft isOpen va byte, coherent_of_store onRight isOpen va byte⟩
  exact fun other taken new => (alike.resources.memory.pages other taken new).overwrite inside _

/-- What is permitted in a kernel is permitted in its twin. -/
theorem mayStore_of_twin (twins : Kernel.Twin boot books kernel twin) {view : SpaceView}
    (found : books.space slot = some view) {va : VirtAddr} {mapping : Mapping}
    (permitted : MayStore kernel slot va mapping) : MayStore twin slot va mapping where
  lookup := by
    rw [twins.onRight.lookup_directory found, ← twins.onLeft.lookup_directory found]
    exact permitted.lookup
  writable := permitted.writable

end Steps

/-- What can happen in a state can happen in its twin, and leads to twins. -/
theorem Regular.exists_step_of_twin (regular : Regular boot books left)
    (twin : Twin boot left right) (discreet : event.Discreet) (step : Step left event next) :
    ∃ last, Step right event last ∧ Twin boot next last := by
  rcases right with ⟨kernel, phase⟩
  obtain ⟨rfl, _, alike, -, onRight⟩ := twin
  have twins := alike.twin regular.coherent onRight
  cases step with
  | enter left pid =>
      obtain ⟨slot, rfl, -, runnable⟩ := regular.phase
      exact ⟨_, .enter kernel _, twin_after (agree_switchTo twins runnable) _⟩
  | store left slot address byte mapping permitted =>
      have fits : Dispatch.Fits left.resources.tasks (.resume (.ofIndex slot)) := regular.phase.1
      have inUse : (left.resources.tasks.process slot).state ≠ .free := by simp [fits.runnable]
      obtain ⟨view, found⟩ := regular.coherent.sound.exists_space inUse
      obtain ⟨page, onPage, isOpen⟩ := openTo_of_mayStore regular found permitted
      exact ⟨_, .store kernel slot address byte mapping (mayStore_of_twin twins found permitted),
        twin_after (agree_storeByte twins onPage isOpen _ byte) _⟩
  | trap left pid faultAddress frame =>
      obtain ⟨⟨slot, rfl, -, runnable⟩, current⟩ := regular.phase
      have reported : Kernel.Twin boot books
          { left with machine := { left.machine with faultAddress } }
          { kernel with machine := { kernel.machine with faultAddress } } :=
        twins.withMachine ({ · with faultAddress })
      exact ⟨_, .trap kernel _ faultAddress frame,
        twin_after (reported.agree_handleTrap current runnable discreet) _⟩

/-! ## Whole runs -/

/-- Two moments in which the same happens, in states that are twins. -/
structure Moment.Twin (boot : Ledger) (left right : Moment) : Prop where
  event_eq : left.event = right.event
  before : Run.Twin boot left.before right.before
  after : Run.Twin boot left.after right.after

/-- A run can be taken again from a twin of the state that it began in. -/
theorem Trace.exists_retrace {first last again : State} {past : List Moment}
    (laidOut : Ledger.ofLayout setting.layout = .ok boot) (reached : Reached setting first)
    (trace : Trace first past last) (twin : Twin boot first again)
    (discreet : ∀ moment ∈ past, moment.event.Discreet) :
    ∃ retrace final, Trace again retrace final ∧ Twin boot last final ∧
      List.Forall₂ (Moment.Twin boot) past retrace := by
  induction trace with
  | nil => exact ⟨[], again, .nil, twin, .nil⟩
  | @snoc past state next event trace step ih =>
      obtain ⟨retrace, final, retraced, twins, moments⟩ :=
        ih fun moment listed => discreet moment (List.mem_append_left _ listed)
      obtain ⟨_, books, alsoLaidOut, regular⟩ := regular_of_reached (trace.reached reached)
      obtain rfl := Except.ok.inj (laidOut.symm.trans alsoLaidOut)
      have quiet : event.Discreet := discreet ⟨state, event, next⟩ (by simp)
      obtain ⟨last, taken, after⟩ := regular.exists_step_of_twin twins quiet step
      exact ⟨_, last, retraced.snoc taken, after,
        List.rel_append moments (.cons ⟨rfl, twins, after⟩ .nil)⟩

end PagingKernel.Run
