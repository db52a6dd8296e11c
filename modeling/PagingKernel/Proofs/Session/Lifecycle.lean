import PagingKernel.Proofs.Run.Underway
import PagingKernel.Proofs.Session.Traps

/-!
# The life of a slot

Whatever is called, in whatever order, a slot that is not reserved is filled
once at most and broken once at most, and nothing else becomes of it.  The
reserved slot stays free, and the check passes, unless a page fault of user code
is reported before any process has run: then the reserved slot itself is broken.
-/

namespace PagingKernel

open PagingKernel.Action

/-- What may become of a slot in one call: it stays as it is, is filled, or is broken. -/
def ProcessState.Moves (before after : ProcessState) : Prop :=
  after = before ∨ before = .free ∧ after = .runnable ∨ before = .runnable ∧ after = .broken

/-- How far the life of a slot has come. -/
def ProcessState.age : ProcessState → Nat
  | .free => 0
  | .runnable => 1
  | .broken => 2

theorem ProcessState.Moves.age_le {before after : ProcessState} (moves : before.Moves after) :
    before.age ≤ after.age := by
  rcases moves with rfl | ⟨rfl, rfl⟩ | ⟨rfl, rfl⟩
  · exact Nat.le_refl _
  · decide
  · decide

/-- The state of a slot. -/
def Kernel.slotState (kernel : Kernel) (slot : Fin slotCount) : ProcessState :=
  (kernel.resources.tasks.process slot).state

/-! ## What a call leaves -/

/-- The current process is that of a slot in use, or none has run yet. -/
def Kernel.Occupied (kernel : Kernel) : Prop :=
  ∃ slot : Fin slotCount, kernel.scheduler.current = .ofIndex slot ∧
    (slot = ProcessTable.reservedSlot ∨ kernel.slotState slot ≠ .free)

variable {boot : Ledger} {kernelRoot : Fin pageCount} {kernel : Kernel}

/-- What becomes of the kernel and its slots in a call. -/
structure Proceeds (boot : Ledger) (kernelRoot : Fin pageCount) (before : Kernel) (call : Call)
    (after : Kernel) : Prop where
  steady : after.Steady boot kernelRoot
  occupied : after.Occupied
  moves : ∀ slot, slot ≠ ProcessTable.reservedSlot →
    (before.slotState slot).Moves (after.slotState slot)
  breaks : ∀ slot, before.slotState slot = .runnable → after.slotState slot = .broken →
    ∃ faultAddress frame, call = .handleTrap faultAddress frame ∧ frame.IsUserFault
  strayed : call.Strays before → after.slotState ProcessTable.reservedSlot = .broken
  unstrayed : ¬call.Strays before →
    after.slotState ProcessTable.reservedSlot = before.slotState ProcessTable.reservedSlot

namespace Kernel

theorem Advanced.occupied {after : Kernel} (occupied : kernel.Occupied)
    (advanced : Advanced boot kernelRoot ProcessTable.Fills kernel after) : after.Occupied := by
  obtain ⟨slot, current, inUse⟩ := occupied
  refine ⟨slot, advanced.current_eq.trans current, inUse.imp_right fun inUse => ?_⟩
  rcases advanced.states slot with same | ⟨-, isFree, -⟩
  · exact fun isFree => inUse (same.symm.trans isFree)
  · exact absurd isFree inUse

theorem Advanced.proceeds {after : Kernel} {call : Call} (occupied : kernel.Occupied)
    (advanced : Advanced boot kernelRoot ProcessTable.Fills kernel after)
    (onCourse : ¬call.Strays kernel) : Proceeds boot kernelRoot kernel call after where
  steady := advanced.steady
  occupied := advanced.occupied occupied
  moves slot _ := (advanced.states slot).imp_right fun filled => .inl filled.2
  breaks slot runnable isBroken := by
    unfold slotState at runnable isBroken
    rcases advanced.states slot with same | ⟨-, isFree, -⟩
    · rw [isBroken, runnable] at same
      cases same
    · rw [runnable] at isFree
      cases isFree
  strayed strays := absurd strays onCourse
  unstrayed _ := advanced.states.reserved_eq

/-- Handling a trap breaks the current process or fills slots. -/
theorem Advanced.proceeds_of_turns {after : Kernel} {slot : Fin slotCount} {frame : TrapFrame}
    {faultAddress : Nat} (current : kernel.scheduler.current = .ofIndex slot)
    (inUse : slot = ProcessTable.reservedSlot ∨ kernel.slotState slot ≠ .free)
    (advanced : Advanced boot kernelRoot (Turns slot frame) kernel after) :
    Proceeds boot kernelRoot kernel (.handleTrap faultAddress frame) after := by
  rcases advanced.states with ⟨fault, isBroken, others⟩ | ⟨quiet, fills⟩
  · have strays_iff : (Call.handleTrap faultAddress frame).Strays kernel ↔
        slot = ProcessTable.reservedSlot := by
      rw [Call.Strays, current, ProcessTable.ofIndex_eq_reserved_iff, and_iff_left fault]
    refine ⟨advanced.steady, ⟨slot, advanced.current_eq.trans current, ?_⟩, ?_,
      fun _ _ _ => ⟨faultAddress, frame, rfl, fault⟩, ?_, ?_⟩
    · exact .inr (by rw [slotState, isBroken]; simp)
    · intro other notReserved
      by_cases here : other = slot
      · subst here
        have notFree := inUse.resolve_left notReserved
        unfold slotState at notFree ⊢
        rw [isBroken]
        cases state : (kernel.resources.tasks.process other).state with
        | free => exact absurd state notFree
        | runnable => exact .inr (.inr ⟨rfl, rfl⟩)
        | broken => exact .inl rfl
      · exact .inl (others other here)
    · intro strays
      rw [slotState, ← strays_iff.mp strays]
      exact isBroken
    · intro onCourse
      exact others _ fun same => onCourse (strays_iff.mpr same.symm)
  · exact Advanced.proceeds ⟨slot, current, inUse⟩
      ⟨advanced.steady, advanced.current_eq, fills⟩ fun strays => quiet strays.2

/-! ## Starting -/

/-- Creating the processes of a list fills slots at most, even if it fails on the way. -/
theorem ensures_createProcesses_steady (steady : Steady boot kernelRoot kernel)
    (processes : List (Pid × Nat)) :
    (createProcesses processes).Ensures kernel
      (fun _ => Advanced boot kernelRoot ProcessTable.Fills kernel)
      fun cause after => Advanced boot kernelRoot ProcessTable.Fills kernel after ∧
        ∀ violation, cause ≠ .invariant violation := by
  refine ensures_forEach (fun _ => Advanced boot kernelRoot ProcessTable.Fills kernel)
    steady.advanced_refl ?_
  rintro earlier ⟨pid, program⟩ later
    ⟨machine, resources, programs, space, scheduler, syscalls⟩ - ⟨stillSteady, sameCurrent, fills⟩
  obtain rfl : space = _ := stillSteady.space_eq
  have created {next : Resources} (keeps : Keeps boot kernelRoot resources next) :
      Advanced boot kernelRoot ProcessTable.Fills kernel
        ⟨machine, next, programs, ⟨⟨.ofPage kernelRoot⟩, .kernel⟩, scheduler, syscalls⟩ :=
    ⟨(stillSteady.advanced keeps).steady, sameCurrent, fills.trans keeps.fills⟩
  simp only [ensures_bind, ensures_get, ensures_mapCause, ensures_onResources]
  apply (stillSteady.kept.ensures_setup programs pid program).mono
  · exact fun _ _ keeps => created keeps
  · exact fun _ _ keeps => ⟨created keeps, fun _ => by simp⟩

theorem ensures_start_steady (steady : Steady boot kernelRoot kernel) (workload : Workload) :
    (start workload).Ensures kernel
      (fun _ => Advanced boot kernelRoot ProcessTable.Fills kernel)
      fun cause after => Advanced boot kernelRoot ProcessTable.Fills kernel after ∧
        ∀ violation, cause = .invariant violation →
          after.slotState ProcessTable.reservedSlot ≠ .free := by
  simp only [start, ensures_bind, ensures_modifyMachine, ensures_mapCause]
  apply (ensures_createProcesses_steady
    (steady.withMachine (kernel.machine.startTimer timerFrequency)) workload.processes).mono
  · rintro _ after ⟨stillSteady, sameCurrent, fills⟩
    rcases stillSteady.check_cases with ⟨-, passes⟩ | ⟨inUse, fails⟩
    · rw [ensures_inspect passes, ensures_onResources, Resources.ensures_report, ensures_pure]
      exact ⟨(stillSteady.withConsole _).steady, sameCurrent, fills⟩
    · rw [ensures_inspect_refused fails]
      exact ⟨⟨stillSteady, sameCurrent, fills⟩, fun _ _ => inUse⟩
  · rintro cause after ⟨⟨stillSteady, sameCurrent, fills⟩, consistent⟩
    exact ⟨⟨stillSteady, sameCurrent, fills⟩, fun violation same =>
      absurd same (consistent violation)⟩

end Kernel

/-! ## Calls -/

/-- What a call answers, and what of it is to be seen in the kernel that it leaves. -/
def Call.Answers (before after : Kernel) : Call → Answer → Prop
  | .start _, .started _ => True
  | .switchTo _, .entered _ => True
  | .handleTrap _ frame, .handled next =>
      next.GoesOn before.scheduler.current frame after.resources.tasks ∧
        after.slotState ProcessTable.reservedSlot = .free
  | _, _ => False

/-- Why a call is refused: the check only ever finds that the reserved slot is in use. -/
def Call.Refuses (after : Kernel) : Call → Refusal → Prop
  | .start _, .start cause => ∀ violation, cause = .invariant violation →
      after.slotState ProcessTable.reservedSlot ≠ .free
  | .handleTrap _ frame, .trap cause => cause.Justified frame ∨
      cause = .invariant .reservedSlotInUse ∧ after.slotState ProcessTable.reservedSlot ≠ .free
  | _, _ => False

theorem Call.ensures_perform (steady : kernel.Steady boot kernelRoot) (occupied : kernel.Occupied)
    {call : Call} (permitted : call.Permitted kernel) :
    call.perform.Ensures kernel
      (fun answer after => Proceeds boot kernelRoot kernel call after ∧
        call.Answers kernel after answer)
      fun refusal after => Proceeds boot kernelRoot kernel call after ∧
        call.Refuses after refusal := by
  cases call with
  | start workload =>
      rw [perform, ensures_bind, ensures_mapCause]
      apply (Kernel.ensures_start_steady steady workload).mono
      · exact fun _ _ advanced => ensures_pure.mpr ⟨advanced.proceeds occupied id, trivial⟩
      · exact fun _ _ ⟨advanced, inUse⟩ => ⟨advanced.proceeds occupied id, inUse⟩
  | switchTo pid =>
      obtain ⟨slot, rfl, runnable⟩ := Scheduler.exists_slot_of_state? permitted
      rw [perform, ensures_bind]
      refine (Kernel.ensures_switchTo Refusal runnable).mono ?_ fun _ _ impossible =>
        impossible.elim
      rintro _ _ ⟨-, rfl⟩
      refine ensures_pure.mpr ⟨⟨⟨steady.kept, steady.space_eq, steady.syscalls_eq⟩,
        ⟨slot, rfl, .inr ?_⟩, fun _ _ => .inl rfl, fun other runnable isBroken => ?_,
        fun strays => strays.elim, fun _ => rfl⟩, trivial⟩
      · rw [Kernel.slotState, runnable]
        simp
      · cases runnable.symm.trans isBroken
  | handleTrap faultAddress frame =>
      obtain ⟨slot, current, inUse⟩ := occupied
      have proceeds {after : Kernel} (advanced : Kernel.Advanced boot kernelRoot
          (Kernel.Turns slot frame) { kernel with machine := { kernel.machine with faultAddress } }
          after) : Proceeds boot kernelRoot kernel (.handleTrap faultAddress frame) after :=
        Kernel.Advanced.proceeds_of_turns current inUse
          ⟨advanced.steady, advanced.current_eq, advanced.states⟩
      rw [perform, ensures_bind, Kernel.ensures_modifyMachine, ensures_bind, ensures_mapCause]
      apply (Kernel.ensures_handleTrap_steady
        (steady.withMachine { kernel.machine with faultAddress }) current inUse frame).mono
      · rintro next after ⟨⟨advanced, goesOn⟩, isFree⟩
        refine ensures_pure.mpr ⟨proceeds advanced, ?_, isFree⟩
        rw [current]
        exact goesOn
      · exact fun cause after ⟨advanced, reason⟩ => ⟨proceeds advanced, reason⟩

theorem Call.proceeds (steady : kernel.Steady boot kernelRoot) (occupied : kernel.Occupied)
    {call : Call} (permitted : call.Permitted kernel) :
    Proceeds boot kernelRoot kernel call (call.perform.after kernel) :=
  ((ensures_perform steady occupied permitted).mono (fun _ _ held => held.1)
    fun _ _ held => held.1).after

/-! ## Sessions -/

variable {machine : Machine} {ram : Ram} {programs : ProgramTable} {layout : Layout}
  {history : List Exchange} {call : Call}

/-- The reserved slot is free unless the session has strayed, and then it is broken for good. -/
structure Underway (boot : Ledger) (kernelRoot : Fin pageCount) (history : List Exchange)
    (kernel : Kernel) : Prop where
  steady : kernel.Steady boot kernelRoot
  occupied : kernel.Occupied
  free : Orderly history → kernel.slotState ProcessTable.reservedSlot = .free
  broken : ¬Orderly history → kernel.slotState ProcessTable.reservedSlot = .broken

theorem Underway.next (underway : Underway boot kernelRoot history kernel)
    (permitted : call.Permitted kernel) :
    Underway boot kernelRoot (⟨kernel, call⟩ :: history) (call.perform.after kernel) := by
  have proceeds := Call.proceeds underway.steady underway.occupied permitted
  refine ⟨proceeds.steady, proceeds.occupied, fun orderly => ?_, fun strayed => ?_⟩
  · obtain ⟨onCourse, earlier⟩ := List.forall_mem_cons.mp orderly
    exact (proceeds.unstrayed onCourse).trans (underway.free earlier)
  · by_cases strays : call.Strays kernel
    · exact proceeds.strayed strays
    · refine (proceeds.unstrayed strays).trans (underway.broken fun earlier => strayed ?_)
      exact List.forall_mem_cons.mpr ⟨strays, earlier⟩

theorem Session.underway (session : Session machine ram programs layout history kernel) :
    ∃ boot kernelRoot, Underway boot kernelRoot history kernel := by
  induction session with
  | @boot kernel booted =>
      obtain ⟨boot, books, -, isBooted⟩ := Kernel.booted_of_boot booted
      have sound := isBooted.coherent.sound
      have kept : Kept boot books.kernelRoot kernel.resources :=
        ⟨⟨books, .of_sound sound, rfl⟩, fun _ => ⟨books, sound, rfl⟩⟩
      refine ⟨boot, books.kernelRoot, ⟨kept, isBooted.coherent.space_eq,
        isBooted.coherent.syscalls_eq⟩, ⟨ProcessTable.reservedSlot, ?_, .inl rfl⟩, fun _ => ?_,
        fun strayed => absurd (fun _ impossible => by cases impossible) strayed⟩
      · rw [isBooted.scheduler_eq]
        rfl
      · exact (sound.live _).mpr sound.reserved
  | call _ permitted ih =>
      obtain ⟨boot, kernelRoot, underway⟩ := ih
      exact ⟨boot, kernelRoot, underway.next permitted⟩

/-- From whatever point of a session on, no slot but the reserved one goes back in its life. -/
theorem Session.age_le (session : Session machine ram programs layout history kernel)
    {slot : Fin slotCount} (notReserved : slot ≠ ProcessTable.reservedSlot) :
    ∀ exchange ∈ history, (exchange.before.slotState slot).age ≤ (kernel.slotState slot).age := by
  induction session with
  | boot booted => exact fun _ impossible => by cases impossible
  | @call history kernel call earlier permitted ih =>
      obtain ⟨boot, kernelRoot, underway⟩ := earlier.underway
      have moves := (Call.proceeds underway.steady underway.occupied permitted).moves slot
        notReserved
      exact List.forall_mem_cons.mpr ⟨moves.age_le, fun exchange listed =>
        (ih exchange listed).trans moves.age_le⟩

/-! ## What is promised of a call -/

/-- What holds of every call in every session. -/
structure Lawful (kernel : Kernel) (call : Call) : Prop where
  /-- The call is answered or refused, and does not stop at a fault. -/
  total : ∀ fault after, call.perform kernel ≠ .error (.faulted fault) after
  /-- A slot that is not reserved stays as it is, or is filled, or is broken. -/
  lifecycle : ∀ slot, slot ≠ ProcessTable.reservedSlot →
    (kernel.slotState slot).Moves ((call.perform.after kernel).slotState slot)
  /-- Who is to go on can run, unless it made a system call although it could not run. -/
  resumed : ∀ faultAddress frame pid after, call = .handleTrap faultAddress frame →
    call.perform kernel = .ok (.handled (.resume pid)) after →
    (frame.vector ∈ answeringVectors →
      kernel.resources.tasks.state? kernel.scheduler.current = some .runnable) →
    after.resources.tasks.state? pid = some .runnable

/-- What holds of the reserved slot and of the check while no call has strayed. -/
structure Undisturbed (kernel : Kernel) (call : Call) : Prop where
  reserved : kernel.slotState ProcessTable.reservedSlot = .free
  reserved_after : (call.perform.after kernel).slotState ProcessTable.reservedSlot = .free
  consistent : ∀ violation after,
    call.perform kernel ≠ .error (.refused (.trap (.invariant violation))) after ∧
    call.perform kernel ≠ .error (.refused (.start (.invariant violation))) after

theorem Proceeds.still_runnable {after : Kernel} {faultAddress : Nat} {frame : TrapFrame}
    (proceeds : Proceeds boot kernelRoot kernel (.handleTrap faultAddress frame) after)
    (asked : frame.vector ∈ answeringVectors) {slot : Fin slotCount}
    (runnable : kernel.slotState slot = .runnable) : after.slotState slot = .runnable := by
  have quiet : ¬frame.IsUserFault := fun fault =>
    absurd (fault.1 ▸ asked) (by decide)
  by_cases here : slot = ProcessTable.reservedSlot
  · subst here
    exact (proceeds.unstrayed fun strays => quiet strays.2).trans runnable
  · rcases proceeds.moves slot here with same | ⟨isFree, -⟩ | ⟨-, isBroken⟩
    · exact same.trans runnable
    · cases runnable.symm.trans isFree
    · obtain ⟨_, _, same, fault⟩ := proceeds.breaks slot runnable isBroken
      cases same
      exact absurd fault quiet

/-- Whatever is called in a steady kernel is lawful. -/
theorem Lawful.of_ensures (steady : kernel.Steady boot kernelRoot) (occupied : kernel.Occupied)
    (permitted : call.Permitted kernel) : Lawful kernel call where
  total fault after := (Call.ensures_perform steady occupied permitted).not_faulted
  lifecycle := (Call.proceeds steady occupied permitted).moves
  resumed := by
    rintro faultAddress frame pid after rfl ran canRun
    obtain ⟨proceeds, goesOn, -⟩ := (Call.ensures_perform steady occupied permitted).done ran
    by_cases asked : frame.vector ∈ answeringVectors
    · rw [Dispatch.GoesOn, if_pos asked] at goesOn
      cases goesOn
      obtain ⟨slot, named, runnable⟩ := Scheduler.exists_slot_of_state? (canRun asked)
      rw [named, Scheduler.state?_ofIndex]
      exact congrArg some (proceeds.still_runnable asked runnable)
    · rw [Dispatch.GoesOn, if_neg asked] at goesOn
      exact goesOn pid rfl

/-- In every session a slot that is not reserved is filled once at most and broken once at most,
and who is to go on can run unless it makes a call without being able to.  While no call has
strayed, the reserved slot is free and the check passes. -/
theorem slots_follow_their_lifecycle
    (session : Session machine ram programs layout history kernel)
    (permitted : call.Permitted kernel) :
    Lawful kernel call ∧ (Orderly (⟨kernel, call⟩ :: history) → Undisturbed kernel call) := by
  obtain ⟨boot, kernelRoot, underway⟩ := session.underway
  refine ⟨.of_ensures underway.steady underway.occupied permitted, fun orderly => ?_⟩
  have isFree := (underway.next permitted).free orderly
  have ensured := Call.ensures_perform underway.steady underway.occupied permitted
  refine ⟨underway.free (List.forall_mem_cons.mp orderly).2, isFree, fun violation after =>
    ⟨fun ran => ?_, fun ran => ?_⟩⟩
  · rw [Action.after_of_eq_error ran] at isFree
    obtain ⟨-, refuses⟩ := ensured.refused ran
    cases call with
    | start workload => exact refuses
    | switchTo pid => exact refuses
    | handleTrap faultAddress frame =>
        rcases refuses with impossible | ⟨-, inUse⟩
        · exact impossible
        · exact inUse isFree
  · rw [Action.after_of_eq_error ran] at isFree
    obtain ⟨-, refuses⟩ := ensured.refused ran
    cases call with
    | start workload => exact refuses violation rfl isFree
    | switchTo pid => exact refuses
    | handleTrap faultAddress frame => exact refuses

theorem exists_fresh_session :
    ∃ kernel, Session {} .blank Run.Setting.small.programs {} [] kernel := by
  obtain ⟨_, _, ⟨booted, -⟩⟩ := Run.Setting.suitable_small.exists_initial
  exact ⟨_, .boot booted⟩

theorem exists_entered_session : ∃ (history : List Exchange) (kernel : Kernel) (first : Pid),
    Session {} .blank Run.Setting.small.programs {} history kernel ∧
    history.map Exchange.call = [.switchTo first, .start .standard] ∧ Orderly history := by
  obtain ⟨started, _, @⟨kernel, _, _, booted, created⟩⟩ :=
    Run.Setting.suitable_small.exists_initial
  obtain ⟨boot, books, -, isBooted⟩ := Kernel.booted_of_boot booted
  obtain ⟨-, slot, rfl, runnable⟩ := (Kernel.ensures_start isBooted.coherent _).done created
  have starts : (Call.start .standard).perform kernel =
      .ok (.started (.ofIndex slot)) started := by
    apply eq_ok_of_ensures
    rw [Call.perform, ensures_bind, ensures_mapCause]
    exact (ensures_of_eq_ok created).mpr (ensures_pure.mpr ⟨rfl, rfl⟩)
  have canRun : (Call.switchTo (.ofIndex slot)).Permitted started := by
    rw [Call.Permitted, Scheduler.state?_ofIndex, runnable]
  have fresh : Session {} .blank Run.Setting.small.programs {} [] kernel := .boot booted
  have running := fresh.call (show (Call.start .standard).Permitted kernel from trivial)
  rw [after_of_eq_ok starts] at running
  refine ⟨_, _, .ofIndex slot, running.call canRun, rfl, ?_⟩
  simp [Orderly, Call.Strays]

/-- A session starts a workload and enters its first process, which then forks. -/
theorem small_session_is_lawful : ∃ (history : List Exchange) (kernel : Kernel) (first : Pid),
    Session {} .blank Run.Setting.small.programs {} history kernel ∧
    history.map Exchange.call = [.switchTo first, .start .standard] ∧
    (Call.handleTrap 0 Run.forkFrame).Permitted kernel ∧
    Orderly (⟨kernel, .handleTrap 0 Run.forkFrame⟩ :: history) ∧
    Lawful kernel (.handleTrap 0 Run.forkFrame) ∧
    Undisturbed kernel (.handleTrap 0 Run.forkFrame) := by
  obtain ⟨history, kernel, first, session, called, earlier⟩ := exists_entered_session
  have orderly : Orderly (⟨kernel, .handleTrap 0 Run.forkFrame⟩ :: history) :=
    List.forall_mem_cons.mpr ⟨fun strays => absurd strays.2.1 (by decide), earlier⟩
  have lawful := slots_follow_their_lifecycle session
    (show (Call.handleTrap 0 Run.forkFrame).Permitted kernel from trivial)
  exact ⟨history, kernel, first, session, called, trivial, orderly, lawful.1, lawful.2 orderly⟩

/-! ## What is not promised -/

/-- User code that is reported to fault before any process has run breaks the reserved slot. -/
theorem Call.strays_stops (steady : kernel.Steady boot kernelRoot) (occupied : kernel.Occupied)
    (strays : call.Strays kernel) :
    ∃ after, call.perform kernel = .error (.refused (.trap (.invariant .reservedSlotInUse))) after ∧
      after.slotState ProcessTable.reservedSlot = .broken := by
  cases call with
  | start workload => exact strays.elim
  | switchTo pid => exact strays.elim
  | handleTrap faultAddress frame =>
      have permitted : (Call.handleTrap faultAddress frame).Permitted kernel := trivial
      rcases (ensures_perform steady occupied permitted).cases with
        ⟨answer, after, ran, proceeds, answers⟩ | ⟨refusal, after, ran, proceeds, refuses⟩
      · have isBroken := proceeds.strayed strays
        cases answer with
        | started first => exact answers.elim
        | entered frame => exact answers.elim
        | handled next => cases isBroken.symm.trans answers.2
      · refine ⟨after, ?_, proceeds.strayed strays⟩
        cases refusal with
        | start cause => exact refuses.elim
        | trap cause =>
            rcases refuses with justified | ⟨rfl, -⟩
            · exact absurd (.inr (.inr strays.2)) justified.not_reschedules
            · exact ran

/-- Once a session has strayed, every trap stops the kernel. -/
theorem Session.traps_stop (session : Session machine ram programs layout history kernel)
    (strayed : ¬Orderly history) (faultAddress : Nat) (frame : TrapFrame) :
    ∃ refusal after,
      (Call.handleTrap faultAddress frame).perform kernel = .error (.refused refusal) after := by
  obtain ⟨boot, kernelRoot, underway⟩ := session.underway
  have permitted : (Call.handleTrap faultAddress frame).Permitted kernel := trivial
  rcases (Call.ensures_perform underway.steady underway.occupied permitted).cases with
    ⟨answer, after, ran, -, answers⟩ | ⟨refusal, after, ran, -⟩
  · have stillStrayed : ¬Orderly (⟨kernel, .handleTrap faultAddress frame⟩ :: history) :=
      fun orderly => strayed (List.forall_mem_cons.mp orderly).2
    have isBroken := (underway.next permitted).broken stillStrayed
    rw [after_of_eq_ok ran] at isBroken
    cases answer with
    | started first => exact answers.elim
    | entered frame => exact answers.elim
    | handled next => cases isBroken.symm.trans answers.2
  · exact ⟨refusal, after, ran⟩

/-- While the reserved slot is free, whoever makes a system call goes on, able to run or not. -/
theorem Call.caller_resumes (steady : kernel.Steady boot kernelRoot) (occupied : kernel.Occupied)
    (isFree : kernel.slotState ProcessTable.reservedSlot = .free) {frame : TrapFrame}
    (asked : frame.vector ∈ answeringVectors) (faultAddress : Nat) :
    ∃ after, (Call.handleTrap faultAddress frame).perform kernel =
        .ok (.handled (.resume kernel.scheduler.current)) after ∧
      Proceeds boot kernelRoot kernel (.handleTrap faultAddress frame) after := by
  have onCourse : ¬(Call.handleTrap faultAddress frame).Strays kernel := fun strays =>
    absurd (strays.2.1 ▸ asked) (by decide)
  have permitted : (Call.handleTrap faultAddress frame).Permitted kernel := trivial
  rcases (ensures_perform steady occupied permitted).cases with
    ⟨answer, after, ran, proceeds, answers⟩ | ⟨refusal, after, ran, proceeds, refuses⟩
  · refine ⟨after, ?_, proceeds⟩
    cases answer with
    | started first => exact answers.elim
    | entered frame => exact answers.elim
    | handled next =>
        have goesOn := answers.1
        rw [Dispatch.GoesOn, if_pos asked] at goesOn
        rw [ran, goesOn]
  · cases refusal with
    | start cause => exact refuses.elim
    | trap cause =>
        rcases refuses with justified | ⟨-, inUse⟩
        · exact absurd justified (Run.not_justified_of_call asked cause)
        · exact absurd ((proceeds.unstrayed onCourse).trans isFree) inUse

/-- The registers of user code that touched a page it may not touch. -/
private def faultFrame : TrapFrame :=
  { TrapFrame.user with vector := Interrupt.pageFault, errorCode := 4 }

/-- The registers with which a program asks who it is. -/
private def getPidFrame : TrapFrame :=
  { TrapFrame.user with vector := Interrupt.getPid }

/-- Before any process has run, a page fault of user code breaks the reserved slot, and the check
stops the kernel; and a system call lets the reserved slot go on, in which there is no process. -/
theorem stray_fault_breaks_reserved_slot : ∃ (kernel faulted called : Kernel),
    Session {} .blank Run.Setting.small.programs {} [] kernel ∧
    kernel.slotState ProcessTable.reservedSlot = .free ∧
    (Call.handleTrap 0 faultFrame).perform kernel =
      .error (.refused (.trap (.invariant .reservedSlotInUse))) faulted ∧
    faulted.slotState ProcessTable.reservedSlot = .broken ∧
    (Call.handleTrap 0 getPidFrame).perform kernel = .ok (.handled (.resume .reserved)) called ∧
    called.resources.tasks.state? .reserved = some .free := by
  obtain ⟨kernel, fresh⟩ := exists_fresh_session
  obtain ⟨boot, kernelRoot, underway⟩ := fresh.underway
  have isFree := underway.free fun _ impossible => by cases impossible
  have current : kernel.scheduler.current = .reserved := by
    cases fresh with
    | boot booted =>
        obtain ⟨_, _, -, isBooted⟩ := Kernel.booted_of_boot booted
        rw [isBooted.scheduler_eq]
  obtain ⟨faulted, stops, isBroken⟩ := Call.strays_stops underway.steady underway.occupied
    (show (Call.handleTrap 0 faultFrame).Strays kernel from ⟨current, rfl, by decide⟩)
  obtain ⟨called, resumes, proceeds⟩ := Call.caller_resumes underway.steady underway.occupied isFree
    (show getPidFrame.vector ∈ answeringVectors by decide) 0
  rw [current] at resumes
  refine ⟨kernel, faulted, called, fresh, isFree, stops, isBroken, resumes, ?_⟩
  have stillFree := (proceeds.unstrayed fun strays => absurd strays.2.1 (by decide)).trans isFree
  exact (Scheduler.state?_ofIndex called.resources.tasks ProcessTable.reservedSlot).trans
    (congrArg some stillFree)

end PagingKernel
