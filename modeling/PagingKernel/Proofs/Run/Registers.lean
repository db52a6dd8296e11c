import PagingKernel.Proofs.Run.Lifetimes

/-!
# Registers are restored

Whatever other processes do in between, a process is entered with the registers
of its last trap, changed only by the answer of a system call; before its first
trap, with the registers that its creation gave it.  The saved registers of
every process in use are such registers, at every moment of a run.
-/

namespace PagingKernel.Run

variable {setting : Setting} {first last : State} {past : List Moment} {moment : Moment}
  {slot : Fin slotCount} {registers : TrapFrame}

/-- A process is created in a slot by a fork of the process that traps with these registers. -/
def Moment.Creates (moment : Moment) (child : Fin slotCount) (frame : TrapFrame) : Prop :=
  (∃ parent, moment.TrapsWith parent frame) ∧ frame.vector = Interrupt.fork ∧
    ¬moment.before.kernel.Live child ∧ moment.after.kernel.Live child

/-- The registers with which a process is to be entered after the steps of a trace: those that its
program starts with, or those of its parent at the fork, or those of its last trap with what that
trap yields. -/
inductive Restores (setting : Setting) (past : List Moment) (slot : Fin slotCount) :
    TrapFrame → Prop
  | started {program : Nat} {image : ProgramImage}
      (listed : (Pid.ofIndex slot, program) ∈ (Workload.ofCommand setting.command).processes)
      (isImage : setting.programs.image? program = some image)
      (uncreated : ∀ moment ∈ past, ∀ frame, ¬moment.Creates slot frame)
      (untrapped : Untrapped past slot) : Restores setting past slot image.startFrame
  | forked {earlier later : List Moment} {moment : Moment} {frame : TrapFrame}
      (split : past = earlier ++ moment :: later) (creates : moment.Creates slot frame)
      (untrapped : Untrapped past slot) : Restores setting past slot { frame with eax := 0 }
  | trapped {earlier later : List Moment} {moment : Moment} {frame registers : TrapFrame}
      (split : past = earlier ++ moment :: later) (traps : moment.TrapsWith slot frame)
      (isLast : Untrapped later slot)
      (yields : Kernel.Yields slot frame moment.before.kernel moment.after.kernel registers) :
      Restores setting past slot registers

/-- A step that neither creates the process nor is a trap of it does not matter. -/
theorem Restores.snoc (restores : Restores setting past slot registers)
    (calm : ∀ frame, ¬moment.TrapsWith slot frame)
    (uncreated : ∀ frame, ¬moment.Creates slot frame) :
    Restores setting (past ++ [moment]) slot registers := by
  cases restores with
  | started listed isImage never untrapped =>
      refine .started listed isImage (fun other isListed => ?_) (untrapped.snoc calm)
      rcases List.mem_append.mp isListed with earlier | isLast
      · exact never other earlier
      · obtain rfl := List.mem_singleton.mp isLast
        exact uncreated
  | @forked earlier later creation frame split creates untrapped =>
      have longer : past ++ [moment] = earlier ++ creation :: (later ++ [moment]) := by
        rw [split, List.append_assoc, List.cons_append]
      exact .forked longer creates (untrapped.snoc calm)
  | @trapped earlier later trap frame registers split traps isLast yields =>
      have longer : past ++ [moment] = earlier ++ trap :: (later ++ [moment]) := by
        rw [split, List.append_assoc, List.cons_append]
      exact .trapped longer traps (isLast.snoc calm) yields

/-- The process table remembers what every process in use is to be entered with. -/
structure Remembered (setting : Setting) (past : List Moment) (last : State) : Prop where
  live : ∀ slot, last.kernel.Live slot →
    Restores setting past slot (last.kernel.resources.tasks.process slot).frame
  free : ∀ slot, ¬last.kernel.Live slot → Untrapped past slot

theorem remembered_of_initial (initial : Initial setting first) : Remembered setting [] first := by
  have calm (slot : Fin slotCount) : Untrapped [] slot := fun _ impossible => by cases impossible
  refine ⟨?_, fun slot _ => calm slot⟩
  cases initial with
  | @start kernel started pid booted created =>
      obtain ⟨boot, books, -, isBooted⟩ := Kernel.booted_of_boot booted
      have starts := (Kernel.ensures_start isBooted.coherent _).done created
      intro slot live
      dsimp only at live ⊢
      by_cases listed : ∃ member ∈ (Workload.ofCommand setting.command).processes,
          member.1 = Pid.ofIndex slot
      · obtain ⟨⟨_, program⟩, isListed, rfl⟩ := listed
        obtain ⟨other, image, space, same, isImage, isStarted⟩ :=
          starts.populated.started _ isListed
        obtain rfl := ProcessTable.ofIndex_injective same
        rw [isBooted.programs_eq] at isImage
        rw [isStarted]
        exact .started isListed isImage (fun _ impossible => by cases impossible) (calm slot)
      · have untouched := starts.populated.untouched slot
          fun member isListed same => listed ⟨member, isListed, same⟩
        rw [Kernel.Live, untouched, isBooted.tasks_eq, Kernel.process_vacant] at live
        exact absurd rfl live

/-- A step that is no trap changes no registers. -/
theorem Remembered.of_calm (moment : Moment) (remembered : Remembered setting past moment.before)
    (tasks_eq : moment.after.kernel.resources.tasks = moment.before.kernel.resources.tasks)
    (calm : ∀ slot frame, ¬moment.TrapsWith slot frame) :
    Remembered setting (past ++ [moment]) moment.after where
  live slot live := by
    rw [Kernel.Live, tasks_eq] at live
    rw [tasks_eq]
    exact (remembered.live slot live).snoc (calm slot)
      fun frame creates => calm _ frame creates.1.choose_spec
  free slot free := by
    rw [Kernel.Live, tasks_eq] at free
    exact (remembered.free slot free).snoc (calm slot)

/-- The registers of a trap are remembered, and so are those of a process that it creates. -/
theorem Remembered.of_trap (moment : Moment) {frame : TrapFrame}
    (remembered : Remembered setting past moment.before) (reached : Reached setting moment.before)
    (step : Step moment.before moment.event moment.after) (traps : moment.TrapsWith slot frame) :
    Remembered setting (past ++ [moment]) moment.after := by
  have taken := trapTaken_of_trapsWith reached step traps
  obtain ⟨mover, turn, others⟩ := exists_mover reached step
  obtain rfl := ProcessTable.ofIndex_injective (Option.some.inj (turn.symm.trans traps.turn))
  have calm {other : Fin slotCount} (apart : other ≠ mover) (given : TrapFrame) :
      ¬moment.TrapsWith other given := fun also => apart (traps.unique also)
  have split : past ++ [moment] = past ++ moment :: [] := rfl
  refine ⟨fun other live => ?_, fun other free => ?_⟩
  · by_cases isMover : other = mover
    · subst isMover
      exact .trapped split traps (fun _ impossible => by cases impossible) taken.turned.registers
    · by_cases wasLive : moment.before.kernel.Live other
      · rw [others other isMover wasLive]
        exact (remembered.live other wasLive).snoc (calm isMover)
          fun given creates => creates.2.2.1 wasLive
      · obtain ⟨isFork, frame_eq⟩ := taken.turned.filled other (not_not.mp wasLive) live
        rw [frame_eq]
        exact .forked split ⟨⟨mover, traps⟩, isFork, wasLive, live⟩
          ((remembered.free other wasLive).snoc (calm isMover))
  · have wasFree : ¬moment.before.kernel.Live other :=
      fun wasLive => free (live_of_step reached step wasLive)
    have apart : other ≠ mover := by
      rintro rfl
      exact wasFree (runnable_of_turn reached turn).live
    exact (remembered.free other wasFree).snoc (calm apart)

/-- All along a trace the process table remembers the registers. -/
theorem remembered_of_trace (initial : Initial setting first) (trace : Trace first past last) :
    Remembered setting past last := by
  induction trace with
  | nil => exact remembered_of_initial initial
  | @snoc past state next event trace step remembered =>
      have reached := trace.reached initial.reached
      rcases traps_or_calm reached step with ⟨slot, frame, traps⟩ | ⟨calm, same⟩
      · exact .of_trap ⟨state, event, next⟩ remembered reached step traps
      · exact .of_calm ⟨state, event, next⟩ remembered same calm

/-! ## Entering processes -/

/-- A process is entered as the trace says: with the registers that it is to be given back, and
with its own directory in force. -/
def Resumes (setting : Setting) (past : List Moment) (kernel : Kernel) (pid : Pid) : Prop :=
  ∃ (slot : Fin slotCount) (frame : TrapFrame) (space : AddressSpace) (entered : Kernel),
    pid = .ofIndex slot ∧ Restores setting past slot frame ∧
    (kernel.resources.tasks.process slot).ownSpace? = some space ∧
    (Kernel.switchTo pid : Action Kernel Fatal TrapFrame) kernel = .ok frame entered ∧
    entered.machine.activeRoot? = some space.root

theorem Remembered.resumes {pid : Pid} (remembered : Remembered setting past last)
    (reached : Reached setting last) (turn : last.phase = .entering pid) :
    Resumes setting past last.kernel pid := by
  obtain ⟨boot, books, -, regular⟩ := regular_of_reached reached
  have fits := regular.phase
  rw [turn] at fits
  obtain ⟨slot, rfl, -, runnable⟩ := fits
  have live : last.kernel.Live slot := by simp [Kernel.Live, runnable]
  obtain ⟨view, found⟩ := regular.coherent.live_iff.mp live
  rcases (Kernel.ensures_switchTo Fatal runnable).cases with
      ⟨_, _, ran, rfl, rfl⟩ | ⟨_, _, -, impossible⟩
  · refine ⟨slot, _, _, _, rfl, remembered.live slot live, regular.coherent.sound.ownSpace found,
      ran, ?_⟩
    rw [Machine.activeRoot?_loadDirectory, regular.coherent.directory_eq found]
    rfl
  · exact impossible.elim

/-- In every run each process is entered with its own registers and its own directory, and every
trap brings back the directory of the kernel. -/
theorem registers_are_restored (initial : Initial setting first) (trace : Trace first past last) :
    (∀ pid, last.phase = .entering pid → Resumes setting past last.kernel pid) ∧
    ∀ moment ∈ past, ∀ slot frame, moment.TrapsWith slot frame →
      moment.after.kernel.machine.activeRoot? = some moment.after.kernel.space.root := by
  refine ⟨fun pid turn => ?_, fun moment listed slot frame traps => ?_⟩
  · exact (remembered_of_trace initial trace).resumes (trace.reached initial.reached) turn
  · obtain ⟨reached, step⟩ := trace.step_of_mem initial.reached listed
    exact (trapTaken_of_trapsWith reached step traps).root

/-- The first process of a run from blank memory forks, and is entered again. -/
theorem small_fork_is_resumed :
    ∃ (first last : State) (past : List Moment) (pid : Pid), Initial .small first ∧
      Trace first past last ∧ past.length = 2 ∧ last.phase = .entering pid ∧
      Resumes .small past last.kernel pid := by
  obtain ⟨kernel, pid, initial⟩ := Setting.suitable_small.exists_initial
  obtain ⟨entered, slot, rfl, enters, -⟩ := exists_entered initial.reached
  have traps := Step.trap entered (.ofIndex slot) 0 forkFrame
  have turn := phase_of_call (initial.reached.step enters) traps (by decide)
  have trace := (Trace.nil.snoc enters).snoc traps
  exact ⟨_, _, _, .ofIndex slot, initial, trace, rfl, turn,
    (registers_are_restored initial trace).1 _ turn⟩

end PagingKernel.Run
