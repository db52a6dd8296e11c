import PagingKernel.Proofs.Run.References
import PagingKernel.Proofs.Run.Replay
import PagingKernel.Proofs.Run.Underway

/-!
# Memory leaves no residue

Two runs that differ only in what memory held before boot cannot be told apart:
the kernel comes up alike, decides alike and keeps the same ledger and the same
process table, and every process sees the same mappings and the same bytes in
its own range.  The one exception is the page of the console, which a process may
name as its message when it stops the machine.
-/

namespace PagingKernel

open PagingKernel.Action PageTable

namespace Kernel

/-- What the process of a slot finds at an address: where it is mapped, and the byte there. -/
def observe (kernel : Kernel) (slot : Fin slotCount) (va : VirtAddr) :
    Except Fault (Option (Mapping × UInt8)) := do
  match ← (kernel.directory slot).lookup kernel.resources.memory.ram va with
  | none => return none
  | some mapping =>
      return some (mapping, ← kernel.resources.memory.ram.readByte
        ⟨mapping.pa.raw + va.pageOffset⟩)

/-- Nothing but the page of the console may tell two kernels apart. -/
structure Indistinct (left right : Kernel) : Prop where
  machine_eq : left.machine = right.machine
  space_eq : left.space = right.space
  scheduler_eq : left.scheduler = right.scheduler
  ledger_eq : left.resources.memory.ledger = right.resources.memory.ledger
  tasks_eq : left.resources.tasks = right.resources.tasks
  observed : ∀ slot, left.Live slot → ∀ va : VirtAddr, processStart ≤ va.raw →
    va.raw < virtualSize →
    ∃ found, left.observe slot va = .ok found ∧ right.observe slot va = .ok found

/-- What a process finds in the process range lies in one of its own pages. -/
theorem Coherent.observe_eq {boot : Ledger} {books : Books} {kernel : Kernel}
    {slot : Fin slotCount} {view : SpaceView} (coherent : Coherent boot books kernel)
    (found : books.space slot = some view) {va : VirtAddr} {place : Fin processPageCount}
    (number : va.raw / pageSize = placeNumber place) :
    kernel.observe slot va = .ok ((view.leaf place).map fun leaf =>
      (leaf.mapping, kernel.resources.memory.ram.pageByte leaf.page va.pageOffset)) := by
  rw [observe, coherent.lookup_directory found, SpaceView.translation_word_of_place view number]
  cases mapped : view.leaf place with
  | none => rfl
  | some leaf =>
      have read := readByte_mapping leaf.mapping_pa kernel.resources.memory.ram va
      simp only [bind, Except.bind, Option.map_some, read]
      rfl

/-- Twins cannot be told apart. -/
theorem Twins.indistinct {boot : Ledger} {left right : Kernel} (twins : Twins boot left right) :
    left.Indistinct right := by
  obtain ⟨books, alike, onLeft, onRight⟩ := twins
  refine ⟨alike.machine_eq, alike.space_eq, alike.scheduler_eq, alike.resources.memory.ledger_eq,
    alike.resources.tasks_eq, fun slot live va above below => ?_⟩
  obtain ⟨view, found⟩ := onLeft.sound.exists_space live
  obtain low | ⟨place, number⟩ | high := va.place_cases
  · omega
  · refine ⟨_, onLeft.observe_eq found number, ?_⟩
    rw [onRight.observe_eq found number]
    cases mapped : view.leaf place with
    | none => rfl
    | some leaf =>
        have bytes := alike.resources.samePage onLeft.sound
          ((SpaceView.refs_leaf_pos mapped).trans_le (Books.refs_le found)) va.pageOffset
          (Nat.mod_lt _ (by decide))
        rw [Option.map_some, Option.map_some, bytes]
  · omega

end Kernel

namespace Run

/-- Two runs are at points that cannot be told apart. -/
structure State.Indistinct (left right : State) : Prop where
  phase_eq : left.phase = right.phase
  kernel : left.kernel.Indistinct right.kernel

/-- The same happens in two moments, and neither before nor after can they be told apart. -/
structure Moment.Indistinct (left right : Moment) : Prop where
  event_eq : left.event = right.event
  before : left.before.Indistinct right.before
  after : left.after.Indistinct right.after

theorem Twin.indistinct {boot : Ledger} {left right : State} (twin : Twin boot left right) :
    left.Indistinct right :=
  ⟨twin.phase_eq, twin.kernels.indistinct⟩

theorem Moment.Twin.indistinct {boot : Ledger} {left right : Moment}
    (twin : Moment.Twin boot left right) : left.Indistinct right :=
  ⟨twin.event_eq, twin.before.indistinct, twin.after.indistinct⟩

/-! ## Coming up -/

/-- With other contents of memory the kernel fails to boot in the same way, or boots to a kernel
that cannot be told apart and starts the workload in the same way. -/
inductive ComesUpAlike (setting : Setting) (ram : Ram) : Prop
  | failed (failure : Failure BootError)
      (first : Kernel.boot setting.machine setting.ram setting.programs setting.layout =
        .error failure)
      (second : Kernel.boot setting.machine ram setting.programs setting.layout = .error failure)
  | booted (kernel other : Kernel)
      (first : Kernel.boot setting.machine setting.ram setting.programs setting.layout = .ok kernel)
      (second : Kernel.boot setting.machine ram setting.programs setting.layout = .ok other)
      (indistinct : kernel.Indistinct other)
      (starts : Agree (Kernel.start (.ofCommand setting.command))
        (Kernel.start (.ofCommand setting.command)) kernel other (fun _ => Kernel.Indistinct)
        fun _ => Kernel.Indistinct)

theorem comesUpAlike (setting : Setting) (ram : Ram) : ComesUpAlike setting ram := by
  rcases Kernel.boot_cases_of_two setting.machine setting.ram ram setting.programs setting.layout
    with ⟨failure, first, second⟩ | ⟨boot, kernel, other, -, first, second, twins⟩
  · exact .failed failure first second
  · exact .booted kernel other first second twins.indistinct
      ((twins.agree_start _).mono (fun _ _ _ after => after.indistinct)
        fun _ _ _ after => after.indistinct)

variable {setting : Setting} {first last other : State} {past : List Moment}

theorem Initial.functional (initial : Initial setting first) (also : Initial setting other) :
    first = other := by
  cases initial with
  | start booted created =>
      cases also with
      | start alsoBooted alsoCreated =>
          obtain rfl := Except.ok.inj (booted.symm.trans alsoBooted)
          cases created.symm.trans alsoCreated
          rfl

/-- A run begins alike with other contents of memory. -/
theorem Initial.exists_twin (initial : Initial setting first) (ram : Ram) :
    ∃ boot again, Ledger.ofLayout setting.layout = .ok boot ∧
      Initial { setting with ram } again ∧ Twin boot first again := by
  cases initial with
  | @start kernel started pid booted created =>
      rcases Kernel.boot_cases_of_two setting.machine setting.ram ram setting.programs
        setting.layout with
        ⟨failure, failed, -⟩ | ⟨boot, same, twin, laidOut, isSame, comesUp, twins⟩
      · cases booted.symm.trans failed
      · obtain rfl := Except.ok.inj (booted.symm.trans isSame)
        rcases agree_iff.mp (twins.agree_start (.ofCommand setting.command)) with
          ⟨value, stop, again, ran, alsoRan, after⟩ | ⟨cause, stop, again, ran, -⟩
        · cases created.symm.trans ran
          exact ⟨boot, ⟨again, .entering pid⟩, laidOut, .start comesUp alsoRan, rfl, after⟩
        · cases created.symm.trans ran

/-! ## Whole runs -/

/-- With other contents of memory the kernel comes up alike.  A run in which no message is asked
for from the page of the console can be taken again, step by step, and however it is taken again
the two cannot be told apart at any point. -/
theorem memory_leaves_no_residue (setting : Setting) (ram : Ram) :
    ComesUpAlike setting ram ∧
    ∀ first past last, Initial setting first → Trace first past last →
      (∀ moment ∈ past, moment.event.Discreet) →
      (∃ again retrace final, Initial { setting with ram } again ∧ Trace again retrace final ∧
        retrace.map Moment.event = past.map Moment.event) ∧
      ∀ again retrace final, Initial { setting with ram } again → Trace again retrace final →
        retrace.map Moment.event = past.map Moment.event →
        first.Indistinct again ∧ List.Forall₂ Moment.Indistinct past retrace ∧
          last.Indistinct final := by
  refine ⟨comesUpAlike setting ram, fun first past last initial trace discreet => ?_⟩
  obtain ⟨boot, again, laidOut, begins, twin⟩ := initial.exists_twin ram
  obtain ⟨retrace, final, retraced, ends, moments⟩ :=
    trace.exists_retrace laidOut initial.reached twin discreet
  have sameEvents : retrace.map Moment.event = past.map Moment.event := by
    refine List.forall₂_eq_eq_eq ▸ ?_
    exact List.forall₂_map_left_iff.mpr (List.forall₂_map_right_iff.mpr
      (moments.flip.imp fun _ _ pair => pair.event_eq.symm))
  refine ⟨⟨again, retrace, final, begins, retraced, sameEvents⟩, ?_⟩
  intro other otherTrace otherFinal otherBegins otherTraced otherEvents
  obtain rfl := begins.functional otherBegins
  obtain ⟨rfl, rfl⟩ := retraced.functional otherTraced (otherEvents.trans sameEvents.symm)
  exact ⟨twin.indistinct, moments.imp fun _ _ pair => pair.indistinct, ends.indistinct⟩

/-- Memory in which every bit is set. -/
def filledRam : Ram :=
  Ram.blank.store 0 physicalSize fun _ => 0xff

/-- A fork in a run from blank memory cannot be told from one in a run from filled memory. -/
theorem small_fork_leaves_no_residue :
    filledRam ≠ Setting.small.ram ∧
    ∃ (first last again final : State) (past retrace : List Moment), Initial .small first ∧
      Trace first past last ∧ past.length = 2 ∧
      Initial { Setting.small with ram := filledRam } again ∧ Trace again retrace final ∧
      retrace.map Moment.event = past.map Moment.event ∧
      List.Forall₂ Moment.Indistinct past retrace ∧ last.Indistinct final := by
  have differs : filledRam ≠ Setting.small.ram := by
    intro same
    have bytes := congrArg (Ram.byte · 0) same
    dsimp only [filledRam] at bytes
    rw [Ram.byte_store (Nat.le_of_eq (Nat.zero_add _)), if_pos (by decide)] at bytes
    exact absurd (bytes.trans (Ram.byte_blank 0)) (by decide)
  obtain ⟨kernel, pid, initial⟩ := Setting.suitable_small.exists_initial
  obtain ⟨entered, slot, rfl, enters, -⟩ := exists_entered initial.reached
  have traps := Step.trap entered (.ofIndex slot) 0 forkFrame
  have trace := (Trace.nil.snoc enters).snoc traps
  have quiet : forkFrame.vector ≠ Interrupt.panic := by decide
  have taken := (memory_leaves_no_residue .small filledRam).2 _ _ _ initial trace ?_
  · obtain ⟨⟨again, retrace, final, begins, retraced, sameEvents⟩, indistinct⟩ := taken
    obtain ⟨-, moments, ends⟩ := indistinct again retrace final begins retraced sameEvents
    exact ⟨differs, _, _, again, final, _, retrace, initial, trace, rfl, begins, retraced,
      sameEvents, moments, ends⟩
  · intro moment listed
    rcases List.mem_append.mp listed with isEnter | isTrap
    · obtain rfl := List.mem_singleton.mp isEnter
      exact trivial
    · obtain rfl := List.mem_singleton.mp isTrap
      exact fun asked => absurd asked quiet

end Run

end PagingKernel
