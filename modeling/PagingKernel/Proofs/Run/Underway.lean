import PagingKernel.Proofs.Ledger.Partition
import PagingKernel.Proofs.Run.Trace

/-!
# Runs that get under way

If the kernel lies below the devices, and the programs of the workload are
acceptable and fit into the upper half of memory, then a run reaches user code.
-/

namespace PagingKernel

/-! ## What a workload needs -/

/-- A program whose segments span few pages needs few pages. -/
theorem ProgramTable.needs_le {programs : ProgramTable} {bound : Nat}
    (spans : ∀ image ∈ programs.images, (image.segments.map Segment.pageSpan).sum ≤ bound)
    (program : Nat) : programs.needs program ≤ 3 + bound := by
  rw [needs]
  cases found : programs.image? program with
  | none => exact Nat.zero_le _
  | some image =>
      have listed : image ∈ programs.images := List.mem_of_getElem? found
      have footprint := image.card_footprint_le
      have few := spans image listed
      rw [Option.elim_some]
      omega

namespace Run

variable {setting : Setting}

/-- The kernel lies low in memory, and the programs of the workload fit into the rest. -/
structure Setting.Suitable (setting : Setting) : Prop where
  stack_room : pageSize ≤ setting.layout.stackTop
  stack_low : setting.layout.stackTop ≤ deviceEnd
  image_low : setting.layout.imageEnd ≤ deviceEnd
  accepted : ∀ member ∈ (Workload.ofCommand setting.command).processes,
    ∃ image, setting.programs.image? member.2 = some image ∧ image.validate = .ok ()
  room : 2 + ((Workload.ofCommand setting.command).processes.map
    (setting.programs.needs ·.2)).sum ≤ firstProcessPage

/-- The kernel comes up and starts the workload. -/
theorem Setting.Suitable.exists_initial (suitable : setting.Suitable) :
    ∃ kernel pid, Initial setting ⟨kernel, .entering pid⟩ := by
  obtain ⟨boot, laidOut⟩ := Ledger.exists_ofLayout suitable.stack_room
  have half := Ledger.half_le_freePages laidOut suitable.stack_room suitable.image_low
    suitable.stack_low
  have room := suitable.room
  rcases Kernel.boot_cases laidOut setting.machine setting.ram setting.programs with
    ⟨kernel, books, comesUp, booted⟩ | ⟨-, short⟩
  · obtain ⟨pid, started, created⟩ := Kernel.exists_start booted suitable.accepted
      (room.trans half)
    exact ⟨started, pid, .start comesUp created⟩
  · omega

/-- A process that is to be entered comes to run. -/
theorem exists_entered {kernel : Kernel} {pid : Pid}
    (reached : Reached setting ⟨kernel, .entering pid⟩) :
    ∃ (entered : Kernel) (slot : Fin slotCount), pid = .ofIndex slot ∧
      Step ⟨kernel, .entering pid⟩ .enter ⟨entered, .user (.ofIndex slot)⟩ ∧
      (entered.resources.tasks.process slot).state = .runnable := by
  obtain ⟨boot, books, -, regular⟩ := regular_of_reached reached
  obtain ⟨slot, rfl, -, runnable⟩ := regular.phase
  rcases (Kernel.ensures_switchTo Fatal runnable).cases with
      ⟨_, _, ran, -, rfl⟩ | ⟨_, _, -, impossible⟩
  · have entered := Step.enter kernel (.ofIndex slot)
    rw [ran] at entered
    exact ⟨_, slot, rfl, entered, runnable⟩
  · exact impossible.elim

/-- A run from a suitable setting reaches the user code of a process that can run. -/
theorem Setting.Suitable.exists_running (suitable : setting.Suitable) :
    ∃ (kernel : Kernel) (slot : Fin slotCount), Reached setting ⟨kernel, .user (.ofIndex slot)⟩ ∧
      (kernel.resources.tasks.process slot).state = .runnable := by
  obtain ⟨kernel, pid, initial⟩ := suitable.exists_initial
  obtain ⟨entered, slot, -, step, runnable⟩ := exists_entered initial.reached
  exact ⟨entered, slot, initial.reached.step step, runnable⟩

/-- A call is no reason to stop. -/
theorem not_justified_of_call {frame : TrapFrame} (asked : frame.vector ∈ answeringVectors)
    (cause : Fatal) : ¬cause.Justified frame := by
  have listed : frame.vector = Interrupt.getPid ∨ frame.vector = Interrupt.pageAlloc ∨
      frame.vector = Interrupt.fork := by
    simpa [answeringVectors] using asked
  cases cause with
  | panic pid message =>
      intro isPanic
      rw [Fatal.Justified] at isPanic
      rw [isPanic] at asked
      exact absurd asked (by decide)
  | kernelPageFault fault =>
      rintro ⟨isFault, -⟩
      rw [isFault] at asked
      exact absurd asked (by decide)
  | unexpectedInterrupt vector =>
      rintro ⟨rfl, unlisted⟩
      simp only [List.mem_cons, List.not_mem_nil, or_false, not_or] at unlisted
      rcases listed with isPid | isAlloc | isFork
      · exact unlisted.2.2.2.1 isPid
      · exact unlisted.2.2.2.2.2.1 isAlloc
      · exact unlisted.2.2.2.2.2.2 isFork
  | invariant violation => exact id

theorem not_reschedules_of_call {frame : TrapFrame} (asked : frame.vector ∈ answeringVectors) :
    ¬frame.Reschedules := by
  rintro (isTimer | isYield | ⟨isFault, -⟩)
  · rw [isTimer] at asked
    exact absurd asked (by decide)
  · rw [isYield] at asked
    exact absurd asked (by decide)
  · rw [isFault] at asked
    exact absurd asked (by decide)

/-- A process that calls the kernel is the one that goes on. -/
theorem phase_of_call {kernel : Kernel} {slot : Fin slotCount} {frame : TrapFrame} {next : State}
    {faultAddress : Nat} (reached : Reached setting ⟨kernel, .user (.ofIndex slot)⟩)
    (step : Step ⟨kernel, .user (.ofIndex slot)⟩ (.trap faultAddress frame) next)
    (asked : frame.vector ∈ answeringVectors) : next.phase = .entering (.ofIndex slot) := by
  obtain ⟨boot, books, -, regular⟩ := regular_of_reached reached
  obtain ⟨mover, -, moved⟩ := regular.moved step
  have traps : Moment.TrapsWith ⟨⟨kernel, .user (.ofIndex slot)⟩, .trap faultAddress frame, next⟩
      slot frame := ⟨rfl, faultAddress, rfl⟩
  rcases (trapTaken_of_trapsWith reached step traps).next with
    ⟨decision, isNext, follows⟩ | ⟨⟨failure, stops⟩, -⟩
  · rw [Dispatch.Follows, if_neg (not_reschedules_of_call asked)] at follows
    rw [follows] at isNext
    exact isNext
  · have fits := moved.phase
    dsimp only at stops
    rw [stops] at fits
    obtain ⟨cause, rfl⟩ := fits
    obtain ⟨_, _, isTrap, justified⟩ := moved.justified cause stops
    cases isTrap
    exact absurd justified (not_justified_of_call asked cause)

/-! ## A small setting -/

/-- A program of one page, which it may write. -/
def onePage : ProgramImage :=
  ⟨"one page", ⟨processStart⟩, [⟨⟨processStart⟩, .empty, pageSize, true⟩]⟩

/-- Memory is blank, and all programs of the standard workload are a single page. -/
def Setting.small : Setting :=
  ⟨{}, .blank, ⟨List.replicate 4 onePage⟩, {}, none⟩

/-- The registers with which a program forks first of all. -/
def forkFrame : TrapFrame :=
  { TrapFrame.user with vector := Interrupt.fork }

theorem Setting.suitable_small : small.Suitable where
  stack_room := by decide
  stack_low := by decide
  image_low := by decide
  accepted := by
    intro member listed
    have inside : ∀ member ∈ Workload.standard.processes, member.2 < 4 := by decide
    exact ⟨onePage, List.getElem?_replicate_of_lt (inside member listed), rfl⟩
  room := by
    have spans : ∀ image ∈ small.programs.images,
        (image.segments.map Segment.pageSpan).sum ≤ 1 := by
      intro image listed
      obtain rfl : image = onePage := List.eq_of_mem_replicate (n := 4) listed
      decide
    have needs := ProgramTable.needs_le spans
    have each : ∀ pages ∈ Workload.standard.processes.map (small.programs.needs ·.2),
        pages ≤ 4 := by
      intro pages listed
      obtain ⟨member, -, rfl⟩ := List.mem_map.mp listed
      exact needs member.2
    have total := List.sum_le_card_nsmul _ 4 each
    have four : Workload.standard.processes.length = 4 := rfl
    have standard : Workload.ofCommand small.command = .standard := rfl
    rw [List.length_map, four] at total
    change _ ≤ 16 at total
    rw [standard, firstProcessPage]
    omega

end Run

end PagingKernel
