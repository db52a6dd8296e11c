import PagingKernel.Proofs.Kernel.Start
import PagingKernel.Proofs.Twin.Traps

/-!
# Booting and starting in two memories

A kernel is built from pages that it clears first, so that the same kernel comes
up whatever memory holds, and the workload that it starts is the same too.
-/

namespace PagingKernel

open PageTable PagingKernel.Action

/-- The kernel's own space is built alike in any two memories with the same ledger. -/
theorem AddressSpace.agree_buildKernel {boot : Ledger} (tidy : boot.Tidy) (left right : Ram) :
    Agree buildKernel buildKernel ⟨boot, left⟩ ⟨boot, right⟩ (fun _ => Memory.Alike boot)
      fun _ _ _ => True := by
  refine agree_of_ensures (ensures_buildKernel tidy) (ensures_buildKernel tidy) ?_ ?_ ?_ ?_
  · rintro _ _ _ _ ⟨root, table, leftNext, rfl, rootFree, tableFree, rfl, onLeft⟩
      ⟨otherRoot, otherTable, rightNext, rfl, otherRootFree, otherTableFree, rfl, onRight⟩
    obtain rfl := rootFree.unique otherRootFree
    obtain rfl := tableFree.unique otherTableFree
    refine ⟨rfl, rfl, fun page taken new => ?_⟩
    rw [← Ledger.charge_charge, Ledger.taken_charge_iff, Ledger.taken_charge_iff] at taken
    rcases taken with (before | isRoot) | isTable
    · exact absurd before new
    · rw [Ledger.eq_of_charged_single isRoot]
      exact onLeft.spans.samePage_root onRight.spans
    · rw [Ledger.eq_of_charged_single isTable]
      exact onLeft.spans.samePage_table onRight.spans
  · rintro _ _ _ _ ⟨rfl, -⟩ ⟨rfl, -⟩
    exact ⟨rfl, trivial⟩
  · rintro _ _ _ _ ⟨root, table, _, -, rootFree, tableFree, -⟩ ⟨-, short⟩
    have used := Kernel.freePages_of_structure rootFree.untaken tableFree.untaken
    omega
  · rintro _ _ _ _ ⟨-, short⟩ ⟨root, table, _, -, rootFree, tableFree, -⟩
    have used := Kernel.freePages_of_structure rootFree.untaken tableFree.untaken
    omega

namespace Kernel

/-- Booting ends alike in two memories: in the same failure, or with kernels that are twins. -/
theorem boot_cases_of_two (machine : Machine) (left right : Ram) (programs : ProgramTable)
    (layout : Layout) :
    (∃ failure, Kernel.boot machine left programs layout = .error failure ∧
      Kernel.boot machine right programs layout = .error failure) ∨
    ∃ boot leftKernel rightKernel, Ledger.ofLayout layout = .ok boot ∧
      Kernel.boot machine left programs layout = .ok leftKernel ∧
      Kernel.boot machine right programs layout = .ok rightKernel ∧
      Twins boot leftKernel rightKernel := by
  cases laidOut : Ledger.ofLayout layout with
  | error fault =>
      refine .inl ⟨.faulted fault, ?_, ?_⟩
      · rw [Kernel.boot, Memory.ofLayout, laidOut]
        rfl
      · rw [Kernel.boot, Memory.ofLayout, laidOut]
        rfl
  | ok boot =>
      have tidy := (Ledger.atBoot_of_ofLayout laidOut).tidy
      have built := AddressSpace.agree_buildKernel tidy left right
      have onLeft := ensures_buildKernel_sound laidOut left
      have onRight := ensures_buildKernel_sound laidOut right
      rcases agree_iff.mp (built.ensures onLeft onRight) with
        ⟨space, leftMemory, rightMemory, ranLeft, ranRight, memory, ⟨books, isSpace, sound, -⟩,
          other, alsoSpace, otherSound, -⟩ | ⟨cause, _, _, ranLeft, ranRight, -⟩
      · have alike : Alike boot (comingUp machine programs layout space leftMemory)
            (comingUp machine programs layout space rightMemory) :=
          ⟨rfl, rfl, rfl, rfl, rfl, rfl, memory⟩
        exact .inr ⟨boot, _, _, rfl, boot_eq_ok laidOut ranLeft, boot_eq_ok laidOut ranRight,
          alike.twins ⟨sound, isSpace, rfl⟩ ⟨otherSound, alsoSpace, rfl⟩⟩
      · exact .inl ⟨_, boot_eq_error laidOut ranLeft, boot_eq_error laidOut ranRight⟩

variable {boot : Ledger} {books : Books} {left right : Kernel}

theorem Twin.agree_createProcess (twin : Twin boot books left right) (pid : Pid) (program : Nat) :
    Agree (onResources (Resources.setup left.space left.programs pid program))
      (onResources (Resources.setup left.space left.programs pid program)) left right
      (fun _ => Twins boot) fun _ => Twins boot := by
  have alike := twin.alike
  rw [twin.onLeft.space_eq]
  refine agree_onResources (((Resources.agree_setup alike.resources twin.onLeft.sound
    twin.onRight.sound left.programs pid program).ensures
    (Resources.ensures_setup twin.onLeft.sound left.programs pid program)
    (Resources.ensures_setup twin.onRight.sound left.programs pid program)).mono ?_ ?_)
  · rintro _ leftNext rightNext ⟨resources, ⟨_, _, _, leftCreated⟩, _, _, _, rightCreated⟩
    have onLeft : Coherent boot _ { left with resources := leftNext } :=
      ⟨leftCreated.sound, twin.onLeft.space_eq, twin.onLeft.syscalls_eq⟩
    have onRight : Coherent boot _ { right with resources := rightNext } :=
      ⟨rightCreated.sound, twin.onRight.space_eq, twin.onRight.syscalls_eq⟩
    exact (alike.of_resources resources).twins onLeft onRight
  · rintro cause leftNext rightNext ⟨resources, ⟨-, -, leftSound⟩, -, -, rightSound⟩
    have onLeft : Coherent boot _ { left with resources := leftNext } :=
      ⟨leftSound, twin.onLeft.space_eq, twin.onLeft.syscalls_eq⟩
    have onRight : Coherent boot _ { right with resources := rightNext } :=
      ⟨rightSound, twin.onRight.space_eq, twin.onRight.syscalls_eq⟩
    exact (alike.of_resources resources).twins onLeft onRight

theorem Twins.agree_createProcesses (twins : Twins boot left right)
    (processes : List (Pid × Nat)) :
    Agree (createProcesses processes) (createProcesses processes) left right
      (fun _ => Twins boot) fun _ => Twins boot := by
  refine agree_forEach (fun _ => Twins boot) twins ?_
  rintro _ ⟨pid, program⟩ _ stop last - ⟨books, twin⟩
  refine agree_get_bind (agree_get_bind (agree_mapCause ?_))
  rw [← twin.alike.space_eq, ← twin.alike.programs_eq]
  exact twin.agree_createProcess pid program

/-- Twins start a workload alike. -/
theorem Twins.agree_start (twins : Twins boot left right) (workload : Workload) :
    Agree (start workload) (start workload) left right (fun _ => Twins boot)
      fun _ => Twins boot := by
  obtain ⟨books, twin⟩ := twins
  have timed : Twins boot { left with machine := left.machine.startTimer timerFrequency }
      { right with machine := right.machine.startTimer timerFrequency } :=
    ⟨books, twin.withMachine (·.startTimer timerFrequency)⟩
  refine agree_bind (agree_modifyMachine (agree_bind
    ((timed.agree_createProcesses workload.processes).mono ?_ fun _ _ _ held => held)))
  rintro _ leftNext rightNext created
  refine agree_bind (created.agree_check (agree_bind (agree_onResources ?_)))
  obtain ⟨last, alike, onLeft, onRight⟩ := created
  refine Resources.agree_report (agree_pure ⟨last, alike.of_resources ?_, ?_, ?_⟩)
  · exact ⟨alike.resources.tasks_eq, alike.resources.memory⟩
  · exact ⟨onLeft.sound, onLeft.space_eq, onLeft.syscalls_eq⟩
  · exact ⟨onRight.sound, onRight.space_eq, onRight.syscalls_eq⟩

end Kernel

end PagingKernel
