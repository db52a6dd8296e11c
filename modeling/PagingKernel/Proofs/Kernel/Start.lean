import PagingKernel.Proofs.AddressSpace.Template
import PagingKernel.Proofs.Kernel.Coherent
import PagingKernel.Proofs.Ledger.Partition
import PagingKernel.Proofs.Process.Setup

/-!
# Booting and starting

A kernel comes up coherent.  Booting fails only for want of two free pages, and
each process of a workload is created in its turn or denied for a reason.
-/

namespace PagingKernel.Kernel

open PagingKernel.Action

variable {machine : Machine} {ram : Ram} {programs : ProgramTable} {layout : Layout}
  {boot : Ledger} {books : Books} {kernel : Kernel}

/-! ## Booting -/

/-- A kernel as it comes up: coherent, with no process yet and two pages gone. -/
structure Booted (boot : Ledger) (books : Books) (programs : ProgramTable) (kernel : Kernel) :
    Prop where
  coherent : Coherent boot books kernel
  tasks_eq : kernel.resources.tasks = .vacant
  scheduler_eq : kernel.scheduler = {}
  programs_eq : kernel.programs = programs
  freePages_eq : kernel.resources.memory.ledger.freePages + 2 = boot.freePages

theorem process_vacant (slot : Fin slotCount) : ProcessTable.vacant.process slot = .vacant := by
  simp [ProcessTable.vacant, ProcessTable.process]

/-- Before there is a process the resources are sound as soon as the kernel's space stands. -/
theorem sound_ofKernel (atBoot : boot.AtBoot) {root table : Fin pageCount}
    (rootFree : ¬boot.Taken root)
    (tableFree : ¬(boot.charge .kernel (Pi.single root 1)).Taken table)
    (spans : ram.Spans root table kernelWord) :
    Sound boot (.ofKernel root table)
      ⟨boot.charge .kernel (Pi.single root 1 + Pi.single table 1), ram⟩ .vacant where
  balanced := Books.balanced_ofKernel atBoot rootFree tableFree
  kernelStands := spans
  stands _ _ impossible := by cases impossible
  spaces slot := by
    rw [process_vacant]
    rfl
  live slot := by
    rw [process_vacant]
    exact iff_of_true rfl rfl
  reserved := rfl

/-- A root and a page table take two pages. -/
theorem freePages_of_structure {root table : Fin pageCount} {owner : Owner}
    (rootFree : ¬boot.Taken root)
    (tableFree : ¬(boot.charge owner (Pi.single root 1)).Taken table) :
    (boot.charge owner (Pi.single root 1 + Pi.single table 1)).freePages + 2 =
      boot.freePages := by
  have first := Ledger.freePages_charge_single rootFree owner
  have second := Ledger.freePages_charge_single tableFree owner
  rw [Ledger.charge_charge] at second
  rw [← first, ← second]

/-- The kernel's own space is built from two free pages, and then all is sound. -/
theorem ensures_buildKernel_sound (laidOut : Ledger.ofLayout layout = .ok boot) (ram : Ram) :
    AddressSpace.buildKernel.Ensures ⟨boot, ram⟩
      (fun space memory => ∃ books : Books, space = ⟨⟨.ofPage books.kernelRoot⟩, .kernel⟩ ∧
        Sound boot books memory .vacant ∧ memory.ledger.freePages + 2 = boot.freePages)
      fun cause _ => cause = .alloc .outOfMemory ∧ boot.freePages < 2 := by
  have atBoot := Ledger.atBoot_of_ofLayout laidOut
  apply (AddressSpace.ensures_buildKernel atBoot.tidy).mono
  · rintro _ _ ⟨root, table, next, rfl, rootFree, tableFree, rfl, filled⟩
    exact ⟨.ofKernel root table, rfl,
      sound_ofKernel atBoot rootFree.untaken tableFree.untaken filled.spans_kernelWord,
      freePages_of_structure rootFree.untaken tableFree.untaken⟩
  · rintro _ _ held
    exact held

theorem divided_of_laidOut (laidOut : Ledger.ofLayout layout = .ok boot) (ram : Ram) :
    Memory.ofLayout layout ram = .ok ⟨boot, ram⟩ :=
  Memory.ofLayout_eq_ok_iff.mpr ⟨boot, laidOut, rfl⟩

/-- The kernel's own space comes up in sound resources. -/
theorem sound_of_fresh {blank memory : Memory} {space : AddressSpace}
    (divided : Memory.ofLayout layout ram = .ok blank)
    (built : AddressSpace.buildKernel blank = .ok space memory) :
    ∃ boot books, space = ⟨⟨.ofPage books.kernelRoot⟩, .kernel⟩ ∧
      Sound boot books memory .vacant := by
  obtain ⟨boot, laidOut, rfl⟩ := Memory.ofLayout_eq_ok_iff.mp divided
  obtain ⟨books, isKernel, sound, -⟩ := (ensures_buildKernel_sound laidOut ram).done built
  exact ⟨boot, books, isKernel, sound⟩

/-- The kernel's own space is built where memory has room, and leaves most of it free. -/
theorem exists_buildKernel (stackRoom : pageSize ≤ layout.stackTop)
    (imageLow : layout.imageEnd ≤ deviceEnd) (stackLow : layout.stackTop ≤ deviceEnd) (ram : Ram) :
    ∃ (boot : Ledger) (books : Books) (memory : Memory),
      Memory.ofLayout layout ram = .ok ⟨boot, ram⟩ ∧
      AddressSpace.buildKernel ⟨boot, ram⟩ = .ok ⟨⟨.ofPage books.kernelRoot⟩, .kernel⟩ memory ∧
      Sound boot books memory .vacant ∧ firstProcessPage ≤ memory.ledger.freePages + 2 := by
  obtain ⟨boot, laidOut⟩ := Ledger.exists_ofLayout stackRoom
  have half := Ledger.half_le_freePages laidOut stackRoom imageLow stackLow
  rcases (ensures_buildKernel_sound laidOut ram).cases with
    ⟨_, memory, built, books, rfl, sound, used⟩ | ⟨_, _, -, -, short⟩
  · exact ⟨boot, books, memory, divided_of_laidOut laidOut ram, built, sound, used ▸ half⟩
  · simp only [firstProcessPage] at half
    omega

/-- A kernel's space and a space made from it, which maps nothing of its own and can grow. -/
structure FirstSpace (start before : Memory) (kernel : AddressSpace) (view : SpaceView)
    (memory : Memory) : Prop where
  built : AddressSpace.buildKernel start = .ok kernel before
  made : AddressSpace.ofTemplate kernel (.ofIndex 1) before =
    .ok (view.space (.process (.ofIndex 1))) memory
  tidy : memory.ledger.Tidy
  stands : view.Stands memory.ram
  rootTaken : memory.ledger.Taken view.root
  tableTaken : memory.ledger.Taken view.table
  vacant : ∀ place, view.leaf place = none
  room : 0 < memory.ledger.freePages

theorem exists_firstSpace : ∃ start before kernel view memory,
    FirstSpace start before kernel view memory := by
  obtain ⟨boot, books, ⟨base, before⟩, -, built, sound, half⟩ := exists_buildKernel
    (show pageSize ≤ ({} : Layout).stackTop by decide) (by decide) (by decide) .blank
  have owned : Owner.process (.ofIndex 1) ≠ .free := by simp
  have tidy := sound.balanced.tidy
  rcases (AddressSpace.ensures_ofTemplate tidy sound.kernelStands sound.balanced.kernelRoot_taken
    sound.balanced.kernelTable_taken (.ofIndex 1)).cases with
    ⟨_, _, made, view, ram, rfl, blank, rfl, isBuilt⟩ | ⟨_, _, -, -, short, -⟩
  · have used := freePages_of_structure blank.root_nextFree.untaken blank.table_nextFree.untaken
    rw [← SpaceView.refs_eq_of_vacant blank.vacant] at used
    refine ⟨_, _, _, view, _, built, made, tidy.charge owned _, isBuilt.stands,
      BuiltOver.root_taken view, BuiltOver.table_taken view, blank.vacant, ?_⟩
    simp only [firstProcessPage] at half used ⊢
    omega
  · simp only [firstProcessPage] at half short
    omega

/-- The kernel as it comes up, once its own space is built. -/
def comingUp (machine : Machine) (programs : ProgramTable) (layout : Layout) (space : AddressSpace)
    (memory : Memory) : Kernel where
  machine := machine
  resources := ⟨memory, .vacant,
    ({} : Console).emit (Event.kernelBuilt layout memory.ledger.freePages space.root).line⟩
  programs := programs
  space := space
  scheduler := {}
  syscalls := .standard

theorem boot_eq_ok (laidOut : Ledger.ofLayout layout = .ok boot) {space : AddressSpace}
    {memory : Memory} (built : AddressSpace.buildKernel ⟨boot, ram⟩ = .ok space memory) :
    Kernel.boot machine ram programs layout =
      .ok (comingUp machine programs layout space memory) := by
  simp only [Kernel.boot, divided_of_laidOut laidOut ram, mapError_ok, bind, Except.bind, built]
  rfl

theorem boot_eq_error (laidOut : Ledger.ofLayout layout = .ok boot) {cause : AddressSpaceError}
    {memory : Memory}
    (refused : AddressSpace.buildKernel ⟨boot, ram⟩ = .error (.refused cause) memory) :
    Kernel.boot machine ram programs layout = .error (.refused (.kernelSpace cause)) := by
  simp only [Kernel.boot, divided_of_laidOut laidOut ram, mapError_ok, bind, Except.bind, refused]
  rfl

/-- The kernel comes up if two pages are free, and otherwise says that memory ran out. -/
theorem boot_cases (laidOut : Ledger.ofLayout layout = .ok boot) (machine : Machine) (ram : Ram)
    (programs : ProgramTable) :
    (∃ kernel books, Kernel.boot machine ram programs layout = .ok kernel ∧
      Booted boot books programs kernel) ∨
    Kernel.boot machine ram programs layout =
        .error (.refused (.kernelSpace (.alloc .outOfMemory))) ∧ boot.freePages < 2 := by
  rcases (ensures_buildKernel_sound laidOut ram).cases with
    ⟨_, _, built, books, rfl, sound, used⟩ | ⟨_, _, refused, rfl, short⟩
  · exact .inl ⟨_, books, boot_eq_ok laidOut built, ⟨sound, rfl, rfl⟩, rfl, rfl, rfl, used⟩
  · exact .inr ⟨boot_eq_error laidOut refused, short⟩

/-- A kernel that has come up is coherent. -/
theorem booted_of_boot (booted : Kernel.boot machine ram programs layout = .ok kernel) :
    ∃ boot books, Ledger.ofLayout layout = .ok boot ∧ Booted boot books programs kernel := by
  cases laidOut : Ledger.ofLayout layout with
  | error fault =>
      rw [Kernel.boot, Memory.ofLayout, laidOut] at booted
      cases booted
  | ok boot =>
      rcases boot_cases laidOut machine ram programs with ⟨same, books, ran, holds⟩ | ⟨ran, -⟩
      · rw [ran] at booted
        cases booted
        exact ⟨boot, books, rfl, holds⟩
      · rw [ran] at booted
        cases booted

/-! ## Creating the processes of a workload -/

/-- The kernel is coherent after the processes of a list were created.  They are as their programs
start, the programs were placed in what they need, and no other slot changed. -/
structure Populated (boot : Ledger) (before : Kernel) (created : List (Pid × Nat))
    (after : Kernel) : Prop where
  coherent : ∃ books, Coherent boot books after
  programs_eq : after.programs = before.programs
  started : ∀ member ∈ created, ∃ (slot : Fin slotCount) (image : ProgramImage)
    (space : AddressSpace), member.1 = .ofIndex slot ∧
    before.programs.image? member.2 = some image ∧
    after.resources.tasks.process slot = Resources.started image space
  untouched : ∀ slot : Fin slotCount, (∀ member ∈ created, member.1 ≠ .ofIndex slot) →
    after.resources.tasks.process slot = before.resources.tasks.process slot
  freePages_le : before.resources.memory.ledger.freePages ≤
    after.resources.memory.ledger.freePages + (created.map (before.programs.needs ·.2)).sum

variable {before after : Kernel} {created : List (Pid × Nat)}

theorem Populated.nil (coherent : Coherent boot books kernel) : Populated boot kernel [] kernel :=
  ⟨⟨books, coherent⟩, rfl, fun _ listed => (by cases listed), fun _ _ => rfl, Nat.le_add_right ..⟩

/-- A process that was created joins those that can run. -/
theorem Populated.of_created (populated : Populated boot before created after)
    (coherent : Coherent boot books after) {pid : Pid} {program : Nat} {resources : Resources}
    {slot : Fin slotCount} {image : ProgramImage} {child : SpaceView}
    (added : Resources.Created boot books after.programs pid program after.resources resources
      slot image child) :
    Populated boot before (created ++ [(pid, program)]) { after with resources } := by
  obtain ⟨rfl, -, isFree, -⟩ := ProcessTable.vacantSlot_eq_ok_iff.mp added.vacant
  refine ⟨⟨_, added.sound, coherent.space_eq, coherent.syscalls_eq⟩, populated.programs_eq,
    ?started, ?untouched, ?used⟩
  case started =>
    intro member listed
    rcases List.mem_append.mp listed with earlier | last
    · obtain ⟨other, image, space, same, isImage, isStarted⟩ := populated.started member earlier
      have apart : other ≠ slot := by
        rintro rfl
        rw [isStarted] at isFree
        cases isFree
      refine ⟨other, image, space, same, isImage, ?_⟩
      rw [added.tasks_eq, ProcessTable.process_put_of_ne apart]
      exact isStarted
    · obtain rfl := List.mem_singleton.mp last
      refine ⟨slot, image, child.space (.process (.ofIndex slot)), rfl, ?_, ?_⟩
      · rw [← populated.programs_eq]
        exact added.image_eq
      · rw [added.tasks_eq, ProcessTable.process_put_self]
  case untouched =>
    intro other absent
    have apart : other ≠ slot := by
      rintro rfl
      exact absent (.ofIndex other, program) (by simp) rfl
    rw [added.tasks_eq, ProcessTable.process_put, if_neg apart]
    exact populated.untouched other fun member listed =>
      absent member (List.mem_append_left _ listed)
  case used =>
    have earlier := populated.freePages_le
    have used := added.freePages_le
    rw [populated.programs_eq] at used
    rw [List.map_append, List.sum_append, List.map_singleton, List.sum_singleton]
    dsimp only
    omega

/-- One process of a workload is created or denied. -/
theorem ensures_createProcess (coherent : Coherent boot books kernel) (pid : Pid) (program : Nat) :
    (onResources (Resources.setup kernel.space kernel.programs pid program)).Ensures kernel
      (fun _ next => ∃ resources, next = { kernel with resources } ∧ ∃ slot image child,
        Resources.Created boot books kernel.programs pid program kernel.resources resources slot
          image child)
      fun _ next => Resources.Denied boot books kernel.programs pid program kernel.resources
        next.resources := by
  rw [ensures_onResources, coherent.space_eq]
  apply (Resources.ensures_setup coherent.sound kernel.programs pid program).mono
  · intro _ resources created
    exact ⟨resources, rfl, created⟩
  · intro _ _ denied
    exact denied

/-- A process of a list was denied after those before it were created. -/
def DeniedAmong (boot : Ledger) (before : Kernel) (processes : List (Pid × Nat))
    (cause : BootError) : Prop :=
  ∃ created pid program later after books denied reason,
    processes = created ++ (pid, program) :: later ∧ cause = .spawn pid program reason ∧
    Populated boot before created after ∧
    Resources.Denied boot books before.programs pid program after.resources denied

theorem ensures_createProcesses (coherent : Coherent boot books kernel)
    (processes : List (Pid × Nat)) :
    (createProcesses processes).Ensures kernel
      (fun _ next => Populated boot kernel processes next)
      fun cause _ => DeniedAmong boot kernel processes cause := by
  refine ensures_forEach (fun created next => Populated boot kernel created next)
    (.nil coherent) ?_
  rintro earlier ⟨pid, program⟩ later state split populated
  obtain ⟨current, stateCoherent⟩ := populated.coherent
  simp only [ensures_bind, ensures_get, ensures_mapCause]
  apply (ensures_createProcess stateCoherent pid program).mono
  · rintro _ _ ⟨resources, rfl, slot, image, child, created⟩
    exact populated.of_created stateCoherent created
  · intro reason next denied
    rw [populated.programs_eq] at denied
    exact ⟨earlier, pid, program, later, state, current, next.resources, reason, split, rfl,
      populated, denied⟩

/-! ## Starting -/

theorem exists_program_firstPid (workload : Workload) :
    ∃ program, (workload.firstPid, program) ∈ workload.processes := by
  cases workload <;> exact ⟨_, List.mem_cons_self⟩

/-- The kernel has started a workload: its processes are as their programs start. -/
structure Started (boot : Ledger) (before : Kernel) (workload : Workload) (pid : Pid)
    (after : Kernel) : Prop where
  populated : Populated boot before workload.processes after
  first : ∃ slot : Fin slotCount, pid = .ofIndex slot ∧
    (after.resources.tasks.process slot).state = .runnable

/-- A workload starts with the first of its processes, unless one of them is denied. -/
theorem ensures_start (coherent : Coherent boot books kernel) (workload : Workload) :
    (start workload).Ensures kernel
      (fun pid next => Started boot kernel workload pid next)
      fun cause _ => DeniedAmong boot
        { kernel with machine := kernel.machine.startTimer timerFrequency }
        workload.processes cause := by
  obtain ⟨program, listed⟩ := exists_program_firstPid workload
  simp only [start, ensures_bind, ensures_modifyMachine, ensures_mapCause]
  have timed := coherent.withMachine (kernel.machine.startTimer timerFrequency)
  refine (ensures_createProcesses timed workload.processes).mono ?_ fun _ _ denied => denied
  intro _ next populated
  obtain ⟨last, coherent⟩ := populated.coherent
  obtain ⟨slot, image, space, same, -, isStarted⟩ := populated.started _ listed
  rw [ensures_inspect coherent.check_eq_ok, ensures_onResources, Resources.ensures_report,
    ensures_pure]
  refine ⟨⟨⟨last, coherent.sound, coherent.space_eq, coherent.syscalls_eq⟩,
    populated.programs_eq, populated.started, populated.untouched, populated.freePages_le⟩,
    slot, same, ?_⟩
  change (next.resources.tasks.process slot).state = .runnable
  rw [isStarted]
  rfl

theorem exists_slot_of_mem_processes {workload : Workload} :
    ∀ member ∈ workload.processes, ∃ slot : Fin slotCount,
      slot ≠ ProcessTable.reservedSlot ∧ member.1 = .ofIndex slot := by
  cases workload <;> decide

theorem nodup_processes (workload : Workload) : (workload.processes.map Prod.fst).Nodup := by
  cases workload <;> decide

/-- At boot every slot but the reserved one is vacant. -/
theorem vacantSlot_of_vacant {tasks : ProcessTable} {slot : Fin slotCount}
    (notReserved : slot ≠ ProcessTable.reservedSlot) (isVacant : tasks.process slot = .vacant) :
    tasks.vacantSlot (.ofIndex slot) = .ok slot := by
  rw [ProcessTable.vacantSlot_eq_ok_iff, isVacant]
  exact ⟨rfl, notReserved, rfl, rfl⟩

/-- A workload starts if its programs are acceptable and fit into memory all together. -/
theorem exists_start (booted : Booted boot books programs kernel) {workload : Workload}
    (accepted : ∀ member ∈ workload.processes, ∃ image, programs.image? member.2 = some image ∧
      image.validate = .ok ())
    (room : 2 + (workload.processes.map (programs.needs ·.2)).sum ≤ boot.freePages) :
    ∃ pid started, start workload kernel = .ok pid started := by
  rcases (ensures_start booted.coherent workload).cases with
    ⟨pid, started, ran, -⟩ | ⟨_, _, -, created, pid, program, later, after, _, _, _, split, -,
      populated, reason, -⟩
  · exact ⟨pid, started, ran⟩
  have listed : (pid, program) ∈ workload.processes := by simp [split]
  rcases reason with noSlot | tooMuch
  · obtain ⟨slot, notReserved, rfl⟩ := exists_slot_of_mem_processes _ listed
    have distinct := nodup_processes workload
    rw [split, List.map_append, List.map_cons, List.nodup_append] at distinct
    have absent : ∀ member ∈ created, member.1 ≠ .ofIndex slot := fun member earlier =>
      distinct.2.2 _ (List.mem_map_of_mem earlier) _ List.mem_cons_self
    have same := populated.untouched slot absent
    rw [booted.tasks_eq, process_vacant] at same
    exact absurd (vacantSlot_of_vacant notReserved same) (noSlot slot)
  · obtain ⟨image, isImage, valid⟩ := accepted _ listed
    rw [booted.programs_eq] at tooMuch
    have short := tooMuch image isImage valid
    have atFirst := booted.freePages_eq
    have used := populated.freePages_le
    have needs : programs.needs program = 3 + image.footprint.card := by
      rw [ProgramTable.needs, isImage, Option.elim_some]
    rw [split, List.map_append, List.sum_append, List.map_cons, List.sum_cons] at room
    rw [booted.programs_eq] at used
    dsimp only at short room used
    omega

end PagingKernel.Kernel
