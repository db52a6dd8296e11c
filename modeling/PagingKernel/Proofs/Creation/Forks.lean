import PagingKernel.Proofs.Creation.Calls
import PagingKernel.Proofs.Run.Underway

/-!
# Forks that are refused

Whatever calls came before, a refused fork changes neither the ledger nor the
process table, and the consistency check passes, as long as no fork meets an
attached slot.  The two ends of a fork disagree about such a slot: the search
for a free slot looks at the state only, while the child is turned away for the
space that the slot is attached to.
-/

namespace PagingKernel

open PagingKernel.Action

/-- What calls lead to from a kernel's own space and an empty table, if each fork is clear. -/
inductive World (layout : Layout) (ram : Ram) (programs : ProgramTable) (kernel : AddressSpace) :
    Resources → Prop
  | fresh {blank memory : Memory} (divided : Memory.ofLayout layout ram = .ok blank)
      (built : AddressSpace.buildKernel blank = .ok kernel memory) :
      World layout ram programs kernel (.ofMemory memory)
  | done {before after : Resources} {call : ProcessCall}
      (earlier : World layout ram programs kernel before) (clear : call.Clear before.tasks)
      (ran : call.perform kernel programs before = .ok () after) :
      World layout ram programs kernel after
  | failed {before after : Resources} {call : ProcessCall} {failure : Failure SyscallError}
      (earlier : World layout ram programs kernel before) (clear : call.Clear before.tasks)
      (ran : call.perform kernel programs before = .error failure after) :
      World layout ram programs kernel after

variable {layout : Layout} {ram : Ram} {programs : ProgramTable} {kernel : AddressSpace}
  {resources : Resources}

theorem World.apart (world : World layout ram programs kernel resources) :
    ∃ boot kernelRoot, StillApart boot kernelRoot resources ∧
      kernel = ⟨⟨.ofPage kernelRoot⟩, .kernel⟩ := by
  induction world with
  | fresh divided built =>
      obtain ⟨boot, books, rfl, sound⟩ := Kernel.sound_of_fresh divided built
      exact ⟨boot, _, (SoundApart.of_sound sound).still, rfl⟩
  | @done before after call _ clear ran ih =>
      obtain ⟨boot, _, ⟨books, bare, apart, rfl⟩, rfl⟩ := ih
      exact ⟨boot, _, (apart.ensures_perform programs clear).done ran, rfl⟩
  | @failed before after call failure _ clear ran ih =>
      obtain ⟨boot, _, ⟨books, bare, apart, rfl⟩, rfl⟩ := ih
      have ensured : (call.perform _ programs).Ensures before _ _ :=
        apart.ensures_perform programs clear
      cases failure with
      | refused cause => exact ⟨boot, _, ensured.refused ran, rfl⟩
      | faulted fault => exact absurd ran ensured.not_faulted

/-- What holds of a world in which a fork may be made. -/
structure LeaksNothing (programs : ProgramTable) (kernel : AddressSpace) (resources : Resources) :
    Prop where
  /-- The consistency check passes. -/
  consistent : Consistency.check resources.memory kernel resources.tasks = .ok ()
  /-- No call stops at a fault. -/
  total : ∀ call : ProcessCall, call.Clear resources.tasks → ∀ fault after,
    call.perform kernel programs resources ≠ .error (.faulted fault) after
  /-- The slot for a child is one that takes it. -/
  accepted : ∀ caller, (ProcessCall.fork caller).Clear resources.tasks → ∀ free,
    resources.tasks.firstFree? = some free → ∃ slot, resources.tasks.vacantSlot free = .ok slot
  /-- A refused fork changes neither the ledger nor the process table. -/
  untouched : ∀ caller, (ProcessCall.fork caller).Clear resources.tasks → ∀ cause after,
    Syscall.performFork kernel caller resources = .error (.refused cause) after →
      after.memory.ledger = resources.memory.ledger ∧ after.tasks = resources.tasks

/-- A refused fork leaks nothing, unless the slot for the child is attached to a space. -/
theorem refused_forks_leak_nothing (world : World layout ram programs kernel resources) :
    LeaksNothing programs kernel resources := by
  obtain ⟨boot, _, ⟨books, bare, apart, rfl⟩, rfl⟩ := world.apart
  refine ⟨Consistency.check_eq_ok_of_apart apart, ?total, ?accepted, ?untouched⟩
  case total =>
    intro call clear fault after
    exact (apart.ensures_perform programs clear).not_faulted
  case accepted =>
    intro caller clear pid first
    obtain ⟨free, rfl, notReserved, isFree⟩ := ProcessTable.firstFree?_eq_some first
    exact ⟨free, ProcessTable.vacantSlot_eq_ok_iff.mpr ⟨rfl, notReserved, isFree, clear free first⟩⟩
  case untouched =>
    intro caller clear cause after ran
    exact ((apart.ensures_fork clear).refused ran).2

/-! ## Attached slots -/

/-- A child was built for a slot that did not take it, and its pages are charged to nobody alive. -/
structure Stranded (kernel : AddressSpace) (free : Fin slotCount) (before : Resources)
    (cause : SyscallError) (after : Resources) : Prop where
  cause_eq : cause = .spawn (.slotInUse (.ofIndex free))
  ledger_ne : after.memory.ledger ≠ before.memory.ledger
  inconsistent : Consistency.check after.memory kernel after.tasks ≠ .ok ()

section

variable {boot bare : Ledger} {books : Books} {memory : Memory} {tasks : ProcessTable}
  {slot free : Fin slotCount} {view : SpaceView}

/-- What is charged to a free slot is found by the consistency check. -/
theorem stranded_of_charge {child : SpaceView} {next : Ram} {console later : Console}
    (isFree : (tasks.process free).state = .free) (rootNew : ¬memory.ledger.Taken child.root)
    (single : child.refs child.root ≤ 1) :
    Stranded kernel free ⟨memory, tasks, console⟩ (.spawn (.slotInUse (.ofIndex free)))
      ⟨⟨memory.ledger.charge (.process (.ofIndex free)) child.refs, next⟩, tasks, later⟩ := by
  have once : child.refs child.root = 1 := Nat.le_antisymm single child.refs_root_pos
  have charged := Ledger.entry_charge_of_untaken rootNew (.process (.ofIndex free)) once
  refine ⟨rfl, fun same => ?_, fun passed => ?_⟩
  · have taken : (memory.ledger.charge (.process (.ofIndex free)) child.refs).Taken child.root :=
      Ledger.taken_charge_iff.mpr (.inr child.refs_root_pos)
    change memory.ledger.charge (.process (.ofIndex free)) child.refs = memory.ledger at same
    exact rootNew (same ▸ taken)
  · have alive := Consistency.isLive_of_check passed (congrArg PageInfo.owner charged)
    simp [Consistency.isLive, isFree] at alive

/-- If memory suffices for the child, a fork into an attached slot strands it. -/
theorem SoundApart.ensures_fork_of_attached (apart : SoundApart boot books bare memory tasks)
    (found : books.space slot = some view) (first : tasks.firstFree? = some (.ofIndex free))
    (attached : (tasks.process free).space ≠ none) (console : Console) :
    (Syscall.performFork ⟨⟨.ofPage books.kernelRoot⟩, .kernel⟩ (.ofIndex slot)).Ensures
        ⟨memory, tasks, console⟩ (fun _ _ => False)
      fun cause after => after.tasks = tasks ∧
        (memory.ledger.freePages < 2 + view.mapped.card ∧ after.memory.ledger = memory.ledger ∨
          Stranded ⟨⟨.ofPage books.kernelRoot⟩, .kernel⟩ free ⟨memory, tasks, console⟩ cause
            after) := by
  obtain ⟨same, isSame, -, isFree⟩ := ProcessTable.firstFree?_eq_some first
  obtain rfl := ProcessTable.ofIndex_injective isSame
  have stands : view.Stands memory.ram := apart.sound.stands slot view found
  apply (Syscall.ensures_fork_of_stands apart.tidy apart.sound.kernelStands
    apart.kernelRoot_taken apart.kernelTable_taken (ProcessTable.get?_ofIndex tasks slot)
    (apart.ownSpace found) stands (fun page => apart.taken_of_refs found) first).mono
  · rintro _ _ ⟨-, unattached, -⟩
    exact attached unattached
  · rintro cause ⟨nextMemory, nextTasks, later⟩ ⟨rfl, left⟩
    refine ⟨rfl, ?_⟩
    cases left with
    | undone unaffordable memory_eq _ =>
        obtain rfl := memory_eq
        exact .inl ⟨apart.freePages_lt_of_unaffordable found unaffordable, rfl⟩
    | stranded cause_eq _ memory_eq inherited =>
        obtain rfl := memory_eq
        obtain rfl := cause_eq
        have built := inherited.built
        exact .inr (stranded_of_charge isFree built.rootNew (built.single _ built.rootNew))

end

/-- Where the slot for the child is attached to a space, no fork succeeds: it leaves the ledger as
it was, or strands the child. -/
theorem fork_into_attached_slot (world : World layout ram programs kernel resources)
    {free : Fin slotCount} (first : resources.tasks.firstFree? = some (.ofIndex free))
    (attached : (resources.tasks.process free).space ≠ none) (caller : Pid) :
    (Syscall.performFork kernel caller).Ensures resources (fun _ _ => False)
      fun cause after => after.tasks = resources.tasks ∧
        (after.memory.ledger = resources.memory.ledger ∨
          Stranded kernel free resources cause after) := by
  obtain ⟨boot, _, ⟨books, bare, apart, rfl⟩, rfl⟩ := world.apart
  cases own : (resources.tasks.get? caller).bind (·.ownSpace?) with
  | none =>
      refine (Syscall.ensures_fork_of_none (.inr own)).mono (fun _ _ held => held) ?_
      rintro _ _ rfl
      exact ⟨rfl, .inl rfl⟩
  | some space =>
      obtain ⟨slot, view, rfl, found, rfl⟩ := apart.exists_caller own
      refine (apart.ensures_fork_of_attached found first attached resources.console).mono
        (fun _ _ held => held) ?_
      rintro _ after ⟨same, ⟨-, sameLedger⟩ | stranded⟩
      · exact ⟨same, .inl sameLedger⟩
      · exact ⟨same, .inr stranded⟩

/-! ## Worlds with a process -/

theorem World.exists_fresh (stackRoom : pageSize ≤ layout.stackTop)
    (imageLow : layout.imageEnd ≤ deviceEnd) (stackLow : layout.stackTop ≤ deviceEnd) (ram : Ram)
    (programs : ProgramTable) :
    ∃ (boot : Ledger) (books : Books) (memory : Memory),
      World layout ram programs ⟨⟨.ofPage books.kernelRoot⟩, .kernel⟩ (.ofMemory memory) ∧
      Sound boot books memory .vacant ∧ firstProcessPage ≤ memory.ledger.freePages + 2 := by
  obtain ⟨boot, books, memory, divided, built, sound, half⟩ :=
    Kernel.exists_buildKernel stackRoom imageLow stackLow ram
  exact ⟨boot, books, memory, .fresh divided built, sound, half⟩

section

variable {boot bare : Ledger} {books : Books} {memory : Memory} {tasks : ProcessTable}
  {slot : Fin slotCount}

theorem SoundApart.exists_init (apart : SoundApart boot books bare memory tasks)
    (vacant : tasks.vacantSlot (.ofIndex slot) = .ok slot) (programs : ProgramTable)
    (console : Console) :
    ∃ after, (ProcessCall.init (.ofIndex slot)).perform ⟨⟨.ofPage books.kernelRoot⟩, .kernel⟩
        programs ⟨memory, tasks, console⟩ = .ok () after ∧
      SoundApart boot books bare after.memory after.tasks ∧
      after.tasks = tasks.attachKernel slot ∧
      after.memory.ledger.freePages = memory.ledger.freePages := by
  have ran : Resources.initProcess _ _ ⟨memory, tasks, console⟩ = .ok () _ :=
    Resources.initProcess_eq_ok apart.kernelRoot_taken apart.kernelRoot_room vacant .kernel
  exact ⟨_, mapCause_eq_ok_iff.mpr ran, apart.attachKernel vacant, rfl,
    Ledger.freePages_charge_single_of_taken apart.kernelRoot_taken⟩

theorem SoundApart.exists_setup (apart : SoundApart boot books bare memory tasks)
    (vacant : tasks.vacantSlot (.ofIndex slot) = .ok slot) {program : Nat} {image : ProgramImage}
    (isImage : programs.image? program = some image) (valid : image.validate = .ok ())
    (room : 3 + image.footprint.card ≤ memory.ledger.freePages) (console : Console) :
    ∃ after view space,
      (ProcessCall.setup (.ofIndex slot) program).perform
        ⟨⟨.ofPage books.kernelRoot⟩, .kernel⟩ programs ⟨memory, tasks, console⟩ = .ok () after ∧
      SoundApart boot (books.setSpace slot view)
        (bare.charge (.process (.ofIndex slot)) view.refs) after.memory after.tasks ∧
      after.tasks = tasks.put slot (Resources.started image space) ∧
      view.mapped.card ≤ 1 + image.footprint.card ∧
      memory.ledger.freePages ≤ after.memory.ledger.freePages + (2 + view.mapped.card) := by
  rcases (Resources.ensures_setup_of_vacant apart.tidy apart.sound.kernelStands
      apart.kernelRoot_taken apart.kernelTable_taken apart.kernelRoot_room vacant programs
      program).cases with ⟨_, after, ran, other, view, next, isSetUp⟩ | ⟨_, _, _, tooMuch, -⟩
  · obtain rfl : image = other := Option.some.inj (isImage.symm.trans isSetUp.image_eq)
    refine ⟨after, view, _, mapCause_eq_ok_iff.mpr ran, apart.setUp vacant isSetUp,
      isSetUp.tasks_eq, ?_, ?_⟩
    · have few := Finset.card_le_card isSetUp.painted.mapped_subset
      have places := Finset.card_insert_le stackPlace image.footprint
      omega
    · rw [isSetUp.memory_eq]
      exact SpaceView.freePages_le _ _ view
  · have short := tooMuch image isImage valid
    omega

end

/-! ## Small worlds -/

/-- The first slots that can hold a process. -/
private def firstSlot : Fin slotCount :=
  ⟨1, by decide⟩

private def secondSlot : Fin slotCount :=
  ⟨2, by decide⟩

private def thirdSlot : Fin slotCount :=
  ⟨3, by decide⟩

private theorem exists_small : ∃ (boot : Ledger) (books : Books) (memory : Memory),
    World {} .blank ⟨[Run.onePage]⟩ ⟨⟨.ofPage books.kernelRoot⟩, .kernel⟩ (.ofMemory memory) ∧
    Sound boot books memory .vacant ∧
    3 + Run.onePage.footprint.card ≤ memory.ledger.freePages ∧ 8 ≤ memory.ledger.freePages := by
  have small : Run.onePage.footprint.card ≤ 1 := Run.onePage.card_footprint_le
  obtain ⟨boot, books, memory, fresh, sound, half⟩ := World.exists_fresh
    (show pageSize ≤ ({} : Layout).stackTop by decide) (by decide) (by decide) .blank
    ⟨[Run.onePage]⟩
  simp only [firstProcessPage] at half
  exact ⟨boot, books, memory, fresh, sound, by omega, by omega⟩

private theorem vacantSlot_vacant {slot : Fin slotCount}
    (notReserved : slot ≠ ProcessTable.reservedSlot) :
    ProcessTable.vacant.vacantSlot (.ofIndex slot) = .ok slot :=
  Kernel.vacantSlot_of_vacant notReserved (Kernel.process_vacant slot)

/-- With a process in the first slot and the third slot attached, forks leak nothing. -/
theorem forks_leak_nothing_beside_attached : ∃ (kernel : AddressSpace) (resources : Resources),
    World {} .blank ⟨[Run.onePage]⟩ kernel resources ∧
    (resources.tasks.process thirdSlot).space = some .kernel ∧
    (∀ caller, (ProcessCall.fork caller).Clear resources.tasks) ∧
    LeaksNothing ⟨[Run.onePage]⟩ kernel resources := by
  obtain ⟨boot, books, memory, fresh, sound, room, -⟩ := exists_small
  obtain ⟨⟨next, tasks, later⟩, view, space, created, apart, rfl, -⟩ :=
    (SoundApart.of_sound sound).exists_setup (vacantSlot_vacant (by decide : firstSlot ≠ _))
      (show (⟨[Run.onePage]⟩ : ProgramTable).image? 0 = some Run.onePage from rfl) rfl room {}
  obtain ⟨after, inited, -, sameTasks, -⟩ :=
    apart.exists_init (show ProcessTable.vacantSlot _ (.ofIndex thirdSlot) = .ok thirdSlot by
      refine Kernel.vacantSlot_of_vacant (by decide) ?_
      rw [ProcessTable.process_put_of_ne (by decide)]
      exact Kernel.process_vacant thirdSlot) ⟨[Run.onePage]⟩ later
  have world := (fresh.done (by exact trivial) created).done (by exact trivial) inited
  refine ⟨_, after, world, ?_, fun caller free first => ?_, refused_forks_leak_nothing world⟩
  · rw [sameTasks]
    rfl
  · obtain rfl : free = secondSlot := by
      rw [sameTasks] at first
      exact ProcessTable.ofIndex_injective (Option.some.inj first).symm
    rw [sameTasks]
    rfl

/-- A process of one page runs in the first slot, and meanwhile the second slot was attached. -/
theorem exists_attached :
    ∃ (boot bare : Ledger) (books : Books) (view : SpaceView) (start attached running : Resources),
      World {} .blank ⟨[Run.onePage]⟩ ⟨⟨.ofPage books.kernelRoot⟩, .kernel⟩ start ∧
      (ProcessCall.init (.ofIndex secondSlot)).perform ⟨⟨.ofPage books.kernelRoot⟩, .kernel⟩
        ⟨[Run.onePage]⟩ start = .ok () attached ∧
      (ProcessCall.setup (.ofIndex firstSlot) 0).perform ⟨⟨.ofPage books.kernelRoot⟩, .kernel⟩
        ⟨[Run.onePage]⟩ attached = .ok () running ∧
      SoundApart boot books bare running.memory running.tasks ∧
      books.space firstSlot = some view ∧ 2 + view.mapped.card ≤ running.memory.ledger.freePages ∧
      running.tasks.firstFree? = some (.ofIndex secondSlot) ∧
      (running.tasks.process secondSlot).space = some .kernel := by
  obtain ⟨boot, books, memory, fresh, sound, room, plenty⟩ := exists_small
  have small : Run.onePage.footprint.card ≤ 1 := Run.onePage.card_footprint_le
  obtain ⟨⟨next, tasks, console⟩, inited, apart, rfl, kept⟩ :=
    (SoundApart.of_sound sound).exists_init (vacantSlot_vacant (by decide : secondSlot ≠ _))
      ⟨[Run.onePage]⟩ {}
  have stillVacant : (ProcessTable.vacant.attachKernel secondSlot).vacantSlot (.ofIndex firstSlot) =
      .ok firstSlot := by
    refine Kernel.vacantSlot_of_vacant (by decide) ?_
    rw [ProcessTable.attachKernel, ProcessTable.process_put_of_ne (by decide)]
    exact Kernel.process_vacant firstSlot
  obtain ⟨running, view, space, created, stillApart, sameTasks, few, used⟩ :=
    apart.exists_setup stillVacant
      (show (⟨[Run.onePage]⟩ : ProgramTable).image? 0 = some Run.onePage from rfl) rfl
      (kept ▸ room) console
  refine ⟨boot, _, books.setSpace firstSlot view, view, _, _, running, fresh, inited, created,
    stillApart, Books.space_setSpace_self, ?_, ?_, ?_⟩
  · dsimp only at kept used
    omega
  · rw [sameTasks]
    rfl
  · rw [sameTasks]
    rfl

/-- A slot is attached before the first process is created.  That process forks, and the child is
built for the attached slot, is turned away there, and is lost. -/
theorem fork_strands_child :
    ∃ (kernel : AddressSpace) (start attached running after : Resources),
      World {} .blank ⟨[Run.onePage]⟩ kernel start ∧
      (ProcessCall.init (.ofIndex 2)).perform kernel ⟨[Run.onePage]⟩ start = .ok () attached ∧
      (ProcessCall.setup (.ofIndex 1) 0).perform kernel ⟨[Run.onePage]⟩ attached =
        .ok () running ∧
      Syscall.performFork kernel (.ofIndex 1) running =
        .error (.refused (.spawn (.slotInUse (.ofIndex 2)))) after ∧
      after.memory.ledger ≠ running.memory.ledger ∧
      Consistency.check after.memory kernel after.tasks ≠ .ok () := by
  obtain ⟨boot, bare, books, view, start, attached, ⟨memory, tasks, console⟩, world, inited,
    created, apart, found, room, first, isAttached⟩ := exists_attached
  have plenty : 2 + view.mapped.card ≤ memory.ledger.freePages := room
  rcases (apart.ensures_fork_of_attached found first (by rw [isAttached]; simp) console).cases with
    ⟨_, _, _, impossible⟩ | ⟨cause, after, ran, -, left⟩
  · exact impossible.elim
  · rcases left with ⟨short, -⟩ | ⟨rfl, changed, inconsistent⟩
    · omega
    · exact ⟨_, start, attached, _, after, world, inited, created, ran, changed, inconsistent⟩

end PagingKernel
