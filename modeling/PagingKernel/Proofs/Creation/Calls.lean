import PagingKernel.Proofs.Consistency.Check
import PagingKernel.Proofs.Process.Setup
import PagingKernel.Proofs.Syscall.Calls

/-!
# Calls around attached slots

Processes can be created one stage at a time, so that attached slots are met by
other calls.  Every call keeps the resources sound apart from attached slots,
but for one: a fork into an attached slot is refused when the child's space is
built already, and nobody gives its pages back.
-/

namespace PagingKernel

open PageTable PagingKernel.Action

namespace SoundApart

variable {boot bare : Ledger} {books : Books} {memory : Memory} {tasks : ProcessTable}
  {slot : Fin slotCount} {view : SpaceView} {page : Fin pageCount}

section

variable (apart : SoundApart boot books bare memory tasks)

include apart

/-! ## What the calls do to such resources -/

theorem attachKernel (vacant : tasks.vacantSlot (.ofIndex slot) = .ok slot) :
    SoundApart boot books bare
      ⟨memory.ledger.charge .kernel (Pi.single books.kernelRoot 1), memory.ram⟩
      (tasks.attachKernel slot) where
  sound := by
    obtain ⟨-, -, -, unattached⟩ := ProcessTable.vacantSlot_eq_ok_iff.mp vacant
    refine apart.sound.tasks_congr (fun other => ?_) fun other => ?_
    · rw [ProcessTable.attachKernel, ProcessTable.detached_put, ProcessTable.process_put]
      split
      · rename_i same
        rw [same, ProcessTable.process_detached, Process.space_detached_of_attached rfl, eq_comm,
          Process.space_detached_eq_none_iff]
        exact .inl unattached
      · rfl
    · rw [ProcessTable.attachKernel, ProcessTable.detached_put, ProcessTable.process_put]
      split
      · rename_i same
        rw [same, ProcessTable.process_detached, Process.state_detached, Process.state_detached]
      · rfl
  ledger_eq := by
    obtain ⟨-, -, -, unattached⟩ := ProcessTable.vacantSlot_eq_ok_iff.mp vacant
    have more := tasks.kernelSharers_put slot
      { tasks.process slot with frame := .user, space := some .kernel }
    rw [if_neg (by simp [unattached]), if_pos rfl] at more
    rw [Nat.add_zero] at more
    dsimp only
    rw [ProcessTable.attachKernel, more, apart.ledger_eq, Ledger.charge_charge]
    congr 1
    funext page
    by_cases same : page = books.kernelRoot
    · rw [same, Pi.add_apply, Pi.single_eq_same, Pi.single_eq_same, Pi.single_eq_same]
    · rw [Pi.add_apply, Pi.single_eq_of_ne same, Pi.single_eq_of_ne same,
        Pi.single_eq_of_ne same, Nat.add_zero]

/-- Putting a process with a space of its own, or none, into an unattached slot. -/
theorem put_ledger (unattached : (tasks.process slot).space ≠ some .kernel) {process : Process}
    (still : process.space ≠ some .kernel) (owner : Owner) (count : Fin pageCount → Nat) :
    memory.ledger.charge owner count =
      (bare.charge owner count).charge .kernel
        (Pi.single books.kernelRoot (tasks.put slot process).kernelSharers) := by
  have same := tasks.kernelSharers_put slot process
  rw [if_neg unattached, if_neg still, Nat.add_zero, Nat.add_zero] at same
  rw [same, apart.ledger_eq, Ledger.charge_comm apart.held]

omit apart in
/-- A vacant slot is vacant whatever becomes of the attachments. -/
theorem bare_vacant (vacant : tasks.vacantSlot (.ofIndex slot) = .ok slot) :
    tasks.detached.vacantSlot (.ofIndex slot) = .ok slot := by
  obtain ⟨same, notReserved, free, unattached⟩ := ProcessTable.vacantSlot_eq_ok_iff.mp vacant
  rw [ProcessTable.vacantSlot_eq_ok_iff, ProcessTable.process_detached, Process.state_detached,
    Process.space_detached_eq_none_iff]
  exact ⟨same, notReserved, free, .inl unattached⟩

theorem vacated (vacant : tasks.vacantSlot (.ofIndex slot) = .ok slot) {next : Ram}
    (kept : ∀ page, memory.ledger.Taken page → Ram.SamePage memory.ram next page) :
    SoundApart boot books bare ⟨memory.ledger, next⟩ (tasks.put slot .vacant) where
  sound := by
    rw [ProcessTable.detached_put]
    exact Resources.sound_of_vacated (apart.sound.ram_congr fun page structural =>
      kept page ((apart.taken_iff page).mpr
        (apart.sound.balanced.taken_of_structural structural))) (bare_vacant vacant)
  ledger_eq := by
    obtain ⟨-, -, -, unattached⟩ := ProcessTable.vacantSlot_eq_ok_iff.mp vacant
    have detached : (tasks.process slot).space ≠ some .kernel := by simp [unattached]
    have still : Process.vacant.space ≠ some .kernel := by simp [Process.vacant]
    have same := apart.put_ledger detached still .free 0
    rw [Ledger.charge_zero, Ledger.charge_zero] at same
    exact same

theorem setUp (vacant : tasks.vacantSlot (.ofIndex slot) = .ok slot) {console : Console}
    {program : Nat} {programs : ProgramTable} {after : Resources} {image : ProgramImage}
    {child : SpaceView} {next : Ram}
    (isSetUp : Resources.SetUp program programs slot ⟨memory, tasks, console⟩ after image child
      next) :
    SoundApart boot (books.setSpace slot child)
      (bare.charge (.process (.ofIndex slot)) child.refs) after.memory after.tasks where
  sound := by
    rw [isSetUp.memory_eq, isSetUp.tasks_eq, ProcessTable.detached_put]
    exact Resources.sound_of_placing apart.sound (bare_vacant vacant)
      (isSetUp.painted.toPlacing.base_congr apart.taken_iff) (by simp [Resources.started]) rfl
  ledger_eq := by
    obtain ⟨-, -, -, unattached⟩ := ProcessTable.vacantSlot_eq_ok_iff.mp vacant
    rw [isSetUp.memory_eq, isSetUp.tasks_eq]
    exact apart.put_ledger (by simp [unattached]) (by simp [Resources.started]) _ _

theorem pageAllocated (found : books.space slot = some view) {console : Console}
    {argument : UInt32} {after : Resources} {place : Fin processPageCount}
    (allocated : Syscall.PageAllocated view (.process (.ofIndex slot)) argument
      ⟨memory, tasks, console⟩ after place page) :
    ∃ next, SoundApart boot next (bare.charge (.process (.ofIndex slot)) (Pi.single page 1))
      after.memory after.tasks ∧ next.kernelRoot = books.kernelRoot := by
  have bareAllocated : Syscall.PageAllocated view (.process (.ofIndex slot)) argument
      ⟨⟨bare, memory.ram⟩, tasks.detached, console⟩
      ⟨⟨bare.charge (.process (.ofIndex slot)) (Pi.single page 1), after.memory.ram⟩,
        tasks.detached, console⟩ place page := by
    refine ⟨allocated.requested, allocated.vacant, apart.nextFree_iff.mp allocated.nextFree, ?_,
      rfl⟩
    rw [allocated.memory_eq]
  obtain ⟨next, sound, sameRoot, -⟩ := (bareAllocated.served apart.sound found).sound
  refine ⟨next, ⟨?_, ?_⟩, sameRoot⟩
  · rw [allocated.tasks_eq]
    exact sound
  · rw [allocated.memory_eq, allocated.tasks_eq, sameRoot, apart.ledger_eq,
      Ledger.charge_comm apart.held]

theorem forked (found : books.space slot = some view) {free : Fin slotCount} {console : Console}
    {after : Resources} {child : SpaceView} {next : Ram}
    (first : tasks.firstFree? = some (.ofIndex free))
    (unattached : (tasks.process free).space = none)
    (isForked : Syscall.Forked view (tasks.process slot) free ⟨memory, tasks, console⟩ after child
      next) :
    ∃ next, SoundApart boot next (bare.charge (.process (.ofIndex free)) child.refs)
      after.memory after.tasks ∧ next.kernelRoot = books.kernelRoot := by
  have bareFirst : tasks.detached.firstFree? = some (.ofIndex free) := by
    rw [ProcessTable.firstFree?_detached, first]
  have bareForked : Syscall.Forked view (tasks.detached.process slot) free
      ⟨⟨bare, memory.ram⟩, tasks.detached, console⟩
      ⟨⟨bare.charge (.process (.ofIndex free)) child.refs, next⟩, after.tasks.detached, console⟩
      child next := by
    refine ⟨⟨isForked.inherited.built.base_congr apart.taken_iff, isForked.inherited.below,
      isForked.inherited.above⟩, rfl, ?_⟩
    rw [isForked.tasks_eq, ProcessTable.detached_put, ProcessTable.process_detached,
      Process.frame_detached]
    rfl
  obtain ⟨last, sound, sameRoot, -⟩ := (bareForked.served apart.sound found bareFirst).sound
  refine ⟨last, ⟨?_, ?_⟩, sameRoot⟩
  · rw [isForked.memory_eq]
    exact sound
  · rw [isForked.memory_eq, isForked.tasks_eq, sameRoot]
    exact apart.put_ledger (by simp [unattached]) (by simp) _ _

/-- Changing pages that nothing refers to leaves the resources sound apart from attachments. -/
theorem ram_congr {next : Ram}
    (kept : ∀ page, memory.ledger.Taken page → Ram.SamePage memory.ram next page) :
    SoundApart boot books bare ⟨memory.ledger, next⟩ tasks where
  sound := apart.sound.ram_congr fun page structural =>
    kept page ((apart.taken_iff page).mpr (apart.sound.balanced.taken_of_structural structural))
  ledger_eq := apart.ledger_eq

end

end SoundApart

/-! ## Calls -/

/-- A call that creates a process, or that a process makes. -/
inductive ProcessCall where
  /-- Attaches a slot to the kernel's own space, as the first stage of creating a process. -/
  | init (pid : Pid)
  /-- Creates a process that runs a program. -/
  | setup (pid : Pid) (program : Nat)
  /-- Gives a process a page. -/
  | pageAlloc (caller : Pid) (argument : UInt32)
  /-- Forks a process. -/
  | fork (caller : Pid)

namespace ProcessCall

/-- Makes a call. -/
def perform (kernel : AddressSpace) (programs : ProgramTable) :
    ProcessCall → Action Resources SyscallError Unit
  | init pid => (Resources.initProcess kernel pid).mapCause .spawn
  | setup pid program => (Resources.setup kernel programs pid program).mapCause .spawn
  | pageAlloc caller argument => do let _ ← Syscall.performPageAlloc caller argument
  | fork caller => do let _ ← Syscall.performFork kernel caller

/-- The slot that a fork would fill, if there is one, is not attached to a space. -/
def Clear (tasks : ProcessTable) : ProcessCall → Prop
  | fork _ => ∀ free : Fin slotCount, tasks.firstFree? = some (.ofIndex free) →
      (tasks.process free).space = none
  | _ => True

end ProcessCall

/-- Resources that are sound apart from attached slots, with the kernel's directory where it was. -/
def StillApart (boot : Ledger) (kernelRoot : Fin pageCount) (resources : Resources) : Prop :=
  ∃ books bare, SoundApart boot books bare resources.memory resources.tasks ∧
    books.kernelRoot = kernelRoot

namespace SoundApart

variable {boot bare : Ledger} {books : Books} {memory : Memory} {tasks : ProcessTable}
  {console : Console} {slot : Fin slotCount} {view : SpaceView}

variable (apart : SoundApart boot books bare memory tasks)

include apart

theorem still : StillApart boot books.kernelRoot ⟨memory, tasks, console⟩ :=
  ⟨books, bare, apart, rfl⟩

theorem ensures_initProcess (pid : Pid) :
    (Resources.initProcess ⟨⟨.ofPage books.kernelRoot⟩, .kernel⟩ pid).Ensures
        ⟨memory, tasks, console⟩ (fun _ after => StillApart boot books.kernelRoot after)
      fun _ after => after = ⟨memory, tasks, console⟩ := by
  cases vacant : tasks.vacantSlot pid with
  | error cause =>
      refine (Resources.initProcess_eq_error vacant).mono (fun _ _ impossible => impossible.elim) ?_
      rintro _ _ ⟨-, rfl⟩
      rfl
  | ok slot =>
      obtain ⟨rfl, -⟩ := ProcessTable.vacantSlot_eq_ok_iff.mp vacant
      exact (ensures_of_eq_ok (Resources.initProcess_eq_ok apart.kernelRoot_taken
        apart.kernelRoot_room vacant .kernel)).mpr (apart.attachKernel vacant).still

/-- A setup that is refused leaves the slot as vacant as it was. -/
theorem ensures_setup (programs : ProgramTable) (pid : Pid) (program : Nat) :
    (Resources.setup ⟨⟨.ofPage books.kernelRoot⟩, .kernel⟩ programs pid program).Ensures
        ⟨memory, tasks, console⟩ (fun _ after => StillApart boot books.kernelRoot after)
      fun _ after => StillApart boot books.kernelRoot after ∧
        after.memory.ledger = memory.ledger := by
  cases vacant : tasks.vacantSlot pid with
  | error cause =>
      refine (Resources.ensures_setup_of_occupied vacant programs program).mono
        (fun _ _ impossible => impossible.elim) ?_
      rintro _ _ ⟨-, rfl⟩
      exact ⟨apart.still, rfl⟩
  | ok slot =>
      obtain ⟨rfl, -⟩ := ProcessTable.vacantSlot_eq_ok_iff.mp vacant
      apply (Resources.ensures_setup_of_vacant apart.tidy apart.sound.kernelStands
        apart.kernelRoot_taken apart.kernelTable_taken apart.kernelRoot_room vacant programs
        program).mono
      · rintro _ after ⟨image, child, next, isSetUp⟩
        exact (apart.setUp vacant isSetUp).still
      · rintro _ _ ⟨-, next, later, rfl, kept⟩
        exact ⟨(apart.vacated vacant kept).still, rfl⟩

theorem ensures_pageAlloc (caller : Pid) (argument : UInt32) :
    (Syscall.performPageAlloc caller argument).Ensures ⟨memory, tasks, console⟩
      (fun _ after => StillApart boot books.kernelRoot after)
      fun _ after => after = ⟨memory, tasks, console⟩ := by
  cases own : (tasks.get? caller).bind (·.ownSpace?) with
  | none =>
      exact (Syscall.ensures_pageAlloc_of_none own argument).mono
        (fun _ _ impossible => impossible.elim) fun _ _ held => held
  | some space =>
      obtain ⟨slot, view, rfl, found, rfl⟩ := apart.exists_caller own
      have stands : view.Stands memory.ram := apart.sound.stands slot view found
      refine (Syscall.ensures_pageAlloc_of_stands own stands apart.tidy (by simp)
        (apart.taken_of_refs found view.refs_root_pos)
        (apart.taken_of_refs found view.refs_table_pos) argument).mono ?_ fun _ _ held => held.2
      rintro _ after ⟨-, place, page, allocated⟩
      obtain ⟨next, stillApart, sameRoot⟩ := apart.pageAllocated found allocated
      exact ⟨next, _, stillApart, sameRoot⟩

/-- No page is ever shared too often, so it is for want of free pages that a fork is undone. -/
theorem freePages_lt_of_unaffordable (found : books.space slot = some view)
    (unaffordable : Unaffordable memory.ledger fun place => (view.leaf place).map Leaf.mapping) :
    memory.ledger.freePages < 2 + view.mapped.card := by
  have balanced := apart.sound.balanced
  rcases unaffordable with short | ⟨page, shared, often⟩
  · have fewer := Finset.card_le_card view.copiedPlaces_subset
    omega
  · obtain ⟨notRoot, fits⟩ := balanced.shares_fit found shared
    rw [apart.entry_of_ne notRoot] at often
    exact absurd fits (Nat.not_le.mpr often)

/-- A fork for which a slot is clear leaves no trace if it is refused. -/
theorem ensures_fork {caller : Pid} (clear : (ProcessCall.fork caller).Clear tasks) :
    (Syscall.performFork ⟨⟨.ofPage books.kernelRoot⟩, .kernel⟩ caller).Ensures
        ⟨memory, tasks, console⟩ (fun _ after => StillApart boot books.kernelRoot after)
      fun _ after => StillApart boot books.kernelRoot after ∧
        after.memory.ledger = memory.ledger ∧ after.tasks = tasks := by
  by_cases none : tasks.firstFree? = none ∨ (tasks.get? caller).bind (·.ownSpace?) = none
  · refine (Syscall.ensures_fork_of_none none).mono (fun _ _ impossible => impossible.elim) ?_
    rintro _ _ rfl
    exact ⟨apart.still, rfl, rfl⟩
  · rw [not_or] at none
    obtain ⟨pid, first⟩ := Option.ne_none_iff_exists'.mp none.1
    obtain ⟨space, own⟩ := Option.ne_none_iff_exists'.mp none.2
    obtain ⟨free, rfl, -⟩ := ProcessTable.firstFree?_eq_some first
    obtain ⟨slot, view, rfl, found, rfl⟩ := apart.exists_caller own
    have unattached := clear free first
    have stands : view.Stands memory.ram := apart.sound.stands slot view found
    apply (Syscall.ensures_fork_of_stands apart.tidy apart.sound.kernelStands
      apart.kernelRoot_taken apart.kernelTable_taken (ProcessTable.get?_ofIndex tasks slot)
      (apart.ownSpace found) stands (fun page => apart.taken_of_refs found) first).mono
    · rintro _ after ⟨-, -, child, next, isForked⟩
      obtain ⟨last, stillApart, sameRoot⟩ := apart.forked found first unattached isForked
      exact ⟨last, _, stillApart, sameRoot⟩
    · rintro cause ⟨after, sameTasks, later⟩ ⟨rfl, left⟩
      cases left with
      | undone _ memory_eq kept =>
          obtain rfl := memory_eq
          exact ⟨(apart.ram_congr kept).still, rfl, rfl⟩
      | stranded _ attached _ _ => exact absurd unattached attached

/-- Every clear call keeps the resources sound apart from attached slots. -/
theorem ensures_perform (programs : ProgramTable) {call : ProcessCall} (clear : call.Clear tasks) :
    (call.perform ⟨⟨.ofPage books.kernelRoot⟩, .kernel⟩ programs).Ensures ⟨memory, tasks, console⟩
      (fun _ after => StillApart boot books.kernelRoot after)
      fun _ after => StillApart boot books.kernelRoot after := by
  cases call with
  | init pid =>
      refine ensures_mapCause.mpr ((apart.ensures_initProcess pid).mono (fun _ _ held => held) ?_)
      rintro _ _ rfl
      exact apart.still
  | setup pid program =>
      exact ensures_mapCause.mpr ((apart.ensures_setup programs pid program).mono
        (fun _ _ held => held) fun _ _ held => held.1)
  | pageAlloc caller argument =>
      refine ensures_bind.mpr ((apart.ensures_pageAlloc caller argument).mono
        (fun _ _ held => ensures_pure.mpr held) ?_)
      rintro _ _ rfl
      exact apart.still
  | fork caller =>
      exact ensures_bind.mpr ((apart.ensures_fork clear).mono
        (fun _ _ held => ensures_pure.mpr held) fun _ _ held => held.1)

end SoundApart

end PagingKernel
