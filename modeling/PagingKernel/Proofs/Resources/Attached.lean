import PagingKernel.Proofs.Resources.Sound

/-!
# Slots attached to the kernel's own space

A process is created in two stages, and between them its slot is free but
attached to the kernel's own space, whose root is referred to once more.  Such
resources are not sound, but they are sound apart from the attached slots: with
the attachments taken away, and their references to the root discharged, they
would be.
-/

namespace PagingKernel

open PageTable PagingKernel.Action

/-! ## Taking attachments away -/

/-- A process without its attachment to the kernel's own space. -/
def Process.detached (process : Process) : Process :=
  if process.space = some .kernel then { process with space := none } else process

namespace Process

variable {process : Process}

@[simp]
theorem state_detached (process : Process) : process.detached.state = process.state := by
  unfold detached
  split <;> rfl

@[simp]
theorem frame_detached (process : Process) : process.detached.frame = process.frame := by
  unfold detached
  split <;> rfl

@[simp]
theorem ownSpace?_detached (process : Process) :
    process.detached.ownSpace? = process.ownSpace? := by
  unfold detached
  split
  · rename_i attached
    rw [ownSpace?, ownSpace?, attached]
  · rfl

theorem space_detached_of_attached (attached : process.space = some .kernel) :
    process.detached.space = none := by
  rw [detached, if_pos attached]

theorem detached_of_not_attached (unattached : process.space ≠ some .kernel) :
    process.detached = process :=
  if_neg unattached

/-- A process without a space is one whose slot may have been attached. -/
theorem space_detached_eq_none_iff :
    process.detached.space = none ↔ process.space = none ∨ process.space = some .kernel := by
  unfold detached
  split
  · rename_i attached
    simp [attached]
  · rename_i unattached
    simp [unattached]

end Process

namespace ProcessTable

variable {tasks : ProcessTable} {slot : Fin slotCount}

/-- A table without attachments to the kernel's own space. -/
def detached (tasks : ProcessTable) : ProcessTable :=
  ⟨tasks.slots.map Process.detached⟩

@[simp]
theorem process_detached (tasks : ProcessTable) (slot : Fin slotCount) :
    tasks.detached.process slot = (tasks.process slot).detached := by
  simp [detached, process]

theorem detached_put (tasks : ProcessTable) (slot : Fin slotCount) (process : Process) :
    (tasks.put slot process).detached = tasks.detached.put slot process.detached := by
  refine ext_process fun other => ?_
  rw [process_detached, process_put, process_put, process_detached]
  split <;> rfl

/-- Attached slots are as free as they were. -/
@[simp]
theorem firstFree?_detached (tasks : ProcessTable) :
    tasks.detached.firstFree? = tasks.firstFree? := by
  simp only [firstFree?, process_detached, Process.state_detached]

theorem kernelSharers_le (tasks : ProcessTable) : tasks.kernelSharers ≤ slotCount :=
  Vector.countP_le_size

/-- Putting a process changes the number of attached slots only if it changes the attachment. -/
theorem kernelSharers_put (tasks : ProcessTable) (slot : Fin slotCount) (process : Process) :
    (tasks.put slot process).kernelSharers +
        (if (tasks.process slot).space = some .kernel then 1 else 0) =
      tasks.kernelSharers + if process.space = some .kernel then 1 else 0 := by
  have counted : (tasks.process slot).space = some .kernel → 0 < tasks.kernelSharers := by
    intro attached
    refine Vector.countP_pos_iff.mpr ⟨tasks.process slot, ?_, by simpa using attached⟩
    exact Vector.getElem_mem slot.isLt
  have exchanged : (tasks.put slot process).kernelSharers =
      (tasks.kernelSharers - if (tasks.process slot).space = some .kernel then 1 else 0) +
        if process.space = some .kernel then 1 else 0 := by
    simp only [kernelSharers, put, Vector.countP_set slot.isLt, decide_eq_true_eq]
    rfl
  rw [exchanged]
  split
  · rename_i attached
    have positive := counted attached
    omega
  · omega

end ProcessTable

/-! ## Soundness apart from attachments -/

/-- Resources that would be sound without attachments to the kernel's own space: the ledger `bare`
lacks the references that the attached slots hold. -/
structure SoundApart (boot : Ledger) (books : Books) (bare : Ledger) (memory : Memory)
    (tasks : ProcessTable) : Prop where
  sound : Sound boot books ⟨bare, memory.ram⟩ tasks.detached
  ledger_eq : memory.ledger =
    bare.charge .kernel (Pi.single books.kernelRoot tasks.kernelSharers)

namespace SoundApart

variable {boot bare : Ledger} {books : Books} {memory : Memory} {tasks : ProcessTable}
  {slot : Fin slotCount} {view : SpaceView} {page : Fin pageCount}

/-- Without attached slots, resources are sound. -/
theorem of_sound (sound : Sound boot books memory tasks) :
    SoundApart boot books memory.ledger memory tasks := by
  have unattached (slot : Fin slotCount) : (tasks.process slot).space ≠ some .kernel := by
    rw [sound.spaces slot]
    cases books.space slot <;> simp
  have same : tasks.detached = tasks := by
    refine ProcessTable.ext_process fun slot => ?_
    rw [ProcessTable.process_detached, Process.detached_of_not_attached (unattached slot)]
  have none : tasks.kernelSharers = 0 := by
    rw [ProcessTable.kernelSharers, Vector.countP_eq_zero]
    intro process listed
    obtain ⟨number, inside, rfl⟩ := Vector.getElem_of_mem listed
    exact fun attached => unattached ⟨number, inside⟩ (of_decide_eq_true attached)
  refine ⟨?_, ?_⟩
  · rw [same]
    exact sound
  · rw [none, Pi.single_zero, Ledger.charge_zero]

variable (apart : SoundApart boot books bare memory tasks)

include apart

theorem held (page : Fin pageCount)
    (charged : 0 < (Pi.single books.kernelRoot tasks.kernelSharers : Fin pageCount → Nat) page) :
    bare.Taken page := by
  rw [Ledger.eq_of_charged_single charged]
  exact apart.sound.balanced.kernelRoot_taken

/-- The attachments take no page that is not taken anyway. -/
theorem taken_iff (page : Fin pageCount) : memory.ledger.Taken page ↔ bare.Taken page := by
  rw [apart.ledger_eq]
  exact Ledger.taken_charge_of_taken apart.held page

theorem tidy : memory.ledger.Tidy := by
  rw [apart.ledger_eq]
  exact apart.sound.balanced.tidy.charge (by simp) _

theorem nextFree_iff : Memory.NextFree memory.ledger page ↔ Memory.NextFree bare page := by
  have same := Ledger.findFree_congr apart.tidy apart.sound.balanced.tidy apart.taken_iff
  constructor
  · rintro ⟨lowest, untaken⟩
    exact ⟨same ▸ lowest, fun taken => untaken ((apart.taken_iff page).mpr taken)⟩
  · rintro ⟨lowest, untaken⟩
    exact ⟨same ▸ lowest, fun taken => untaken ((apart.taken_iff page).mp taken)⟩

theorem kernelRoot_taken : memory.ledger.Taken books.kernelRoot :=
  (apart.taken_iff _).mpr apart.sound.balanced.kernelRoot_taken

theorem kernelTable_taken : memory.ledger.Taken books.kernelTable :=
  (apart.taken_iff _).mpr apart.sound.balanced.kernelTable_taken

theorem taken_of_refs (found : books.space slot = some view) (referenced : 0 < view.refs page) :
    memory.ledger.Taken page :=
  (apart.taken_iff _).mpr (apart.sound.balanced.taken_of_refs found referenced)

/-- The kernel's root is referred to by its directory and by each attached slot. -/
theorem kernelRootEntry :
    memory.ledger.entry books.kernelRoot = ⟨.kernel, 1 + tasks.kernelSharers⟩ := by
  rw [apart.ledger_eq, Ledger.entry_charge, apart.sound.balanced.kernelRootEntry,
    Pi.single_eq_same]
  rfl

/-- There are too few slots to attach for the references to run out. -/
theorem kernelRoot_room : (memory.ledger.entry books.kernelRoot).refcount < refcountLimit := by
  have few := tasks.kernelSharers_le
  rw [apart.kernelRootEntry]
  simp only [slotCount, refcountLimit] at *
  omega

/-- Every page but the kernel's root has the entry that it would have without attachments. -/
theorem entry_of_ne (notRoot : page ≠ books.kernelRoot) :
    memory.ledger.entry page = bare.entry page := by
  rw [apart.ledger_eq, Ledger.entry_charge, Pi.single_eq_of_ne notRoot, PageInfo.charge_zero]

/-- A slot is free exactly if the books have no space for it. -/
theorem live (slot : Fin slotCount) :
    (tasks.process slot).state = .free ↔ books.space slot = none := by
  rw [← Process.state_detached, ← ProcessTable.process_detached]
  exact apart.sound.live slot

theorem ownSpace (found : books.space slot = some view) :
    (tasks.process slot).ownSpace? = some (view.space (.process (.ofIndex slot))) := by
  rw [← Process.ownSpace?_detached, ← ProcessTable.process_detached]
  exact apart.sound.ownSpace found

/-- Whoever has a space of its own has it by the books. -/
theorem exists_caller {caller : Pid} {space : AddressSpace}
    (own : (tasks.get? caller).bind (·.ownSpace?) = some space) :
    ∃ (slot : Fin slotCount) (view : SpaceView), caller = .ofIndex slot ∧
      books.space slot = some view ∧ space = view.space (.process (.ofIndex slot)) := by
  obtain ⟨process, isProcess, isOwn⟩ := Option.bind_eq_some_iff.mp own
  obtain ⟨slot, named, rfl⟩ := Option.map_eq_some_iff.mp isProcess
  obtain rfl := ProcessTable.slot?_eq_some_iff.mp named
  cases found : books.space slot with
  | none =>
      have bareSpace := apart.sound.spaces slot
      rw [found, ProcessTable.process_detached] at bareSpace
      rw [← Process.ownSpace?_detached, Process.ownSpace?, bareSpace] at isOwn
      cases isOwn
  | some view =>
      rw [apart.ownSpace found] at isOwn
      exact ⟨slot, view, rfl, found, (Option.some.inj isOwn).symm⟩

end SoundApart

end PagingKernel
