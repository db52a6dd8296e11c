import PagingKernel.Kernel.Boot
import PagingKernel.Proofs.AddressSpace.Translation
import PagingKernel.Proofs.Consistency.Check
import PagingKernel.Proofs.Resources.Spared

/-!
# Coherent kernels

The state of a kernel is coherent if its resources are sound, its own space is
the one that the books list, and its system calls are the standard ones.  This
is what every action of the kernel needs and restores.
-/

namespace PagingKernel

open PagingKernel.Action PageTable

namespace Kernel

variable {ε α : Type} {kernel : Kernel} {refused : ε → Kernel → Prop}

/-! ## Actions on parts of the kernel -/

@[simp]
theorem ensures_onResources {action : Action Resources ε α} {done : α → Kernel → Prop} :
    (onResources action).Ensures kernel done refused ↔
      action.Ensures kernel.resources
        (fun value next => done value { kernel with resources := next })
        fun cause next => refused cause { kernel with resources := next } := by
  rcases kernel with ⟨machine, resources, programs, space, scheduler, syscalls⟩
  unfold Ensures onResources
  dsimp only
  cases action resources with
  | ok value next => rfl
  | error failure next => cases failure <;> rfl

@[simp]
theorem ensures_modifyMachine {change : Machine → Machine} {done : Unit → Kernel → Prop} :
    (modifyMachine change : Action Kernel ε Unit).Ensures kernel done refused ↔
      done () { kernel with machine := change kernel.machine } := by
  unfold Ensures modifyMachine
  rfl

@[simp]
theorem ensures_modifyScheduler {change : Scheduler → Scheduler} {done : Unit → Kernel → Prop} :
    (modifyScheduler change : Action Kernel ε Unit).Ensures kernel done refused ↔
      done () { kernel with scheduler := change kernel.scheduler } := by
  unfold Ensures modifyScheduler
  rfl

/-! ## The invariant -/

/-- The space in which the process of a slot runs. -/
def userSpace (kernel : Kernel) (slot : Fin slotCount) : AddressSpace :=
  (kernel.resources.tasks.process slot).ownSpace?.getD kernel.space

/-- The directory that translates addresses while the process of a slot runs. -/
def directory (kernel : Kernel) (slot : Fin slotCount) : Directory :=
  (kernel.userSpace slot).dir

/-- A process that keeps its space keeps its directory. -/
theorem directory_congr {after : Kernel} {slot : Fin slotCount}
    (space_eq : after.space = kernel.space)
    (attached : (after.resources.tasks.process slot).space =
      (kernel.resources.tasks.process slot).space) :
    after.directory slot = kernel.directory slot := by
  rw [directory, directory, userSpace, userSpace, Process.ownSpace?, Process.ownSpace?, attached,
    space_eq]

/-- The kernel and the books agree. -/
structure Coherent (boot : Ledger) (books : Books) (kernel : Kernel) : Prop where
  sound : Sound boot books kernel.resources.memory kernel.resources.tasks
  space_eq : kernel.space = ⟨⟨.ofPage books.kernelRoot⟩, .kernel⟩
  syscalls_eq : kernel.syscalls = .standard

namespace Coherent

variable {boot : Ledger} {books : Books} {slot : Fin slotCount} {view : SpaceView}

/-- The consistency check finds nothing wrong with a coherent kernel. -/
theorem check_eq_ok (coherent : Coherent boot books kernel) : kernel.check = .ok () := by
  rw [check, coherent.space_eq]
  exact Consistency.check_eq_ok coherent.sound

theorem userSpace_eq (coherent : Coherent boot books kernel)
    (found : books.space slot = some view) :
    kernel.userSpace slot = view.space (.process (.ofIndex slot)) := by
  rw [userSpace, coherent.sound.ownSpace found]
  rfl

theorem directory_eq (coherent : Coherent boot books kernel)
    (found : books.space slot = some view) : kernel.directory slot = ⟨.ofPage view.root⟩ := by
  rw [directory, coherent.userSpace_eq found]
  rfl

/-- The directory of a process translates every address as its space says. -/
theorem lookup_directory (coherent : Coherent boot books kernel)
    (found : books.space slot = some view) (va : VirtAddr) :
    (kernel.directory slot).lookup kernel.resources.memory.ram va =
      .ok (translation view.word va) := by
  rw [coherent.directory_eq found]
  exact Ram.Spans.lookup_eq (coherent.sound.stands slot view found) va

/-- What is open to user code is the console or a leaf of the space of its process. -/
theorem user_cases (coherent : Coherent boot books kernel) (found : books.space slot = some view)
    {address : UInt32} {mapping : Mapping}
    (maps : (kernel.directory slot).lookup kernel.resources.memory.ram ⟨address.toNat⟩ =
      .ok (some mapping)) (user : mapping.flags.user = true) :
    ((⟨address.toNat⟩ : VirtAddr).pageBase = ⟨consoleAddress⟩ ∧
        mapping = ⟨.ofPage consolePage, Layout.kernelMappingFlags (.ofPage consolePage)⟩) ∨
      processStart ≤ address.toNat ∧ address.toNat < virtualSize ∧
        ∃ place leaf, view.leaf place = some leaf ∧ mapping = leaf.mapping := by
  have inside : (⟨address.toNat⟩ : VirtAddr).raw < addressLimit := address.toNat_lt
  rw [coherent.lookup_directory found] at maps
  exact SpaceView.user_cases inside (Except.ok.inj maps) user

/-- Other registers of the machine and another choice of who runs do not matter. -/
theorem of_resources (coherent : Coherent boot books kernel) {next : Kernel}
    (resources : next.resources = kernel.resources) (space : next.space = kernel.space)
    (syscalls : next.syscalls = kernel.syscalls) : Coherent boot books next where
  sound := by
    rw [resources]
    exact coherent.sound
  space_eq := space.trans coherent.space_eq
  syscalls_eq := syscalls.trans coherent.syscalls_eq

theorem withMachine (coherent : Coherent boot books kernel) (machine : Machine) :
    Coherent boot books { kernel with machine } :=
  coherent.of_resources rfl rfl rfl

/-- A process in use may be changed as long as it stays in use and keeps its space. -/
theorem put (coherent : Coherent boot books kernel) (process : Process)
    (inUse : (kernel.resources.tasks.process slot).state ≠ .free) (stays : process.state ≠ .free)
    (kept : process.space = (kernel.resources.tasks.process slot).space) (console : Console) :
    Coherent boot books { kernel with resources :=
      ⟨kernel.resources.memory, kernel.resources.tasks.put slot process, console⟩ } where
  sound := coherent.sound.put process inUse stays kept
  space_eq := coherent.space_eq
  syscalls_eq := coherent.syscalls_eq

end Coherent

end Kernel

end PagingKernel
