import PagingKernel.Proofs.AddressSpace.Rollback
import PagingKernel.Proofs.Run.Isolation

/-!
# Forks from end to end

A process that forks is answered with the identifier of a child exactly if a
slot is free and the free pages suffice for the child's directory, its page
table and a copy of every page that the caller may write.  The child then is the
caller once more, page by page; otherwise nothing is left of the attempt but the
answer.
-/

namespace PagingKernel

open PagingKernel.Action PageTable

/-! ## The call -/

/-- What a fork came to, and its answer. -/
inductive Syscall.ForkAnswered (view : SpaceView) (slot : Fin slotCount)
    (before after : Resources) : UInt32 → Prop
  | child {free : Fin slotCount} {child : SpaceView} {next : Ram}
      (first : before.tasks.firstFree? = some (.ofIndex free))
      (forked : Forked view (before.tasks.process slot) free before after child next) :
      ForkAnswered view slot before after (Pid.ofIndex free).raw
  | refused {next : Ram}
      (reason : before.tasks.firstFree? = none ∨ before.memory.ledger.freePages <
        2 + (copiedPlaces fun place => (view.leaf place).map Leaf.mapping).card)
      (tasks_eq : after.tasks = before.tasks)
      (memory_eq : after.memory = ⟨before.memory.ledger, next⟩)
      (kept : ∀ page, before.memory.ledger.Taken page →
        Ram.SamePage before.memory.ram next page) :
      ForkAnswered view slot before after failedCall

namespace Kernel

variable {boot : Ledger} {books : Books} {kernel : Kernel} {slot : Fin slotCount}
  {view : SpaceView} {frame : TrapFrame}

theorem ensures_forkTrap (coherent : Coherent boot books kernel)
    (found : books.space slot = some view) (current : kernel.scheduler.current = .ofIndex slot)
    (runnable : (kernel.resources.tasks.process slot).state = .runnable)
    (asked : frame.vector = Interrupt.fork) :
    (handleTrap frame).Ensures kernel
      (fun next after => next = .resume (.ofIndex slot) ∧ ∃ machine resources value console,
        Syscall.ForkAnswered view slot (kernel.saved slot frame machine).resources resources
          value ∧
        after = { kernel with machine, resources := answered resources slot value console })
      fun _ _ => False := by
  have inUse : (kernel.resources.tasks.process slot).state ≠ .free := by simp [runnable]
  have isSaved := coherent.saved inUse frame (kernel.machine.loadDirectory kernel.space.root)
  have isCall : SyscallTable.standard.call? frame.vector = some .fork := by
    rw [asked]
    decide
  have performed : (Syscall.fork.perform ⟨⟨.ofPage books.kernelRoot⟩, .kernel⟩ (.ofIndex slot)
      frame.eax).Ensures (kernel.saved slot frame
        (kernel.machine.loadDirectory kernel.space.root)).resources _ _ :=
    Syscall.ensures_performFork isSaved.sound found
  rw [← coherent.space_eq] at performed
  refine (ensures_callTrap coherent current runnable isCall performed).mono ?_ fun _ _ => id
  rintro _ _ ⟨rfl, resources, answer, console, outcome, rfl⟩
  refine ⟨rfl, _, resources, answer, console, ?_, rfl⟩
  rcases outcome with ⟨free, rfl, first, child, next, forked⟩ |
    ⟨rfl, reason, tasks_eq, next, memory_eq, kept⟩
  · exact .child first forked
  · exact .refused reason tasks_eq memory_eq kept

/-! ## What is left alone -/

/-- The directories that were there translate as before, and taken pages hold what they held. -/
structure Intact (before after : Kernel) : Prop where
  space_eq : after.space = before.space
  kernel_mappings : ∀ va, after.space.dir.lookup after.resources.memory.ram va =
    before.space.dir.lookup before.resources.memory.ram va
  mappings : ∀ slot, before.Live slot → ∀ va,
    (after.directory slot).lookup after.resources.memory.ram va =
      (before.directory slot).lookup before.resources.memory.ram va
  bytes : ∀ page, before.resources.memory.ledger.Taken page → ∀ offset < pageSize,
    after.resources.memory.ram.pageByte page offset =
      before.resources.memory.ram.pageByte page offset

/-- Where the caller keeps its space and all others are as they were, nothing but the bytes of
taken pages matters. -/
theorem intact_of_kept (coherent : Coherent boot books kernel) {after : Kernel}
    (space_eq : after.space = kernel.space)
    (attached : (after.resources.tasks.process slot).space =
      (kernel.resources.tasks.process slot).space)
    (others : ∀ other, kernel.Live other → other ≠ slot →
      after.resources.tasks.process other = kernel.resources.tasks.process other)
    (kept : ∀ page, kernel.resources.memory.ledger.Taken page →
      Ram.SamePage kernel.resources.memory.ram after.resources.memory.ram page) :
    Intact kernel after where
  space_eq := space_eq
  kernel_mappings va := by
    have balanced := coherent.sound.balanced
    have spans := coherent.sound.kernelStands
    have still := spans.congr (kept _ balanced.kernelRoot_taken) (kept _ balanced.kernelTable_taken)
    rw [space_eq, coherent.space_eq]
    exact (still.lookup_eq va).trans (spans.lookup_eq va).symm
  mappings other live va := by
    obtain ⟨view, found⟩ := coherent.live_iff.mp live
    have balanced := coherent.sound.balanced
    have stands := coherent.sound.stands other view found
    have still : view.Stands after.resources.memory.ram :=
      stands.congr (kept _ (balanced.taken_of_refs found view.refs_root_pos))
        (kept _ (balanced.taken_of_refs found view.refs_table_pos))
    have keepsSpace : (after.resources.tasks.process other).space =
        (kernel.resources.tasks.process other).space := by
      by_cases isCaller : other = slot
      · rw [isCaller, attached]
      · rw [others other live isCaller]
    rw [directory_congr space_eq keepsSpace, coherent.directory_eq found]
    exact (still.lookup_eq va).trans (stands.lookup_eq va).symm
  bytes page taken offset inside := (kept page taken offset inside).symm

theorem process_caller {machine : Machine} {resources : Resources}
    (same : resources.tasks.process slot =
      (kernel.saved slot frame machine).resources.tasks.process slot) (answer : UInt32)
    (console : Console) :
    (answered resources slot answer console).tasks.process slot =
      { kernel.resources.tasks.process slot with frame := { frame with eax := answer } } := by
  rw [process_answered_self, same, saved, ProcessTable.process_put_self, withAnswer]

theorem process_other {machine : Machine} {resources : Resources} {other : Fin slotCount}
    (apart : other ≠ slot)
    (same : resources.tasks.process other =
      (kernel.saved slot frame machine).resources.tasks.process other) (answer : UInt32)
    (console : Console) :
    (answered resources slot answer console).tasks.process other =
      kernel.resources.tasks.process other := by
  rw [process_answered_of_ne apart, same]
  exact process_saved_of_ne apart frame machine

/-! ## What a fork comes to -/

/-- A slot is free, and so are a directory, a page table and a page for each writable page. -/
def CanFork (kernel : Kernel) (slot : Fin slotCount) : Prop :=
  (∃ free, free ≠ ProcessTable.reservedSlot ∧
    (kernel.resources.tasks.process free).state = .free) ∧
  2 + ((kernel.userSpace slot).writablePlaces kernel.resources.memory).card ≤
    kernel.resources.memory.ledger.freePages

/-- A page that was free holds a copy of another and belongs to a process alone. -/
structure CopiedFor (before after : Kernel) (child : Fin slotCount)
    (original copy : Fin pageCount) : Prop where
  was_free : ¬before.resources.memory.ledger.Taken copy
  entry_eq : after.resources.memory.ledger.entry copy = ⟨.process (.ofIndex child), 1⟩
  bytes : ∀ offset < pageSize, after.resources.memory.ram.pageByte copy offset =
    before.resources.memory.ram.pageByte original offset

/-- At a place of the process range a child has a copy of what its parent may write, and the page
itself where its parent may only read. -/
def InheritsAt (before after : Kernel) (slot child : Fin slotCount)
    (place : Fin processPageCount) : Prop :=
  let inherited := (after.directory child).lookup after.resources.memory.ram
    (.ofPage (placeNumber place))
  match (before.directory slot).lookup before.resources.memory.ram
    (.ofPage (placeNumber place)) with
  | .ok (some mapping) =>
      if mapping.flags.isUserWritable then
        ∃ original copy : Fin pageCount, mapping.pa = .ofPage original ∧
          inherited = .ok (some ⟨.ofPage copy, .userRW⟩) ∧
          CopiedFor before after child original copy
      else if mapping.flags.isUserReadOnly then inherited = .ok (some ⟨mapping.pa, .userRO⟩)
      else inherited = .ok none
  | _ => inherited = .ok none

/-- What a fork did to the ledger: pages were taken for the child, and others shared with it. -/
structure ChargedFor (before after : Kernel) (slot child : Fin slotCount) : Prop where
  new_card : (Finset.univ.filter fun page => ¬before.resources.memory.ledger.Taken page ∧
      after.resources.memory.ledger.Taken page).card =
    2 + ((before.userSpace slot).writablePlaces before.resources.memory).card
  new_entry : ∀ page, ¬before.resources.memory.ledger.Taken page →
    after.resources.memory.ledger.Taken page →
    after.resources.memory.ledger.entry page = ⟨.process (.ofIndex child), 1⟩
  shared_entry : ∀ page,
    ((before.userSpace slot).readOnlyPlaces before.resources.memory page).Nonempty →
    after.resources.memory.ledger.entry page =
      ⟨(before.resources.memory.ledger.entry page).owner,
        (before.resources.memory.ledger.entry page).refcount + 1⟩
  other_entry : ∀ page, (before.resources.memory.ledger.Taken page ∨
      ¬after.resources.memory.ledger.Taken page) →
    (before.userSpace slot).readOnlyPlaces before.resources.memory page = ∅ →
    after.resources.memory.ledger.entry page = before.resources.memory.ledger.entry page

/-- The process of a slot forked a child into the lowest free slot. -/
structure HasForked (slot : Fin slotCount) (frame : TrapFrame) (before after : Kernel)
    (child : Fin slotCount) : Prop where
  not_reserved : child ≠ ProcessTable.reservedSlot
  was_free : (before.resources.tasks.process child).state = .free
  lowest : ∀ lower < child, lower ≠ ProcessTable.reservedSlot →
    (before.resources.tasks.process lower).state ≠ .free
  parent_eq : after.resources.tasks.process slot =
    { before.resources.tasks.process slot with
      frame := { frame with eax := (Pid.ofIndex child).raw } }
  child_runnable : (after.resources.tasks.process child).state = .runnable
  child_frame : (after.resources.tasks.process child).frame = { frame with eax := 0 }
  others : ∀ other, other ≠ slot → other ≠ child →
    after.resources.tasks.process other = before.resources.tasks.process other
  inherits : ∀ place, InheritsAt before after slot child place
  below : ∀ va : VirtAddr, va.raw < processStart →
    Directory.entry? (after.directory child) after.resources.memory.ram va =
      Directory.entry? after.space.dir after.resources.memory.ram va
  charged : ChargedFor before after slot child
  intact : Intact before after

/-- A fork of the process of a slot was refused and left nothing behind. -/
structure NotForked (slot : Fin slotCount) (frame : TrapFrame) (before after : Kernel) : Prop where
  parent_eq : after.resources.tasks.process slot =
    { before.resources.tasks.process slot with
      frame := { frame with eax := Syscall.failedCall } }
  others : ∀ other, other ≠ slot →
    after.resources.tasks.process other = before.resources.tasks.process other
  entries : ∀ page, after.resources.memory.ledger.entry page =
    before.resources.memory.ledger.entry page
  intact : Intact before after

/-! ## A fork that is granted -/

/-- The space of a process gives copies and shares pages as its view says. -/
theorem places_eq (coherent : Coherent boot books kernel) (found : books.space slot = some view) :
    (kernel.userSpace slot).writablePlaces kernel.resources.memory =
        copiedPlaces (fun place => (view.leaf place).map Leaf.mapping) ∧
      ∀ page, (kernel.userSpace slot).readOnlyPlaces kernel.resources.memory page =
        sharedPlaces (fun place => (view.leaf place).map Leaf.mapping) page := by
  have stands := coherent.sound.stands slot view found
  rw [coherent.userSpace_eq found]
  exact ⟨AddressSpace.writablePlaces_eq (AddressSpace.lookup_of_stands stands),
    AddressSpace.readOnlyPlaces_eq (AddressSpace.lookup_of_stands stands)⟩

theorem backed_of_coherent (coherent : Coherent boot books kernel)
    (found : books.space slot = some view) :
    ∀ place, ∀ mapping ∈ (view.leaf place).map Leaf.mapping, ∃ page : Fin pageCount,
      mapping.pa = .ofPage page ∧ kernel.resources.memory.ledger.Taken page := by
  intro place mapping isLeaf
  obtain ⟨leaf, mapped, rfl⟩ := Option.map_eq_some_iff.mp isLeaf
  exact ⟨leaf.page, rfl,
    coherent.sound.balanced.taken_of_refs found (SpaceView.refs_leaf_pos mapped)⟩

section Granted

variable {child : SpaceView} {free : Fin slotCount} {after : Kernel} {next : Ram}
  (coherent : Coherent boot books kernel) (found : books.space slot = some view)
  (inherited : InheritedBelow kernelWord kernel.resources.memory.ledger
    kernel.resources.memory.ram (fun place => (view.leaf place).map Leaf.mapping)
    processPageCount child next)

include coherent found inherited

/-- A page that the parent may only read is taken, and the child refers to it once. -/
theorem refs_of_shared {page : Fin pageCount}
    (shared : (sharedPlaces (fun place => (view.leaf place).map Leaf.mapping) page).Nonempty) :
    kernel.resources.memory.ledger.Taken page ∧ child.refs page = 1 := by
  have positive := Finset.card_pos.mpr shared
  obtain ⟨place, member⟩ := shared
  obtain ⟨mapping, isLeaf, -, -, atPage⟩ := (Finset.mem_filter.mp member).2
  obtain ⟨other, alsoAtPage, taken⟩ := backed_of_coherent coherent found place mapping isLeaf
  rw [atPage, PhysAddr.ofPage_inj] at alsoAtPage
  subst alsoAtPage
  have once := inherited.single (coherent.sound.balanced.single slot view found) page
  have count := inherited.refs_of_taken taken
  exact ⟨taken, by omega⟩

/-- The ledger is charged with the pages of the child, and with those that it shares. -/
theorem chargedFor (memory_eq : after.resources.memory =
      ⟨kernel.resources.memory.ledger.charge (.process (.ofIndex free)) child.refs, next⟩) :
    ChargedFor kernel after slot free := by
  obtain ⟨writable, readOnly⟩ := places_eq coherent found
  rcases after with ⟨machine, ⟨_, tasks, console⟩, programs, space, scheduler, syscalls⟩
  obtain rfl := memory_eq
  refine ⟨?new_card, ?new_entry, ?shared_entry, ?other_entry⟩
  case new_card =>
    have used := Ledger.freePages_charge kernel.resources.memory.ledger
      (.process (.ofIndex free)) child.refs
    have counted := inherited.freePages_eq (backed_of_coherent coherent found)
      (.process (.ofIndex free))
    rw [writable, Finset.filter_congr fun page _ => Ledger.new_charge_iff]
    omega
  case new_entry =>
    intro page untaken taken
    have positive := (Ledger.new_charge_iff.mp ⟨untaken, taken⟩).2
    have once := inherited.single (coherent.sound.balanced.single slot view found) page
    exact Ledger.entry_charge_of_untaken untaken _ (by omega)
  case shared_entry =>
    intro page shared
    rw [readOnly] at shared
    obtain ⟨taken, one⟩ := refs_of_shared coherent found inherited shared
    have referenced : (kernel.resources.memory.ledger.entry page).refcount ≠ 0 := taken
    dsimp only
    rw [Ledger.entry_charge, one]
    simp [PageInfo.charge, referenced]
  case other_entry =>
    intro page taken_or nowhere
    rw [readOnly] at nowhere
    have unreferenced : child.refs page = 0 := by
      by_cases taken : kernel.resources.memory.ledger.Taken page
      · rw [inherited.refs_of_taken taken, nowhere, Finset.card_empty]
      · have untaken := taken_or.resolve_left taken
        dsimp only at untaken
        rw [Ledger.taken_charge_iff, not_or] at untaken
        omega
    dsimp only
    rw [Ledger.entry_charge, unreferenced, PageInfo.charge_zero]

theorem inheritsAt (memory_eq : after.resources.memory =
      ⟨kernel.resources.memory.ledger.charge (.process (.ofIndex free)) child.refs, next⟩)
    (directory_eq : after.directory free = ⟨.ofPage child.root⟩) (place : Fin processPageCount) :
    InheritsAt kernel after slot free place := by
  have seen : (kernel.directory slot).lookup kernel.resources.memory.ram
      (.ofPage (placeNumber place)) = .ok ((view.leaf place).map Leaf.mapping) := by
    rw [coherent.directory_eq found]
    exact (coherent.sound.stands slot view found).lookup_placeNumber place
  have seenChild : (after.directory free).lookup after.resources.memory.ram
      (.ofPage (placeNumber place)) = .ok ((child.leaf place).map Leaf.mapping) := by
    rw [directory_eq, memory_eq]
    exact inherited.built.stands.lookup_placeNumber place
  have here := inherited.below place place.isLt
  simp only [InheritsAt, seen, seenChild]
  cases mapped : view.leaf place with
  | none =>
      rw [mapped] at here
      rw [show child.leaf place = none from here]
      rfl
  | some leaf =>
      rw [mapped, Option.map_some] at here
      unfold Inherited at here
      dsimp only [Option.map_some] at here ⊢
      split at here
      · rename_i writable
        obtain ⟨original, copy, atOriginal, atCopy, bytes⟩ := here
        have untaken := inherited.built.openedNew place _ atCopy rfl
        have once := inherited.built.single copy untaken
        have positive := SpaceView.refs_leaf_pos atCopy
        rw [if_pos writable, atCopy]
        refine ⟨original, copy, atOriginal, rfl, untaken, ?_, ?_⟩
        · rw [memory_eq]
          exact Ledger.entry_charge_of_untaken untaken _ (Nat.le_antisymm once positive)
        · rw [memory_eq]
          exact bytes
      · rename_i notWritable
        rw [if_neg notWritable]
        split at here
        · rename_i readOnly
          obtain ⟨page, atPage, mappedChild⟩ := here
          rw [if_pos readOnly, mappedChild, atPage]
          rfl
        · rename_i notReadOnly
          rw [if_neg notReadOnly, here]
          rfl

end Granted

theorem hasForked (coherent : Coherent boot books kernel) (found : books.space slot = some view)
    {child : SpaceView} {free : Fin slotCount} {machine : Machine} {resources : Resources}
    (console : Console) {next : Ram}
    (inUse : (kernel.resources.tasks.process slot).state ≠ .free)
    (first : (kernel.saved slot frame machine).resources.tasks.firstFree? =
      some (.ofIndex free))
    (forked : Syscall.Forked view ((kernel.saved slot frame machine).resources.tasks.process slot)
      free (kernel.saved slot frame machine).resources resources child next) :
    HasForked slot frame kernel
      { kernel with
        machine, resources := answered resources slot (Pid.ofIndex free).raw console } free := by
  obtain ⟨inherited, memory_eq, tasks_eq⟩ := forked
  have stays : { kernel.resources.tasks.process slot with frame }.state ≠ .free := inUse
  have firstBefore : kernel.resources.tasks.firstFree? = some (.ofIndex free) :=
    (ProcessTable.firstFree?_put inUse stays).symm.trans first
  obtain ⟨same, isSame, notReserved, isFree⟩ := ProcessTable.firstFree?_eq_some firstBefore
  obtain rfl := ProcessTable.ofIndex_injective isSame
  have apart : free ≠ slot := by
    rintro rfl
    exact inUse isFree
  let after : Kernel := { kernel with
    machine, resources := answered resources slot (Pid.ofIndex free).raw console }
  have atChild : after.resources.tasks.process free = ⟨.runnable, { frame with eax := 0 },
      some (.own (child.space (.process (.ofIndex free))))⟩ := by
    dsimp only [after]
    rw [process_answered_of_ne apart, tasks_eq, ProcessTable.process_put_self, saved,
      ProcessTable.process_put_self]
  have untouched {other : Fin slotCount} (notChild : other ≠ free) :
      resources.tasks.process other =
        (kernel.saved slot frame machine).resources.tasks.process other := by
    rw [tasks_eq, ProcessTable.process_put_of_ne notChild]
  have atParent := process_caller (untouched apart.symm) (Pid.ofIndex free).raw console
  have atOther (other : Fin slotCount) (notParent : other ≠ slot) (notChild : other ≠ free) :
      after.resources.tasks.process other = kernel.resources.tasks.process other :=
    process_other notParent (untouched notChild) _ console
  have directory_eq : after.directory free = ⟨.ofPage child.root⟩ := by
    rw [directory, userSpace, atChild]
    rfl
  have spans := coherent.sound.kernelStands.congr
    (inherited.built.kept _ coherent.sound.balanced.kernelRoot_taken)
    (inherited.built.kept _ coherent.sound.balanced.kernelTable_taken)
  have memory_after : after.resources.memory =
    ⟨kernel.resources.memory.ledger.charge (.process (.ofIndex free)) child.refs, next⟩ := memory_eq
  exact {
    not_reserved := notReserved
    was_free := isFree
    lowest := fun lower below notReserved =>
      ProcessTable.firstFree?_lowest firstBefore below notReserved
    parent_eq := atParent
    child_runnable := by rw [atChild]
    child_frame := by rw [atChild]
    others := atOther
    inherits := inheritsAt coherent found inherited memory_after directory_eq
    below := by
      intro va below
      rw [directory_eq, memory_after, show after.space = kernel.space from rfl, coherent.space_eq]
      exact SpaceView.Stands.entry?_of_lt inherited.built.stands spans below
    charged := chargedFor coherent found inherited memory_after
    intact := by
      refine intact_of_kept coherent rfl (by rw [atParent]) ?_ fun page taken => ?_
      · intro other live notParent
        have notChild : other ≠ free := by
          rintro rfl
          exact live isFree
        exact atOther other notParent notChild
      · rw [memory_after]
        exact inherited.built.kept page taken }

theorem notForked (coherent : Coherent boot books kernel) {machine : Machine}
    {resources : Resources} {console : Console} {next : Ram}
    (tasks_eq : resources.tasks = (kernel.saved slot frame machine).resources.tasks)
    (memory_eq : resources.memory = ⟨kernel.resources.memory.ledger, next⟩)
    (kept : ∀ page, kernel.resources.memory.ledger.Taken page →
      Ram.SamePage kernel.resources.memory.ram next page) :
    NotForked slot frame kernel
      { kernel with
        machine, resources := answered resources slot Syscall.failedCall console } := by
  have untouched (other : Fin slotCount) : resources.tasks.process other =
      (kernel.saved slot frame machine).resources.tasks.process other := by
    rw [tasks_eq]
  have atParent := process_caller (untouched slot) Syscall.failedCall console
  have atOther (other : Fin slotCount) (apart : other ≠ slot) :
      (answered resources slot Syscall.failedCall console).tasks.process other =
        kernel.resources.tasks.process other :=
    process_other apart (untouched other) _ console
  exact {
    parent_eq := atParent
    others := atOther
    entries := fun page => by rw [answered, memory_eq]
    intact := by
      refine intact_of_kept coherent rfl (by rw [atParent]) (fun other _ => atOther other)
        fun page taken => ?_
      rw [answered, memory_eq]
      exact kept page taken }

/-! ## When a fork is granted -/

theorem HasForked.canFork {before after : Kernel} {child : Fin slotCount}
    (forked : HasForked slot frame before after child) : CanFork before slot := by
  refine ⟨⟨child, forked.not_reserved, forked.was_free⟩, ?_⟩
  rw [← forked.charged.new_card, Ledger.freePages_eq_card]
  exact Finset.card_le_card fun page member =>
    Finset.mem_filter.mpr ⟨Finset.mem_univ page, (Finset.mem_filter.mp member).2.1⟩

/-- A fork is answered with a child exactly if there may be one. -/
structure Forks (slot : Fin slotCount) (frame : TrapFrame) (before after : Kernel) : Prop where
  forked_iff : (∃ child, HasForked slot frame before after child) ↔ CanFork before slot
  notForked : ¬CanFork before slot → NotForked slot frame before after

/-- A trap that forks is handled as a fork, and the caller goes on. -/
theorem exists_forks (coherent : Coherent boot books kernel)
    (current : kernel.scheduler.current = .ofIndex slot)
    (runnable : (kernel.resources.tasks.process slot).state = .runnable)
    (asked : frame.vector = Interrupt.fork) :
    ∃ after, handleTrap frame kernel = .ok (.resume (.ofIndex slot)) after ∧
      Forks slot frame kernel after := by
  have inUse : (kernel.resources.tasks.process slot).state ≠ .free := by simp [runnable]
  obtain ⟨view, found⟩ := coherent.sound.exists_space inUse
  rcases (ensures_forkTrap coherent found current runnable asked).cases with
    ⟨_, _, ran, rfl, machine, resources, value, console, answered, rfl⟩ | ⟨_, _, -, impossible⟩
  · refine ⟨_, ran, ?_⟩
    cases answered with
    | child first forked =>
        have done := hasForked coherent found console inUse first forked
        exact ⟨⟨fun _ => done.canFork, fun _ => ⟨_, done⟩⟩, fun cannot =>
          absurd done.canFork cannot⟩
    | @refused next reason tasks_eq memory_eq kept =>
        have cannot : ¬CanFork kernel slot := by
          rintro ⟨⟨free, notReserved, isFree⟩, enough⟩
          rcases reason with full | short
          · have apart : free ≠ slot := by
              rintro rfl
              exact inUse isFree
            refine ProcessTable.firstFree?_eq_none_iff.mp full free notReserved ?_
            rw [process_saved_of_ne apart]
            exact isFree
          · rw [(places_eq coherent found).1] at enough
            exact absurd enough (Nat.not_le.mpr short)
        exact ⟨⟨fun ⟨_, done⟩ => done.canFork, fun can => absurd can cannot⟩,
          fun _ => notForked coherent tasks_eq memory_eq kept⟩
  · exact impossible.elim

end Kernel

/-- Whoever runs, a fork is answered with a child exactly if there may be one. -/
theorem Run.forks_are_exact {setting : Run.Setting} {state : Run.State}
    (reached : Run.Reached setting state) {slot : Fin slotCount}
    (current : state.kernel.scheduler.current = .ofIndex slot)
    (runnable : (state.kernel.resources.tasks.process slot).state = .runnable)
    {frame : TrapFrame} (asked : frame.vector = Interrupt.fork) (faultAddress : Nat) :
    ∃ after, Kernel.handleTrap frame
        { state.kernel with machine := { state.kernel.machine with faultAddress } } =
          .ok (.resume (.ofIndex slot)) after ∧
      Kernel.Forks slot frame
        { state.kernel with machine := { state.kernel.machine with faultAddress } } after := by
  obtain ⟨boot, books, -, regular⟩ := Run.regular_of_reached reached
  exact Kernel.exists_forks (regular.coherent.withMachine _) current runnable asked

/-- The first process of a run from blank memory forks. -/
theorem Run.small_fork_is_exact :
    ∃ (kernel : Kernel) (slot : Fin slotCount),
      Run.Reached .small ⟨kernel, .user (.ofIndex slot)⟩ ∧
      kernel.scheduler.current = .ofIndex slot ∧
      (kernel.resources.tasks.process slot).state = .runnable ∧
      Run.forkFrame.vector = Interrupt.fork ∧
      ∃ after, Kernel.handleTrap Run.forkFrame
          { kernel with machine := { kernel.machine with faultAddress := 0 } } =
            .ok (.resume (.ofIndex slot)) after ∧
        Kernel.Forks slot Run.forkFrame
          { kernel with machine := { kernel.machine with faultAddress := 0 } } after := by
  obtain ⟨kernel, slot, reached, runnable⟩ := Run.Setting.suitable_small.exists_running
  obtain ⟨boot, books, -, regular⟩ := Run.regular_of_reached reached
  have current : kernel.scheduler.current = .ofIndex slot := regular.phase.2
  exact ⟨kernel, slot, reached, current, runnable, rfl,
    Run.forks_are_exact reached current runnable rfl 0⟩

end PagingKernel
