import PagingKernel.Proofs.Run.Forking

/-!
# Allocations of a page from end to end

A process that asks for a page is answered 0 exactly if it names the base of a
page of the process range that it does not map, and a page is free.  The lowest
free page is then cleared and mapped there, and nothing else changes but one
word of the caller's page table; otherwise nothing changes at all but the answer.
-/

namespace PagingKernel

open PagingKernel.Action PageTable

namespace Kernel

variable {boot : Ledger} {books : Books} {kernel : Kernel} {slot : Fin slotCount}
  {view : SpaceView} {frame : TrapFrame}

/-! ## What an allocation comes to -/

/-- The process of a slot may be given a page at an address. -/
structure CanAllocate (kernel : Kernel) (slot : Fin slotCount) (address : UInt32) : Prop where
  aligned : address.toNat % pageSize = 0
  above : processStart ≤ address.toNat
  below : address.toNat < virtualSize
  unmapped : (kernel.directory slot).lookup kernel.resources.memory.ram ⟨address.toNat⟩ = .ok none
  room : 0 < kernel.resources.memory.ledger.freePages

/-- The page became the caller's, and the only one whose owner or references changed. -/
structure TakenFor (slot : Fin slotCount) (before after : Ledger) (page : Fin pageCount) :
    Prop where
  was_free : ¬before.Taken page
  lowest : ∀ lower < page, before.Taken lower
  entry_eq : after.entry page = ⟨.process (.ofIndex slot), 1⟩
  entries : ∀ other, other ≠ page → after.entry other = before.entry other

/-- The caller maps the page at the address, and all else is mapped as before. -/
structure MappedFor (slot : Fin slotCount) (address : UInt32) (before after : Kernel)
    (page : Fin pageCount) : Prop where
  mapped : (after.directory slot).lookup after.resources.memory.ram ⟨address.toNat⟩ =
    .ok (some ⟨.ofPage page, .userRW⟩)
  own_mappings : ∀ other : UInt32, other.toNat / pageSize ≠ address.toNat / pageSize →
    (after.directory slot).lookup after.resources.memory.ram ⟨other.toNat⟩ =
      (before.directory slot).lookup before.resources.memory.ram ⟨other.toNat⟩
  mappings : ∀ other, other ≠ slot → before.Live other → ∀ va,
    (after.directory other).lookup after.resources.memory.ram va =
      (before.directory other).lookup before.resources.memory.ram va
  space_eq : after.space = before.space
  kernel_mappings : ∀ va, after.space.dir.lookup after.resources.memory.ram va =
    before.space.dir.lookup before.resources.memory.ram va

/-- The page is cleared, and of all taken pages only a word of the caller's page table changed. -/
structure ClearedFor (slot : Fin slotCount) (address : UInt32) (before after : Kernel)
    (page : Fin pageCount) : Prop where
  zeroed : ∀ offset < pageSize, after.resources.memory.ram.pageByte page offset = 0
  bytes : ∃ table, (before.directory slot).hasTable before.resources.memory.ram table = true ∧
    ∀ other, before.resources.memory.ledger.Taken other → ∀ offset < pageSize,
      (other = table → offset / entrySize ≠ tableIndex ⟨address.toNat⟩) →
      after.resources.memory.ram.pageByte other offset =
        before.resources.memory.ram.pageByte other offset

/-- The process of a slot was given a page at the address that it asked for. -/
structure HasAllocated (slot : Fin slotCount) (frame : TrapFrame) (before after : Kernel)
    (page : Fin pageCount) : Prop where
  caller_eq : after.resources.tasks.process slot =
    { before.resources.tasks.process slot with frame := { frame with eax := 0 } }
  others : ∀ other, other ≠ slot →
    after.resources.tasks.process other = before.resources.tasks.process other
  taken : TakenFor slot before.resources.memory.ledger after.resources.memory.ledger page
  mapped : MappedFor slot frame.eax before after page
  cleared : ClearedFor slot frame.eax before after page

/-- The process of a slot was refused a page, and nothing but its answer tells. -/
structure NotAllocated (slot : Fin slotCount) (frame : TrapFrame) (before after : Kernel) :
    Prop where
  caller_eq : after.resources.tasks.process slot =
    { before.resources.tasks.process slot with
      frame := { frame with eax := Syscall.failedCall } }
  others : ∀ other, other ≠ slot →
    after.resources.tasks.process other = before.resources.tasks.process other
  memory_eq : after.resources.memory = before.resources.memory

/-- A process is given a page exactly if it may be given one. -/
structure Allocates (slot : Fin slotCount) (frame : TrapFrame) (before after : Kernel) :
    Prop where
  answer_iff : (after.resources.tasks.process slot).frame.eax = 0 ↔
    CanAllocate before slot frame.eax
  allocated : CanAllocate before slot frame.eax →
    ∃ page, HasAllocated slot frame before after page
  notAllocated : ¬CanAllocate before slot frame.eax → NotAllocated slot frame before after

/-! ## An allocation that is granted -/

section Granted

variable {machine : Machine} {resources : Resources} {place : Fin processPageCount}
  {page : Fin pageCount} {after : Kernel} (coherent : Coherent boot books kernel)
  (found : books.space slot = some view)
  (allocated : Syscall.PageAllocated view (.process (.ofIndex slot)) frame.eax
    (kernel.saved slot frame machine).resources resources place page)

include allocated

theorem requested_eq : (⟨frame.eax.toNat⟩ : VirtAddr) = .ofPage (placeNumber place) :=
  (Syscall.requestedPage_eq_ok_iff.mp allocated.requested).1.symm

theorem takenFor (tidy : kernel.resources.memory.ledger.Tidy)
    (memory_eq : after.resources.memory = resources.memory) :
    TakenFor slot kernel.resources.memory.ledger after.resources.memory.ledger page := by
  have untaken := allocated.nextFree.untaken
  obtain ⟨first, same, -, lowest⟩ := Ledger.findFree_eq_some tidy allocated.nextFree.lowest
  obtain rfl := PhysAddr.ofPage_inj.mp same
  have charged : after.resources.memory.ledger = kernel.resources.memory.ledger.charge
      (.process (.ofIndex slot)) (Pi.single page 1) := by
    rw [memory_eq, allocated.memory_eq]
    rfl
  rw [charged]
  exact {
    was_free := untaken
    lowest := lowest
    entry_eq := Ledger.entry_charge_of_untaken untaken _ (Pi.single_eq_same ..)
    entries := fun other apart => by
      rw [Ledger.entry_charge, Pi.single_eq_of_ne apart, PageInfo.charge_zero] }

include coherent found

/-- Only the free page and one word of the caller's page table were written. -/
theorem clearedFor (memory_eq : after.resources.memory = resources.memory) :
    ClearedFor slot frame.eax kernel after page := by
  have stands := coherent.sound.stands slot view found
  have untaken := allocated.nextFree.untaken
  have notTable : page ≠ view.table := fun same =>
    untaken (same ▸ coherent.sound.balanced.taken_of_refs found view.refs_table_pos)
  have index : tableIndex ⟨frame.eax.toNat⟩ = placeNumber place := by
    rw [requested_eq allocated, tableIndex_ofPage_of_lt (placeNumber_lt place)]
  have written : after.resources.memory.ram =
      (kernel.resources.memory.ram.clear page).setEntry view.table (placeNumber place)
        (Leaf.word ⟨page, true⟩) := by
    rw [memory_eq, allocated.memory_eq]
    rfl
  exact {
    zeroed := by
      intro offset inside
      rw [written]
      exact (Ram.samePage_setEntry_of_ne (placeNumber_lt place) notTable _ offset inside).symm.trans
        (Ram.pageByte_clear inside)
    bytes := by
      refine ⟨view.table, ?_, fun other taken offset inside notWord => ?_⟩
      · rw [coherent.directory_eq found]
        exact (Ram.Spans.hasTable_iff stands).mpr rfl
      · have notPage : other ≠ page := fun same => untaken (same ▸ taken)
        have uncleared : kernel.resources.memory.ram.pageByte other offset =
            (kernel.resources.memory.ram.clear page).pageByte other offset :=
          Ram.samePage_clear_of_ne notPage offset inside
        rw [written, uncleared]
        by_cases isTable : other = view.table
        · have notEntry := notWord isTable
          rw [index] at notEntry
          rw [isTable]
          exact Ram.pageByte_setEntry_of_ne (placeNumber_lt place) notEntry _
        · exact (Ram.samePage_setEntry_of_ne (placeNumber_lt place) isTable _ offset inside).symm }

theorem mappedFor (inUse : (kernel.resources.tasks.process slot).state ≠ .free)
    (space_eq : after.space = kernel.space)
    (attached : (after.resources.tasks.process slot).space =
      (kernel.resources.tasks.process slot).space)
    (others : ∀ other, other ≠ slot →
      after.resources.tasks.process other = kernel.resources.tasks.process other)
    (memory_eq : after.resources.memory = resources.memory) :
    MappedFor slot frame.eax kernel after page := by
  have isSaved := (coherent.saved inUse frame machine).sound
  have stands := allocated.stands isSaved found
  have elsewhere := (allocated.served isSaved found).pages
  have number : frame.eax.toNat / pageSize = placeNumber place := by
    have raw_eq : frame.eax.toNat = placeNumber place * pageSize :=
      congrArg VirtAddr.raw (requested_eq allocated)
    rw [raw_eq, Nat.mul_div_cancel _ (by decide)]
  have seen (va : VirtAddr) : (after.directory slot).lookup after.resources.memory.ram va =
      .ok (translation (view.setLeaf place ⟨page, true⟩).word va) := by
    rw [directory_congr space_eq attached, coherent.directory_eq found, memory_eq]
    exact Ram.Spans.lookup_eq stands va
  exact {
    mapped := by
      rw [seen, SpaceView.translation_word_of_place _ number, SpaceView.leaf_setLeaf_self]
      rfl
    own_mappings := by
      intro other apart
      have inside : (⟨other.toNat⟩ : VirtAddr).raw < addressLimit := other.toNat_lt
      rw [number] at apart
      rw [seen, coherent.lookup_directory found,
        SpaceView.translation_word_setLeaf_of_ne _ inside apart]
    mappings := by
      intro other apart live va
      obtain ⟨second, foundOther⟩ := coherent.live_iff.mp live
      have stood : second.Stands kernel.resources.memory.ram :=
        coherent.sound.stands other second foundOther
      have still := stood.congr
        (elsewhere _ (.inr (.inr ⟨other, second, apart, foundOther, second.refs_root_pos⟩)))
        (elsewhere _ (.inr (.inr ⟨other, second, apart, foundOther, second.refs_table_pos⟩)))
      rw [directory_congr space_eq (congrArg Process.space (others other apart)),
        coherent.directory_eq foundOther, memory_eq]
      exact (still.lookup_eq va).trans (stood.lookup_eq va).symm
    space_eq := space_eq
    kernel_mappings := by
      intro va
      have stood := coherent.sound.kernelStands
      have still := stood.congr (elsewhere _ (.inl rfl)) (elsewhere _ (.inr (.inl rfl)))
      rw [space_eq, coherent.space_eq, memory_eq]
      exact (still.lookup_eq va).trans (stood.lookup_eq va).symm }

theorem canAllocate : CanAllocate kernel slot frame.eax := by
  obtain ⟨same, aligned, above, below⟩ :=
    Syscall.requestedPage_eq_ok_iff.mp allocated.requested
  have stands := coherent.sound.stands slot view found
  refine ⟨aligned, above, below, ?_, ?_⟩
  · rw [← same, coherent.directory_eq found, stands.lookup_placeNumber, allocated.vacant]
    rfl
  · have used : (kernel.resources.memory.ledger.charge .kernel (Pi.single page 1)).freePages + 1 =
        kernel.resources.memory.ledger.freePages :=
      Ledger.freePages_charge_single allocated.nextFree.untaken .kernel
    omega

/-- An allocation that is granted has mapped a cleared page and changed nothing else. -/
theorem hasAllocated (inUse : (kernel.resources.tasks.process slot).state ≠ .free)
    (console : Console) :
    HasAllocated slot frame kernel
      { kernel with machine, resources := answered resources slot 0 console } page := by
  have untouched (other : Fin slotCount) : resources.tasks.process other =
      (kernel.saved slot frame machine).resources.tasks.process other := by
    rw [allocated.tasks_eq]
  have atCaller := process_caller (untouched slot) 0 console
  have atOther (other : Fin slotCount) (apart : other ≠ slot) :
      (answered resources slot 0 console).tasks.process other =
        kernel.resources.tasks.process other :=
    process_other apart (untouched other) 0 console
  exact {
    caller_eq := atCaller
    others := atOther
    taken := takenFor allocated coherent.sound.balanced.tidy rfl
    mapped := mappedFor coherent found allocated inUse rfl (by rw [atCaller]) atOther rfl
    cleared := clearedFor coherent found allocated rfl }

end Granted

theorem notAllocated (kernel : Kernel) (slot : Fin slotCount) (frame : TrapFrame)
    (machine : Machine) (console : Console) :
    NotAllocated slot frame kernel
      { kernel with
        machine
        resources := answered (kernel.saved slot frame machine).resources slot
          Syscall.failedCall console } where
  caller_eq := process_caller rfl Syscall.failedCall console
  others _ apart := process_other apart rfl Syscall.failedCall console
  memory_eq := rfl

theorem not_canAllocate (coherent : Coherent boot books kernel)
    (found : books.space slot = some view)
    (denied : Syscall.PageDenied view kernel.resources.memory.ledger frame.eax) :
    ¬CanAllocate kernel slot frame.eax := by
  intro can
  cases denied with
  | badAddress denied =>
      have accepted := Syscall.requestedPage_eq_ok_iff.mpr ⟨rfl, can.aligned, can.above, can.below⟩
      rw [denied] at accepted
      cases accepted
  | @alreadyMapped place leaf requested mapped =>
      have unmapped := can.unmapped
      rw [← (Syscall.requestedPage_eq_ok_iff.mp requested).1, coherent.directory_eq found]
        at unmapped
      have seen := (coherent.sound.stands slot view found).lookup_placeNumber place
      rw [mapped, unmapped] at seen
      cases seen
  | outOfMemory full => exact absurd can.room (by omega)

/-- A trap that asks for a page is handled as an allocation, and the caller goes on. -/
theorem exists_allocates (coherent : Coherent boot books kernel)
    (current : kernel.scheduler.current = .ofIndex slot)
    (runnable : (kernel.resources.tasks.process slot).state = .runnable)
    (asked : frame.vector = Interrupt.pageAlloc) :
    ∃ after, handleTrap frame kernel = .ok (.resume (.ofIndex slot)) after ∧
      Allocates slot frame kernel after := by
  have inUse : (kernel.resources.tasks.process slot).state ≠ .free := by simp [runnable]
  obtain ⟨view, found⟩ := coherent.sound.exists_space inUse
  let machine := kernel.machine.loadDirectory kernel.space.root
  have isCall : SyscallTable.standard.call? frame.vector = some .pageAlloc := by
    rw [asked]
    decide
  have performed : (Syscall.pageAlloc.perform kernel.space (.ofIndex slot) frame.eax).Ensures
      (kernel.saved slot frame machine).resources
      (fun answer resources => answer = 0 ∧ ∃ place page,
        Syscall.PageAllocated view (.process (.ofIndex slot)) frame.eax
          (kernel.saved slot frame machine).resources resources place page)
      fun _ resources => Syscall.PageDenied view kernel.resources.memory.ledger frame.eax ∧
        resources = (kernel.saved slot frame machine).resources :=
    Syscall.ensures_performPageAlloc (coherent.saved inUse frame machine).sound found frame.eax
  rcases (ensures_callTrap coherent current runnable isCall performed).cases with
    ⟨_, _, ran, rfl, resources, answer, console, outcome, rfl⟩ | ⟨_, _, -, impossible⟩
  · refine ⟨_, ran, ?_⟩
    rcases outcome with ⟨rfl, place, page, allocated⟩ | ⟨rfl, denied, rfl⟩
    · have can := canAllocate coherent found allocated
      have done := hasAllocated coherent found allocated inUse console
      exact ⟨iff_of_true (by rw [done.caller_eq]) can, fun _ => ⟨page, done⟩,
        fun cannot => absurd can cannot⟩
    · have cannot := not_canAllocate coherent found denied
      have undone := notAllocated kernel slot frame machine console
      have failed : Syscall.failedCall ≠ 0 := by decide
      exact ⟨iff_of_false (by rw [undone.caller_eq]; exact failed) cannot,
        fun can => absurd can cannot, fun _ => undone⟩
  · exact impossible.elim

end Kernel

/-- Whoever runs, a page is allocated exactly if it may be, and then nothing else changes. -/
theorem Run.page_allocations_are_exact {setting : Run.Setting} {state : Run.State}
    (reached : Run.Reached setting state) {slot : Fin slotCount}
    (current : state.kernel.scheduler.current = .ofIndex slot)
    (runnable : (state.kernel.resources.tasks.process slot).state = .runnable)
    {frame : TrapFrame} (asked : frame.vector = Interrupt.pageAlloc) (faultAddress : Nat) :
    ∃ after, Kernel.handleTrap frame
        { state.kernel with machine := { state.kernel.machine with faultAddress } } =
          .ok (.resume (.ofIndex slot)) after ∧
      Kernel.Allocates slot frame
        { state.kernel with machine := { state.kernel.machine with faultAddress } } after := by
  obtain ⟨boot, books, -, regular⟩ := Run.regular_of_reached reached
  exact Kernel.exists_allocates (regular.coherent.withMachine _) current runnable asked

/-- The registers with which a program asks for the page below its stack. -/
def Run.pageAllocFrame : TrapFrame :=
  { TrapFrame.user with vector := Interrupt.pageAlloc, eax := 0x2fe000 }

/-- The first process of a run from blank memory asks for a page. -/
theorem Run.small_page_allocation_is_exact :
    ∃ (kernel : Kernel) (slot : Fin slotCount),
      Run.Reached .small ⟨kernel, .user (.ofIndex slot)⟩ ∧
      kernel.scheduler.current = .ofIndex slot ∧
      (kernel.resources.tasks.process slot).state = .runnable ∧
      Run.pageAllocFrame.vector = Interrupt.pageAlloc ∧
      ∃ after, Kernel.handleTrap Run.pageAllocFrame
          { kernel with machine := { kernel.machine with faultAddress := 0 } } =
            .ok (.resume (.ofIndex slot)) after ∧
        Kernel.Allocates slot Run.pageAllocFrame
          { kernel with machine := { kernel.machine with faultAddress := 0 } } after := by
  obtain ⟨kernel, slot, reached, runnable⟩ := Run.Setting.suitable_small.exists_running
  obtain ⟨boot, books, -, regular⟩ := Run.regular_of_reached reached
  have current : kernel.scheduler.current = .ofIndex slot := regular.phase.2
  exact ⟨kernel, slot, reached, current, runnable, rfl,
    Run.page_allocations_are_exact reached current runnable rfl 0⟩

end PagingKernel
