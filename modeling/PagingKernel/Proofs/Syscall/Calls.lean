import PagingKernel.Proofs.AddressSpace.Duplicate
import PagingKernel.Proofs.AddressSpace.Translation
import PagingKernel.Proofs.Resources.Spared
import PagingKernel.Syscall.Table

/-!
# System calls keep the resources sound

A call on behalf of a slot ends soundly whether it is answered or refused, and
it spares the other slots, except for the vacant one that a fork fills.
-/

namespace PagingKernel

open PageTable PagingKernel.Action

/-- Serving a slot spared the others, and the process of the slot itself is what it was. -/
structure Served (boot : Ledger) (books : Books) (slot : Fin slotCount)
    (child : Option (Fin slotCount)) (before after : Resources) : Prop
    extends Spared boot books slot child before after where
  self : after.tasks.process slot = before.tasks.process slot

variable {boot : Ledger} {books : Books} {memory : Memory} {tasks : ProcessTable}
  {console : Console} {slot : Fin slotCount} {view : SpaceView}

/-- Whatever leaves memory and the process table alone serves soundly. -/
theorem Served.refl (sound : Sound boot books memory tasks) (slot : Fin slotCount)
    (console later : Console) :
    Served boot books slot none ⟨memory, tasks, console⟩ ⟨memory, tasks, later⟩ where
  toSpared := Spared.refl sound slot console later
  self := rfl

/-- Pages that a process shares can be shared once more: they are referred to at most once from
each slot, and there are too few slots for references to run out. -/
theorem Books.Balanced.shares_fit {boot ledger : Ledger} (balanced : books.Balanced boot ledger)
    (found : books.space slot = some view) {page : Fin pageCount}
    (shared : (sharedPlaces (fun place => (view.leaf place).map Leaf.mapping) page).Nonempty) :
    page ≠ books.kernelRoot ∧ (ledger.entry page).refcount +
      (sharedPlaces (fun place => (view.leaf place).map Leaf.mapping) page).card ≤
        refcountLimit := by
  have fewer := Finset.card_le_card (view.sharedPlaces_subset page)
  have positive := Finset.card_pos.mpr shared
  have referenced : 0 < view.refs page := by
    rw [SpaceView.refs_apply]
    omega
  have once := balanced.single slot view found page
  have count := balanced.refcount_le found referenced
  rw [SpaceView.refs_apply] at once
  refine ⟨?_, ?_⟩
  · rintro rfl
    exact absurd (balanced.refs_kernelRoot found) (Nat.ne_of_gt referenced)
  · simp only [refcountLimit, slotCount] at count ⊢
    omega

namespace Syscall

/-! ## Allocating a page -/

/-- A page may be asked for by its base, and it lies in the process range. -/
theorem requestedPage_eq_ok_iff {argument : UInt32} {va : VirtAddr} :
    requestedPage argument = .ok va ↔ va = ⟨argument.toNat⟩ ∧ argument.toNat % pageSize = 0 ∧
      processStart ≤ argument.toNat ∧ argument.toNat < virtualSize := by
  unfold requestedPage
  dsimp only
  split
  · rename_i inside
    simp only [Bool.and_eq_true, decide_eq_true_eq, VirtAddr.isAligned_iff] at inside
    rw [Except.ok.injEq]
    exact ⟨fun same => ⟨same.symm, inside.1.1, inside.1.2, inside.2⟩, fun same => same.1.symm⟩
  · rename_i outside
    simp only [Bool.and_eq_true, decide_eq_true_eq, VirtAddr.isAligned_iff] at outside
    constructor
    · intro impossible
      cases impossible
    · rintro ⟨-, aligned, above, below⟩
      exact absurd ⟨⟨aligned, above⟩, below⟩ outside

theorem place_of_requestedPage {argument : UInt32} {va : VirtAddr}
    (accepted : requestedPage argument = .ok va) :
    ∃ place, va = .ofPage (placeNumber place) := by
  obtain ⟨rfl, aligned, above, below⟩ := requestedPage_eq_ok_iff.mp accepted
  exact VirtAddr.exists_place (VirtAddr.isAligned_iff.mpr aligned) above below

/-- What an allocation of a page has done: a cleared page is mapped at a vacant place. -/
structure PageAllocated (view : SpaceView) (owner : Owner) (argument : UInt32)
    (before after : Resources) (place : Fin processPageCount) (page : Fin pageCount) : Prop where
  requested : requestedPage argument = .ok (.ofPage (placeNumber place))
  vacant : view.leaf place = none
  nextFree : Memory.NextFree before.memory.ledger page
  memory_eq : after.memory = ⟨before.memory.ledger.charge owner (Pi.single page 1),
    (before.memory.ram.clear page).setEntry view.table (placeNumber place)
      (Leaf.word ⟨page, true⟩)⟩
  tasks_eq : after.tasks = before.tasks

/-- Why no page is allocated. -/
inductive PageDenied (view : SpaceView) (ledger : Ledger) (argument : UInt32) : Prop
  | badAddress {cause : SyscallError} (denied : requestedPage argument = .error cause)
  | alreadyMapped {place : Fin processPageCount} {leaf : Leaf}
      (requested : requestedPage argument = .ok (.ofPage (placeNumber place)))
      (mapped : view.leaf place = some leaf)
  | outOfMemory (full : ledger.freePages = 0)

theorem ensures_pageAlloc_of_stands {caller : Pid} {owner : Owner}
    (own : (tasks.get? caller).bind (·.ownSpace?) = some (view.space owner))
    (stands : view.Stands memory.ram) (tidy : memory.ledger.Tidy) (owned : owner ≠ .free)
    (rootTaken : memory.ledger.Taken view.root) (tableTaken : memory.ledger.Taken view.table)
    (argument : UInt32) :
    (performPageAlloc caller argument).Ensures ⟨memory, tasks, console⟩
      (fun value resources => value = 0 ∧ ∃ place page,
        PageAllocated view owner argument ⟨memory, tasks, console⟩ resources place page)
      fun _ resources => PageDenied view memory.ledger argument ∧
        resources = ⟨memory, tasks, console⟩ := by
  rw [performPageAlloc, ensures_bind]
  cases accepted : requestedPage argument with
  | error cause => exact ensures_ofExcept_error.mpr ⟨.badAddress accepted, rfl⟩
  | ok va =>
      obtain ⟨place, rfl⟩ := place_of_requestedPage accepted
      rw [ensures_ofExcept_ok, ensures_bind, ownSpace, ensures_bind, ensures_get, own,
        ensures_require_some, ensures_bind, ensures_peek]
      refine ⟨_, stands.lookup_placeNumber place, ?_⟩
      cases vacant : view.leaf place with
      | some leaf =>
          exact ensures_bind.mpr (ensures_refuse.mpr ⟨.alreadyMapped accepted vacant, rfl⟩)
      | none =>
          simp only [Option.map_none, Option.isSome_none, Bool.false_eq_true, if_false,
            ensures_bind, ensures_get]
          by_cases full : memory.ledger.findFree.isNone = true
          · rw [if_pos full]
            exact ensures_refuse.mpr ⟨.outOfMemory (Ledger.freePages_eq_zero_of_findFree tidy
              (Option.isNone_iff_eq_none.mp full)), rfl⟩
          · rw [if_neg full, ensures_bind, ensures_mapCause, Resources.ensures_onMemory]
            refine (stands.ensures_mapFresh tidy owned rootTaken tableTaken vacant true).mono ?_ ?_
            · rintro _ _ ⟨page, rfl, nextFree, rfl⟩
              rw [ensures_bind, Resources.ensures_report, ensures_pure]
              exact ⟨rfl, place, page, accepted, vacant, nextFree, rfl, rfl⟩
            · rintro _ _ ⟨reason, rfl, exhausted, rfl⟩
              exact ⟨.outOfMemory exhausted.freePages_eq, rfl⟩

theorem ensures_pageAlloc_of_none {caller : Pid}
    (none : (tasks.get? caller).bind (·.ownSpace?) = none) (argument : UInt32) :
    (performPageAlloc caller argument).Ensures ⟨memory, tasks, console⟩ (fun _ _ => False)
      fun _ resources => resources = ⟨memory, tasks, console⟩ := by
  rw [performPageAlloc, ensures_bind]
  cases requestedPage argument with
  | error cause => exact ensures_ofExcept_error.mpr rfl
  | ok va =>
      rw [ensures_ofExcept_ok, ensures_bind, ownSpace, ensures_bind, ensures_get, none]
      exact ensures_require_none.mpr rfl

/-- What an allocation of a page does in sound resources, for the process of a slot. -/
theorem ensures_performPageAlloc (sound : Sound boot books memory tasks)
    (found : books.space slot = some view) (argument : UInt32) :
    (performPageAlloc (.ofIndex slot) argument).Ensures ⟨memory, tasks, console⟩
      (fun value resources => value = 0 ∧ ∃ place page,
        PageAllocated view (.process (.ofIndex slot)) argument ⟨memory, tasks, console⟩ resources
          place page)
      fun _ resources => PageDenied view memory.ledger argument ∧
        resources = ⟨memory, tasks, console⟩ := by
  have balanced := sound.balanced
  apply ensures_pageAlloc_of_stands
  · rw [ProcessTable.get?_ofIndex, Option.bind_some, sound.ownSpace found]
  · exact sound.stands slot view found
  · exact balanced.tidy
  · simp
  · exact balanced.taken_of_refs found view.refs_root_pos
  · exact balanced.taken_of_refs found view.refs_table_pos

namespace PageAllocated

variable {place : Fin processPageCount} {page : Fin pageCount} {argument : UInt32}
  {after : Resources}

theorem stands (allocated : PageAllocated view (.process (.ofIndex slot)) argument
      ⟨memory, tasks, console⟩ after place page)
    (sound : Sound boot books memory tasks) (found : books.space slot = some view) :
    (view.setLeaf place ⟨page, true⟩).Stands after.memory.ram := by
  have balanced := sound.balanced
  have rootApart : view.root ≠ page := fun same =>
    allocated.nextFree.untaken (same ▸ balanced.taken_of_refs found view.refs_root_pos)
  have tableApart : view.table ≠ page := fun same =>
    allocated.nextFree.untaken (same ▸ balanced.taken_of_refs found view.refs_table_pos)
  rw [allocated.memory_eq]
  exact ((sound.stands slot view found).congr (Ram.samePage_clear_of_ne rootApart)
    (Ram.samePage_clear_of_ne tableApart)).setLeaf
    (SpaceView.root_ne_table (balanced.single slot view found _)) place _

theorem served (allocated : PageAllocated view (.process (.ofIndex slot)) argument
      ⟨memory, tasks, console⟩ after place page)
    (sound : Sound boot books memory tasks) (found : books.space slot = some view) :
    Served boot books slot none ⟨memory, tasks, console⟩ after := by
  have balanced := sound.balanced
  have stands := allocated.stands sound found
  rcases after with ⟨nextMemory, nextTasks, later⟩
  rcases allocated with ⟨-, vacant, nextFree, rfl, sameTasks⟩
  obtain rfl : nextTasks = tasks := sameTasks
  have kept (other : Fin pageCount) (notPage : other ≠ page) (notTable : other ≠ view.table) :
      Ram.SamePage memory.ram ((memory.ram.clear page).setEntry view.table (placeNumber place)
        (Leaf.word ⟨page, true⟩)) other :=
    (Ram.samePage_clear_of_ne notPage).trans
      (Ram.samePage_setEntry_of_ne (placeNumber_lt place) notTable _)
  exact {
    sound := ⟨_, sound.addLeaf found vacant nextFree.untaken stands kept, rfl, rfl⟩
    self := rfl
    processes := fun _ _ _ => rfl
    pages := by
      intro other elsewhere
      apply kept other
      · rintro rfl
        exact nextFree.untaken (elsewhere.taken balanced)
      · rintro rfl
        exact elsewhere.not_private balanced found (.inr (.inl rfl))
    child_free := fun _ impossible => by cases impossible }

end PageAllocated

/-! ## Forking -/

theorem served_child (sound : Sound boot books memory tasks)
    (found : books.space slot = some view) {free : Fin slotCount}
    (first : tasks.firstFree? = some (.ofIndex free)) (isFree : (tasks.process free).state = .free)
    (notReserved : free ≠ ProcessTable.reservedSlot) {child : SpaceView} {next : Ram}
    (inherited : InheritedBelow kernelWord memory.ledger memory.ram
      (fun place => (view.leaf place).map Leaf.mapping) processPageCount child next)
    (frame : TrapFrame) (later : Console) :
    Served boot books slot (some free) ⟨memory, tasks, console⟩
      ⟨⟨memory.ledger.charge (.process (.ofIndex free)) child.refs, next⟩,
        tasks.put free ⟨.runnable, frame, some (.own (child.space (.process (.ofIndex free))))⟩,
        later⟩ := by
  have vacant : books.space free = none := (sound.live free).mp isFree
  have apart : slot ≠ free := by
    rintro rfl
    rw [vacant] at found
    cases found
  exact {
    sound := by
      refine ⟨_, sound.addSpace vacant notReserved inherited.built
        (inherited.single (sound.balanced.single slot view found)) ?_ (by simp) rfl, rfl, rfl⟩
      intro page taken referenced
      obtain ⟨place, mapped⟩ := inherited.shared taken referenced
      exact ⟨slot, view, place, found, mapped⟩
    self := ProcessTable.process_put_of_ne apart _
    processes := fun other _ notChild => ProcessTable.process_put_of_ne
      (fun same => notChild (congrArg some same.symm)) _
    pages := fun page elsewhere =>
      inherited.built.kept page (elsewhere.taken sound.balanced)
    child_free := by
      intro other same
      obtain rfl := Option.some.inj same
      exact first }

/-- What a fork has done: a child that inherited its caller's space fills a slot. -/
structure Forked (view : SpaceView) (parent : Process) (free : Fin slotCount)
    (before after : Resources) (child : SpaceView) (next : Ram) : Prop where
  inherited : InheritedBelow kernelWord before.memory.ledger before.memory.ram
    (fun place => (view.leaf place).map Leaf.mapping) processPageCount child next
  memory_eq : after.memory =
    ⟨before.memory.ledger.charge (.process (.ofIndex free)) child.refs, next⟩
  tasks_eq : after.tasks = before.tasks.put free ⟨.runnable, { parent.frame with eax := 0 },
    some (.own (child.space (.process (.ofIndex free))))⟩

/-- A slot that is first among the free ones takes a child exactly if it has no space. -/
theorem insertForked_eq {free : Fin slotCount} (first : tasks.firstFree? = some (.ofIndex free))
    (frame : TrapFrame) (space : AddressSpace) :
    tasks.insertForked (.ofIndex free) frame space =
      if (tasks.process free).space = none then
        .ok (tasks.put free ⟨.runnable, frame, some (.own space)⟩)
      else .error (.slotInUse (.ofIndex free)) := by
  obtain ⟨same, isSame, notReserved, isFree⟩ := ProcessTable.firstFree?_eq_some first
  obtain rfl := ProcessTable.ofIndex_injective isSame
  have notZero : Pid.ofIndex free ≠ .reserved :=
    fun isReserved => notReserved (ProcessTable.ofIndex_eq_reserved_iff.mp isReserved)
  rw [ProcessTable.insertForked, ProcessTable.vacantSlot, if_neg notZero,
    ProcessTable.slot?_ofIndex]
  cases attached : (tasks.process free).space with
  | none =>
      simp only [isFree, attached]
      rfl
  | some space =>
      simp only [isFree, attached]
      rfl

/-- What a refused fork leaves: the ledger as it was, or the pages of a child without a slot. -/
inductive Unforked (view : SpaceView) (free : Fin slotCount) (tasks : ProcessTable)
    (before : Memory) (cause : SyscallError) (after : Memory) : Prop
  | undone {next : Ram}
      (unaffordable : Unaffordable before.ledger fun place => (view.leaf place).map Leaf.mapping)
      (memory_eq : after = ⟨before.ledger, next⟩)
      (kept : ∀ page, before.ledger.Taken page → Ram.SamePage before.ram next page)
  | stranded {child : SpaceView} {next : Ram}
      (cause_eq : cause = .spawn (.slotInUse (.ofIndex free)))
      (attached : (tasks.process free).space ≠ none)
      (memory_eq : after = ⟨before.ledger.charge (.process (.ofIndex free)) child.refs, next⟩)
      (inherited : InheritedBelow kernelWord before.ledger before.ram
        (fun place => (view.leaf place).map Leaf.mapping) processPageCount child next)

/-- A caller with a space of its own is forked into the lowest free slot.  A fork is refused with
the ledger as it was, unless the slot has a space attached to it: then the child's pages stay
charged. -/
theorem ensures_fork_of_stands {caller : Pid} {parent : Process} {owner : Owner}
    {free : Fin slotCount} {kernelRoot kernelTable : Fin pageCount} (tidy : memory.ledger.Tidy)
    (kernel : memory.ram.Spans kernelRoot kernelTable kernelWord)
    (kernelRootTaken : memory.ledger.Taken kernelRoot)
    (kernelTableTaken : memory.ledger.Taken kernelTable)
    (isCaller : tasks.get? caller = some parent)
    (own : parent.ownSpace? = some (view.space owner)) (stands : view.Stands memory.ram)
    (taken : ∀ page, 0 < view.refs page → memory.ledger.Taken page)
    (first : tasks.firstFree? = some (.ofIndex free)) :
    (performFork ⟨⟨.ofPage kernelRoot⟩, .kernel⟩ caller).Ensures ⟨memory, tasks, console⟩
      (fun value resources => value = (Pid.ofIndex free).raw ∧ (tasks.process free).space = none ∧
        ∃ child next, Forked view parent free ⟨memory, tasks, console⟩ resources child next)
      fun cause resources => resources.tasks = tasks ∧
        Unforked view free tasks memory cause resources.memory := by
  simp only [performFork, ensures_bind, ensures_get]
  rw [first, ensures_require_some, isCaller, ensures_require_some, own, ensures_require_some,
    ensures_mapCause, Resources.ensures_onMemory]
  refine (AddressSpace.ensures_duplicate tidy kernel kernelRootTaken kernelTableTaken
    (stands.inheritable taken owner) (.ofIndex free)).mono ?_ ?_
  · rintro _ _ ⟨child, next, rfl, rfl, inherited⟩
    have inserted := insertForked_eq first { parent.frame with eax := 0 }
      (child.space (.process (.ofIndex free)))
    rw [ensures_mapCause]
    by_cases unattached : (tasks.process free).space = none
    · rw [if_pos unattached] at inserted
      rw [Resources.ensures_tryModifyTasks_ok inserted, Resources.ensures_report, ensures_pure]
      exact ⟨rfl, unattached, child, next, inherited, rfl, rfl⟩
    · rw [if_neg unattached] at inserted
      rw [Resources.ensures_tryModifyTasks_error inserted]
      exact ⟨rfl, .stranded rfl unattached rfl inherited⟩
  · rintro _ _ ⟨-, tooLarge, next, rfl, kept⟩
    exact ⟨rfl, .undone tooLarge rfl kept⟩

theorem ensures_fork_of_none {caller : Pid} {kernel : AddressSpace} {start : Resources}
    (none : start.tasks.firstFree? = none ∨
      (start.tasks.get? caller).bind (·.ownSpace?) = none) :
    (performFork kernel caller).Ensures start (fun _ _ => False)
      fun _ resources => resources = start := by
  simp only [performFork, ensures_bind, ensures_get]
  cases first : start.tasks.firstFree? with
  | none => exact ensures_require_none.mpr rfl
  | some free =>
      have noSpace := none.resolve_left (by simp [first])
      rw [ensures_require_some]
      cases isCaller : start.tasks.get? caller with
      | none => exact ensures_require_none.mpr rfl
      | some parent =>
          rw [isCaller, Option.bind_some] at noSpace
          rw [ensures_require_some, noSpace, ensures_require_none]

/-- In sound resources it is for want of free pages that a fork cannot be afforded. -/
theorem unaffordable_iff (sound : Sound boot books memory tasks)
    (found : books.space slot = some view) :
    Unaffordable memory.ledger (fun place => (view.leaf place).map Leaf.mapping) ↔
      memory.ledger.freePages <
        2 + (copiedPlaces fun place => (view.leaf place).map Leaf.mapping).card := by
  refine ⟨?_, .inl⟩
  rintro (short | ⟨page, shared, often⟩)
  · exact short
  · have fits := (sound.balanced.shares_fit found shared).2
    omega

/-- What a fork does in sound resources, for the process of a slot. -/
theorem ensures_performFork (sound : Sound boot books memory tasks)
    (found : books.space slot = some view) :
    (performFork ⟨⟨.ofPage books.kernelRoot⟩, .kernel⟩ (.ofIndex slot)).Ensures
        ⟨memory, tasks, console⟩
      (fun value resources => ∃ free : Fin slotCount, value = (Pid.ofIndex free).raw ∧
        tasks.firstFree? = some (.ofIndex free) ∧
        ∃ child next, Forked view (tasks.process slot) free ⟨memory, tasks, console⟩ resources
          child next)
      fun _ resources => (tasks.firstFree? = none ∨ memory.ledger.freePages <
          2 + (copiedPlaces fun place => (view.leaf place).map Leaf.mapping).card) ∧
        resources.tasks = tasks ∧ ∃ next, resources.memory = ⟨memory.ledger, next⟩ ∧
        ∀ page, memory.ledger.Taken page → Ram.SamePage memory.ram next page := by
  have balanced := sound.balanced
  cases first : tasks.firstFree? with
  | none =>
      refine (ensures_fork_of_none (.inl first)).mono (fun _ _ impossible => impossible.elim) ?_
      rintro _ _ rfl
      exact ⟨.inl rfl, rfl, memory.ram, rfl, fun page _ => Ram.SamePage.refl memory.ram page⟩
  | some pid =>
      obtain ⟨free, rfl, -, isFree⟩ := ProcessTable.firstFree?_eq_some first
      have unattached : (tasks.process free).space = none := by
        rw [sound.spaces free, (sound.live free).mp isFree, Option.map_none]
      refine (ensures_fork_of_stands balanced.tidy sound.kernelStands balanced.kernelRoot_taken
        balanced.kernelTable_taken (ProcessTable.get?_ofIndex tasks slot) (sound.ownSpace found)
        (sound.stands slot view found) (fun page => balanced.taken_of_refs found) first).mono ?_ ?_
      · rintro _ resources ⟨rfl, -, forked⟩
        exact ⟨free, rfl, rfl, forked⟩
      · rintro _ resources ⟨same, outcome⟩
        cases outcome with
        | undone unaffordable memory_eq kept =>
            exact ⟨.inr ((unaffordable_iff sound found).mp unaffordable), same, _, memory_eq, kept⟩
        | stranded _ attached _ _ => exact absurd unattached attached

theorem Forked.served {free : Fin slotCount} {after : Resources} {child : SpaceView} {next : Ram}
    (forked : Forked view (tasks.process slot) free ⟨memory, tasks, console⟩ after child next)
    (sound : Sound boot books memory tasks) (found : books.space slot = some view)
    (first : tasks.firstFree? = some (.ofIndex free)) :
    Served boot books slot (some free) ⟨memory, tasks, console⟩ after := by
  rcases after with ⟨nextMemory, nextTasks, later⟩
  rcases forked with ⟨inherited, rfl, filled⟩
  obtain rfl : nextTasks = _ := filled
  obtain ⟨same, isSame, notReserved, isFree⟩ := ProcessTable.firstFree?_eq_some first
  obtain rfl := ProcessTable.ofIndex_injective isSame
  exact served_child sound found first isFree notReserved inherited _ _

/-! ## All calls -/

/-- What a call that is answered with a value has done for the process of a slot. -/
inductive Granted (view : SpaceView) (slot : Fin slotCount) (argument : UInt32)
    (before after : Resources) : Syscall → Option (Fin slotCount) → UInt32 → Prop
  | getPid (unchanged : after = before) :
      Granted view slot argument before after .getPid none (Pid.ofIndex slot).raw
  | pageAlloc {place : Fin processPageCount} {page : Fin pageCount}
      (allocated : PageAllocated view (.process (.ofIndex slot)) argument before after place page) :
      Granted view slot argument before after .pageAlloc none 0
  | fork {free : Fin slotCount} {child : SpaceView} {next : Ram}
      (first : before.tasks.firstFree? = some (.ofIndex free))
      (forked : Forked view (before.tasks.process slot) free before after child next) :
      Granted view slot argument before after .fork (some free) (Pid.ofIndex free).raw

/-- What a call that is refused has done. -/
inductive Refused (before after : Resources) : Syscall → Prop
  | pageAlloc (unchanged : after = before) : Refused before after .pageAlloc
  | fork (next : Ram) (tasks_eq : after.tasks = before.tasks)
      (memory_eq : after.memory = ⟨before.memory.ledger, next⟩) : Refused before after .fork

/-- Only a fork fills a slot, and its answer names the slot. -/
theorem Granted.filled {call : Syscall} {child : Option (Fin slotCount)} {argument value : UInt32}
    {before after : Resources}
    (granted : Granted view slot argument before after call child value) :
    ∀ filled, child = some filled → call = .fork ∧ value = (Pid.ofIndex filled).raw := by
  intro filled same
  cases granted with
  | getPid unchanged => cases same
  | pageAlloc allocated => cases same
  | fork first forked =>
      obtain rfl := Option.some.inj same
      exact ⟨rfl, rfl⟩

theorem ensures_perform (sound : Sound boot books memory tasks)
    (found : books.space slot = some view) (call : Syscall) (argument : UInt32) :
    (call.perform ⟨⟨.ofPage books.kernelRoot⟩, .kernel⟩ (.ofIndex slot) argument).Ensures
        ⟨memory, tasks, console⟩
      (fun value resources => ∃ child : Option (Fin slotCount),
        Granted view slot argument ⟨memory, tasks, console⟩ resources call child value ∧
        Served boot books slot child ⟨memory, tasks, console⟩ resources)
      fun _ resources => Refused ⟨memory, tasks, console⟩ resources call ∧
        Served boot books slot none ⟨memory, tasks, console⟩ resources := by
  cases call with
  | getPid =>
      exact ensures_pure.mpr ⟨none, .getPid rfl, Served.refl sound slot console console⟩
  | pageAlloc =>
      apply (ensures_performPageAlloc sound found argument).mono
      · rintro _ _ ⟨rfl, place, page, allocated⟩
        exact ⟨none, .pageAlloc allocated, allocated.served sound found⟩
      · rintro _ _ ⟨-, rfl⟩
        exact ⟨.pageAlloc rfl, Served.refl sound slot console console⟩
  | fork =>
      apply (ensures_performFork sound found).mono
      · rintro _ _ ⟨free, rfl, first, child, next, forked⟩
        exact ⟨some free, .fork first forked, forked.served sound found first⟩
      · rintro _ ⟨nextMemory, nextTasks, later⟩ ⟨-, rfl, next, rfl, kept⟩
        refine ⟨.fork next rfl rfl, ?_⟩
        exact {
          sound := ⟨books, sound.ram_congr fun page structural =>
            kept page (sound.balanced.taken_of_structural structural), rfl, rfl⟩
          self := rfl
          processes := fun _ _ _ => rfl
          pages := fun page elsewhere => kept page (elsewhere.taken sound.balanced)
          child_free := fun _ impossible => by cases impossible }

end Syscall

end PagingKernel
