import PagingKernel.Proofs.Creation.Forks
import PagingKernel.Proofs.Creation.Standing

/-!
# Processes that are set up

Whatever calls came before, and whatever they lost, setting up a process is done
as a whole or not at all.  When it is done can be told from the slot, the
program and the number of free pages; it then takes exactly the pages that it
needs, and the space of the process looks exactly as the program says.
-/

namespace PagingKernel

open PagingKernel.Action

/-! ## What calls lead to -/

namespace Resources

/-- What calls lead to from a kernel's own space and an empty table, however they end. -/
inductive Reached (layout : Layout) (ram : Ram) (kernel : AddressSpace) : Resources → Prop
  | fresh {blank memory : Memory} (divided : Memory.ofLayout layout ram = .ok blank)
      (built : AddressSpace.buildKernel blank = .ok kernel memory) :
      Reached layout ram kernel (.ofMemory memory)
  | done {before after : Resources} {programs : ProgramTable} {call : ProcessCall}
      (earlier : Reached layout ram kernel before)
      (ran : call.perform kernel programs before = .ok () after) : Reached layout ram kernel after
  | failed {before after : Resources} {programs : ProgramTable} {call : ProcessCall}
      {failure : Failure SyscallError} (earlier : Reached layout ram kernel before)
      (ran : call.perform kernel programs before = .error failure after) :
      Reached layout ram kernel after

variable {layout : Layout} {ram : Ram} {kernel : AddressSpace} {resources : Resources}

theorem Reached.of_world {programs : ProgramTable}
    (world : World layout ram programs kernel resources) :
    Reached layout ram kernel resources := by
  induction world with
  | fresh divided built => exact .fresh divided built
  | done _ _ ran ih => exact .done ih ran
  | failed _ _ ran ih => exact .failed ih ran

theorem Reached.standing (reached : Reached layout ram kernel resources) :
    ∃ kernelRoot, StillStanding kernelRoot resources ∧
      kernel = ⟨⟨.ofPage kernelRoot⟩, .kernel⟩ := by
  induction reached with
  | fresh divided built =>
      obtain ⟨boot, books, rfl, sound⟩ := Kernel.sound_of_fresh divided built
      exact ⟨_, (Standing.of_sound sound).still, rfl⟩
  | @done before after programs call _ ran ih =>
      obtain ⟨_, ⟨books, standing, rfl⟩, rfl⟩ := ih
      exact ⟨_, ((standing.ensures_perform programs call _).done ran).standing, rfl⟩
  | @failed before after programs call failure _ ran ih =>
      obtain ⟨_, ⟨books, standing, rfl⟩, rfl⟩ := ih
      have ensured : (call.perform _ programs).Ensures before _ _ :=
        standing.ensures_perform programs call _
      cases failure with
      | refused cause => exact ⟨_, (ensured.refused ran).standing, rfl⟩
      | faulted fault => exact absurd ran ensured.not_faulted

/-! ## What a setup comes to -/

/-- The slot, the program and memory allow for a process to be set up. -/
structure CanSetUp (kernel : AddressSpace) (programs : ProgramTable) (pid : Pid) (program : Nat)
    (before : Resources) : Prop where
  /-- The identifier names a slot that is free, and not attached to a space. -/
  vacant : ∃ slot : Fin slotCount, pid = .ofIndex slot ∧ slot ≠ ProcessTable.reservedSlot ∧
    (before.tasks.process slot).state = .free ∧ (before.tasks.process slot).space = none
  /-- One more reference to the kernel's root can be counted. -/
  countable : ∃ root : Fin pageCount, kernel.root = .ofPage root ∧
    (before.memory.ledger.entry root).refcount < refcountLimit
  /-- There is such a program, it is acceptable, and enough pages are free. -/
  affordable : ∃ image, programs.image? program = some image ∧ image.validate = .ok () ∧
    3 + image.touched.ncard ≤ before.memory.ledger.freePages

/-- A space maps a program and a cleared stack page, and nothing else in the process range. -/
structure Runs (image : ProgramImage) (space : AddressSpace) (ram : Ram) : Prop where
  program : ∀ place, placeNumber place ∈ image.touched → ∃ page : Fin pageCount,
    space.dir.lookup ram (.ofPage (placeNumber place)) = .ok (some ⟨.ofPage page,
      if ∃ segment ∈ image.segments, segment.Touches (placeNumber place) ∧ segment.writable = true
        then .userRW else .userRO⟩) ∧
    ∀ offset < pageSize, ram.pageByte page offset =
      image.byte (placeNumber place * pageSize + offset)
  stack : ∃ page : Fin pageCount,
    space.dir.lookup ram ⟨processStack⟩ = .ok (some ⟨.ofPage page, .userRW⟩) ∧
    ∀ offset < pageSize, ram.pageByte page offset = 0
  nothing_else : ∀ place, placeNumber place ∉ image.touched →
    VirtAddr.ofPage (placeNumber place) ≠ ⟨processStack⟩ →
    space.dir.lookup ram (.ofPage (placeNumber place)) = .ok none

/-- A process was set up in a slot, in a space of its own on pages that were free. -/
structure HasSetUp (slot : Fin slotCount) (image : ProgramImage) (space : AddressSpace)
    (before after : Resources) : Prop where
  process_eq : after.tasks.process slot = ⟨.runnable, { TrapFrame.user with
    eip := UInt32.ofNat image.entry.raw, esp := UInt32.ofNat virtualSize }, some (.own space)⟩
  others : ∀ other, other ≠ slot → after.tasks.process other = before.tasks.process other
  runs : Runs image space after.memory.ram
  new_card : (Finset.univ.filter fun page => ¬before.memory.ledger.Taken page ∧
    after.memory.ledger.Taken page).card = 3 + image.touched.ncard
  new_entry : ∀ page, ¬before.memory.ledger.Taken page → after.memory.ledger.Taken page →
    after.memory.ledger.entry page = ⟨.process (.ofIndex slot), 1⟩
  other_entry : ∀ page, before.memory.ledger.Taken page ∨ ¬after.memory.ledger.Taken page →
    after.memory.ledger.entry page = before.memory.ledger.entry page

/-- No process was set up, and nothing is left of the attempt. -/
structure NotSetUp (pid : Pid) (before after : Resources) : Prop where
  entries : ∀ page, after.memory.ledger.entry page = before.memory.ledger.entry page
  others : ∀ slot : Fin slotCount, pid ≠ .ofIndex slot →
    after.tasks.process slot = before.tasks.process slot
  still_vacant : ∀ slot : Fin slotCount, pid = .ofIndex slot →
    (before.tasks.process slot).state = .free → (before.tasks.process slot).space = none →
    (after.tasks.process slot).state = .free ∧ (after.tasks.process slot).space = none
  still_occupied : ∀ slot : Fin slotCount, pid = .ofIndex slot →
    ¬((before.tasks.process slot).state = .free ∧ (before.tasks.process slot).space = none) →
    after.tasks.process slot = before.tasks.process slot

/-- A process is set up if it can be, and otherwise nothing happens. -/
structure AllOrNothing (kernel : AddressSpace) (programs : ProgramTable) (pid : Pid)
    (program : Nat) (before : Resources) : Prop where
  ok_iff : (∃ after, setup kernel programs pid program before = .ok () after) ↔
    CanSetUp kernel programs pid program before
  ok : ∀ after, setup kernel programs pid program before = .ok () after →
    ∃ (slot : Fin slotCount) (image : ProgramImage) (space : AddressSpace), pid = .ofIndex slot ∧
      programs.image? program = some image ∧ HasSetUp slot image space before after
  refused : ¬CanSetUp kernel programs pid program before → ∃ cause after,
    setup kernel programs pid program before = .error (.refused cause) after ∧
      NotSetUp pid before after

/-! ## What is set up -/

namespace SetUp

variable {program : Nat} {programs : ProgramTable} {slot : Fin slotCount}
  {before after : Resources} {image : ProgramImage} {child : SpaceView} {next : Ram}

variable (isSetUp : SetUp program programs slot before after image child next)

include isSetUp

theorem valid : ∀ segment ∈ image.segments, segment.isValid = true :=
  (ProgramImage.validate_eq_ok_iff.mp isSetUp.accepted).1

theorem mapped_eq : child.mapped = insert stackPlace image.footprint := by
  refine Finset.Subset.antisymm isSetUp.painted.mapped_subset fun place member => ?_
  rw [isSetUp.painted.mem_mapped_iff, ProgramImage.writable?_processPicture]
  split
  · rfl
  · rename_i notStack
    have met := (Finset.mem_insert.mp member).resolve_left notStack
    rw [ProgramImage.writable?_picture_of_touched (ProgramImage.placeNumber_mem_touched.mpr met)]
    rfl

/-- Two pages are taken for the space, one for the stack, and one for each page of the program. -/
theorem freePages_eq :
    after.memory.ledger.freePages + (3 + image.touched.ncard) = before.memory.ledger.freePages := by
  have used := isSetUp.painted.toPlacing.freePages_eq (.process (.ofIndex slot))
  rw [isSetUp.mapped_eq,
    Finset.card_insert_of_notMem (ProgramImage.stackPlace_notMem_footprint isSetUp.valid)] at used
  rw [isSetUp.memory_eq, ProgramImage.ncard_touched isSetUp.valid]
  dsimp only
  omega

/-- The space of the process shows its program, and a cleared stack. -/
theorem runs : Runs image (child.space (.process (.ofIndex slot))) next where
  program place touched := by
    have met := ProgramImage.placeNumber_mem_touched.mp touched
    have notStack : place ≠ stackPlace := fun same =>
      ProgramImage.stackPlace_notMem_footprint isSetUp.valid (same ▸ met)
    have shown := (image.writable?_processPicture place).trans
      ((if_neg notStack).trans (ProgramImage.writable?_picture_of_touched touched))
    obtain ⟨page, seen, bytes⟩ := isSetUp.painted.exists_lookup shown (.process (.ofIndex slot))
    refine ⟨page, ?_, fun offset inside => ?_⟩
    · rw [seen, userFlags]
      simp only [decide_eq_true_eq]
    · rw [bytes offset inside]
      exact ProgramImage.byte_picture isSetUp.valid _
  stack := by
    have shown := (image.writable?_processPicture stackPlace).trans (if_pos rfl)
    have clear := Picture.clear_ofSegments isSetUp.valid
    have hidden : image.picture.writable? stackPlace = none :=
      ProgramImage.writable?_picture_of_not_touched fun touched =>
        ProgramImage.stackPlace_notMem_footprint isSetUp.valid
          (ProgramImage.placeNumber_mem_touched.mp touched)
    obtain ⟨page, seen, bytes⟩ := isSetUp.painted.exists_lookup shown (.process (.ofIndex slot))
    refine ⟨page, seen, fun offset inside => ?_⟩
    rw [bytes offset inside]
    exact clear stackPlace hidden offset inside
  nothing_else place untouched notStack := by
    refine isSetUp.painted.lookup_eq_none ?_ _
    have apart : place ≠ stackPlace := fun same => notStack (same ▸ ofPage_stackPlace)
    exact (image.writable?_processPicture place).trans
      ((if_neg apart).trans (ProgramImage.writable?_picture_of_not_touched untouched))

theorem hasSetUp :
    HasSetUp slot image (child.space (.process (.ofIndex slot))) before after where
  process_eq := by
    rw [isSetUp.tasks_eq, ProcessTable.process_put_self]
    rfl
  others other apart := by rw [isSetUp.tasks_eq, ProcessTable.process_put_of_ne apart]
  runs := by
    rw [isSetUp.memory_eq]
    exact isSetUp.runs
  new_card := by
    have used := Ledger.freePages_charge before.memory.ledger (.process (.ofIndex slot)) child.refs
    have exact_count := isSetUp.freePages_eq
    rw [isSetUp.memory_eq] at exact_count ⊢
    rw [Finset.filter_congr fun page _ => Ledger.new_charge_iff]
    dsimp only at exact_count
    omega
  new_entry page untaken taken := by
    rw [isSetUp.memory_eq] at taken ⊢
    have referenced := (Ledger.new_charge_iff.mp ⟨untaken, taken⟩).2
    have once := isSetUp.painted.built.single page untaken
    exact Ledger.entry_charge_of_untaken untaken _ (by omega)
  other_entry page held := by
    rw [isSetUp.memory_eq] at held ⊢
    have unreferenced : child.refs page = 0 := by
      by_contra referenced
      have positive := Nat.pos_of_ne_zero referenced
      rcases held with taken | untaken
      · exact isSetUp.painted.untaken_of_refs positive taken
      · exact untaken (Ledger.taken_charge_iff.mpr (.inr positive))
    rw [Ledger.entry_charge, unreferenced, PageInfo.charge_zero]

end SetUp

/-! ## When it is set up -/

/-- A setup decides whether it can be done, and does it or nothing. -/
theorem allOrNothing_of_ensures {kernel : AddressSpace} {programs : ProgramTable} {pid : Pid}
    {program : Nat} {before : Resources}
    (ensured : (setup kernel programs pid program).Ensures before
      (fun _ after => CanSetUp kernel programs pid program before ∧
        ∃ (slot : Fin slotCount) (image : ProgramImage) (space : AddressSpace),
          pid = .ofIndex slot ∧ programs.image? program = some image ∧
          HasSetUp slot image space before after)
      fun _ after => ¬CanSetUp kernel programs pid program before ∧ NotSetUp pid before after) :
    AllOrNothing kernel programs pid program before where
  ok_iff := by
    refine ⟨fun ⟨after, ran⟩ => (ensured.done ran).1, fun can => ?_⟩
    rcases ensured.cases with ⟨_, after, ran, -⟩ | ⟨_, _, _, cannot, -⟩
    · exact ⟨after, ran⟩
    · exact absurd can cannot
  ok after ran := (ensured.done ran).2
  refused cannot := by
    rcases ensured.cases with ⟨_, _, _, can, -⟩ | ⟨cause, after, ran, -, nothing⟩
    · exact absurd can cannot
    · exact ⟨cause, after, ran, nothing⟩

end Resources

open Resources

theorem Standing.allOrNothing {books : Books} {memory : Memory} {tasks : ProcessTable}
    (standing : Standing books memory tasks) (console : Console) (programs : ProgramTable)
    (pid : Pid) (program : Nat) :
    AllOrNothing ⟨⟨.ofPage books.kernelRoot⟩, .kernel⟩ programs pid program
      ⟨memory, tasks, console⟩ := by
  apply allOrNothing_of_ensures
  cases vacant : tasks.vacantSlot pid with
  | error cause =>
      refine (ensures_setup_of_occupied vacant programs program).mono
        (fun _ _ impossible => impossible.elim) ?_
      rintro _ _ ⟨-, rfl⟩
      refine ⟨fun ⟨⟨slot, isSlot, unused⟩, _, _⟩ => ?_, ?_⟩
      · cases vacant.symm.trans (ProcessTable.vacantSlot_eq_ok_iff.mpr ⟨isSlot, unused⟩)
      · exact ⟨fun _ => rfl, fun _ _ => rfl, fun _ _ free none => ⟨free, none⟩, fun _ _ _ => rfl⟩
  | ok slot =>
      obtain ⟨rfl, unused⟩ := ProcessTable.vacantSlot_eq_ok_iff.mp vacant
      apply (ensures_setup_of_vacant standing.tidy standing.kernelStands standing.kernelRoot_taken
        standing.kernelTable_taken standing.kernelRoot_room vacant programs program).mono
      · rintro _ after ⟨image, child, next, isSetUp⟩
        have used := isSetUp.freePages_eq
        refine ⟨⟨⟨slot, rfl, unused⟩, ⟨books.kernelRoot, rfl, standing.kernelRoot_room⟩,
          image, isSetUp.image_eq, isSetUp.accepted, ?_⟩, slot, image, _, rfl, isSetUp.image_eq,
          isSetUp.hasSetUp⟩
        dsimp only at used ⊢
        omega
      · rintro _ _ ⟨tooMuch, next, later, rfl, -⟩
        refine ⟨fun ⟨_, _, image, isImage, accepted, enough⟩ => ?_, ?_⟩
        · have short := tooMuch image isImage accepted
          rw [ProgramImage.ncard_touched (ProgramImage.validate_eq_ok_iff.mp accepted).1] at enough
          dsimp only at enough
          omega
        · have atSlot : (tasks.put slot .vacant).process slot = .vacant :=
            ProcessTable.process_put_self ..
          refine ⟨fun _ => rfl, fun other apart => ?_, fun other same _ _ => ?_,
            fun other same occupied => ?_⟩
          · refine ProcessTable.process_put_of_ne (fun same => apart ?_) _
            rw [same]
          · obtain rfl := ProcessTable.ofIndex_injective same
            dsimp only
            rw [atSlot]
            exact ⟨rfl, rfl⟩
          · obtain rfl := ProcessTable.ofIndex_injective same
            exact absurd unused.2 occupied

/-- Whatever calls came before, a process is set up as a whole or not at all. -/
theorem setups_are_all_or_nothing {layout : Layout} {ram : Ram} {kernel : AddressSpace}
    {resources : Resources} (reached : Reached layout ram kernel resources)
    (programs : ProgramTable) (pid : Pid) (program : Nat) :
    AllOrNothing kernel programs pid program resources := by
  obtain ⟨_, ⟨books, standing, rfl⟩, rfl⟩ := reached.standing
  exact standing.allOrNothing resources.console programs pid program

/-- A program of one page can be set up as the first process, and then is as a whole. -/
theorem small_setup_is_whole : ∃ (kernel : AddressSpace) (resources : Resources),
    Reached {} .blank kernel resources ∧
    CanSetUp kernel ⟨[Run.onePage]⟩ (.ofIndex 1) 0 resources ∧
    AllOrNothing kernel ⟨[Run.onePage]⟩ (.ofIndex 1) 0 resources := by
  obtain ⟨boot, books, memory, fresh, sound, half⟩ := World.exists_fresh
    (show pageSize ≤ ({} : Layout).stackTop by decide) (by decide) (by decide) .blank
    ⟨[Run.onePage]⟩
  have reached := Reached.of_world fresh
  have small : Run.onePage.footprint.card ≤ 1 := Run.onePage.card_footprint_le
  have counted : Run.onePage.touched.ncard = Run.onePage.footprint.card :=
    ProgramImage.ncard_touched (ProgramImage.validate_eq_ok_iff.mp rfl).1
  have vacant : ProcessTable.vacant.process ⟨1, by decide⟩ = .vacant := Kernel.process_vacant _
  refine ⟨_, _, reached, ⟨⟨⟨1, by decide⟩, rfl, by decide, ?_, ?_⟩, ⟨books.kernelRoot, rfl, ?_⟩,
    ⟨Run.onePage, rfl, rfl, ?_⟩⟩, setups_are_all_or_nothing reached _ _ _⟩
  · exact congrArg Process.state vacant
  · exact congrArg Process.space vacant
  · exact (Standing.of_sound sound).kernelRoot_room
  · rw [counted]
    simp only [firstProcessPage, ofMemory] at half ⊢
    omega

end PagingKernel
