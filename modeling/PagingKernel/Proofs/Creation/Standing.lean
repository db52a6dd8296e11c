import PagingKernel.Proofs.Creation.Calls

/-!
# Resources that stand whatever was lost

A fork into an attached slot leaves pages behind that are charged to nobody
alive, and after it the books do not balance.  What the calls themselves rely on
is less than that: the kernel's directory and every space of a process stand in
RAM, on pages that belong to the kernel and to processes.  `Standing` says this,
and no call, whether it succeeds or fails, takes it away or does anything to the
slots but to fill free ones.
-/

namespace PagingKernel

open PageTable PagingKernel.Action

/-! ## Slots that are filled -/

/-- Free slots may have been filled by processes that can run; no other state has changed. -/
def ProcessTable.Fills (before after : ProcessTable) : Prop :=
  ∀ slot, (after.process slot).state = (before.process slot).state ∨
    slot ≠ reservedSlot ∧ (before.process slot).state = .free ∧
      (after.process slot).state = .runnable

namespace ProcessTable.Fills

variable {tasks before middle after : ProcessTable} {slot : Fin slotCount}

theorem refl (tasks : ProcessTable) : tasks.Fills tasks :=
  fun _ => .inl rfl

theorem trans (first : before.Fills middle) (second : middle.Fills after) :
    before.Fills after := by
  intro slot
  rcases second slot with same | ⟨notReserved, isFree, filled⟩
  · rw [same]
    exact first slot
  · rcases first slot with same | ⟨-, -, alreadyFilled⟩
    · exact .inr ⟨notReserved, same ▸ isFree, filled⟩
    · rw [alreadyFilled] at isFree
      cases isFree

theorem put {process : Process} (same : process.state = (tasks.process slot).state) :
    tasks.Fills (tasks.put slot process) := by
  intro other
  rw [process_put]
  split
  · rename_i here
    rw [here]
    exact .inl same
  · exact .inl rfl

theorem fill (notReserved : slot ≠ reservedSlot) (isFree : (tasks.process slot).state = .free)
    {process : Process} (runnable : process.state = .runnable) :
    tasks.Fills (tasks.put slot process) := by
  intro other
  rw [process_put]
  split
  · rename_i here
    rw [here]
    exact .inr ⟨notReserved, isFree, runnable⟩
  · exact .inl rfl

theorem reserved_eq (fills : before.Fills after) :
    (after.process reservedSlot).state = (before.process reservedSlot).state := by
  rcases fills reservedSlot with same | ⟨impossible, -⟩
  · exact same
  · exact absurd rfl impossible

end ProcessTable.Fills

/-! ## The invariant -/

/-- The kernel's directory and the spaces of all processes stand, whatever else is taken. -/
structure Standing (books : Books) (memory : Memory) (tasks : ProcessTable) : Prop where
  tidy : memory.ledger.Tidy
  kernelStands : memory.ram.Spans books.kernelRoot books.kernelTable kernelWord
  kernelRootEntry : memory.ledger.entry books.kernelRoot = ⟨.kernel, 1 + tasks.kernelSharers⟩
  kernelTableOwner : (memory.ledger.entry books.kernelTable).owner = .kernel
  spaces : ∀ slot, (tasks.process slot).ownSpace? =
    (books.space slot).map fun view => view.space (.process (.ofIndex slot))
  stands : ∀ slot view, books.space slot = some view → view.Stands memory.ram
  structureOwned : ∀ slot view, books.space slot = some view → view.root ≠ view.table ∧
    (memory.ledger.entry view.root).owner = .process (.ofIndex slot) ∧
    (memory.ledger.entry view.table).owner = .process (.ofIndex slot)
  processOwned : ∀ slot view page, books.space slot = some view → 0 < view.refs page →
    ∃ pid, (memory.ledger.entry page).owner = .process pid

/-- The kernel's directory is where it was, and everything stands. -/
def StillStanding (kernelRoot : Fin pageCount) (resources : Resources) : Prop :=
  ∃ books, Standing books resources.memory resources.tasks ∧ books.kernelRoot = kernelRoot

/-- A call has left everything standing, and has done nothing to the slots but to fill free ones. -/
structure LeftStanding (kernelRoot : Fin pageCount) (before after : Resources) : Prop where
  standing : StillStanding kernelRoot after
  fills : before.tasks.Fills after.tasks

namespace Standing

variable {books : Books} {memory : Memory} {tasks : ProcessTable} {slot : Fin slotCount}
  {view : SpaceView} {page : Fin pageCount}

theorem of_sound {boot : Ledger} (sound : Sound boot books memory tasks) :
    Standing books memory tasks where
  tidy := sound.balanced.tidy
  kernelStands := sound.kernelStands
  kernelRootEntry := (SoundApart.of_sound sound).kernelRootEntry
  kernelTableOwner := congrArg PageInfo.owner sound.balanced.kernelTableEntry
  spaces slot := by
    cases found : books.space slot with
    | none =>
        have noSpace := sound.spaces slot
        rw [found] at noSpace
        rw [Process.ownSpace?, noSpace]
        rfl
    | some view => exact sound.ownSpace found
  stands := sound.stands
  structureOwned slot view found := by
    have owned := sound.balanced.privateEntry slot view
    exact ⟨SpaceView.root_ne_table (sound.balanced.single slot view found _),
      congrArg PageInfo.owner (owned _ found (.inl rfl)),
      congrArg PageInfo.owner (owned _ found (.inr (.inl rfl)))⟩
  processOwned := sound.balanced.processOwned

section

variable (standing : Standing books memory tasks)

include standing

/-! ## What the calls rely on -/

theorem taken_of_owner {owner : Owner} (owned : (memory.ledger.entry page).owner = owner)
    (notFree : owner ≠ .free) : memory.ledger.Taken page := by
  by_contra untaken
  exact notFree (owned.symm.trans ((standing.tidy page).mpr untaken))

theorem kernelRoot_taken : memory.ledger.Taken books.kernelRoot :=
  standing.taken_of_owner (congrArg PageInfo.owner standing.kernelRootEntry) (by simp)

theorem kernelTable_taken : memory.ledger.Taken books.kernelTable :=
  standing.taken_of_owner standing.kernelTableOwner (by simp)

theorem taken_of_refs (found : books.space slot = some view) (referenced : 0 < view.refs page) :
    memory.ledger.Taken page := by
  obtain ⟨pid, owned⟩ := standing.processOwned slot view page found referenced
  exact standing.taken_of_owner owned (by simp)

theorem taken_of_structural (structural : books.Structural page) : memory.ledger.Taken page := by
  rcases structural with rfl | rfl | ⟨slot, view, found, rfl | rfl⟩
  · exact standing.kernelRoot_taken
  · exact standing.kernelTable_taken
  · exact standing.taken_of_refs found view.refs_root_pos
  · exact standing.taken_of_refs found view.refs_table_pos

/-- There are too few slots to attach for the references to run out. -/
theorem kernelRoot_room : (memory.ledger.entry books.kernelRoot).refcount < refcountLimit := by
  have few := tasks.kernelSharers_le
  rw [standing.kernelRootEntry]
  simp only [slotCount, refcountLimit] at *
  omega

theorem ownSpace (found : books.space slot = some view) :
    (tasks.process slot).ownSpace? = some (view.space (.process (.ofIndex slot))) := by
  rw [standing.spaces slot, found]
  rfl

theorem exists_caller {caller : Pid} {space : AddressSpace}
    (own : (tasks.get? caller).bind (·.ownSpace?) = some space) :
    ∃ (slot : Fin slotCount) (view : SpaceView), caller = .ofIndex slot ∧
      books.space slot = some view ∧ space = view.space (.process (.ofIndex slot)) := by
  obtain ⟨process, isProcess, isOwn⟩ := Option.bind_eq_some_iff.mp own
  obtain ⟨slot, named, rfl⟩ := Option.map_eq_some_iff.mp isProcess
  obtain rfl := ProcessTable.slot?_eq_some_iff.mp named
  rw [standing.spaces slot] at isOwn
  obtain ⟨view, found, rfl⟩ := Option.map_eq_some_iff.mp isOwn
  exact ⟨slot, view, rfl, found, rfl⟩

/-! ## What does not take it away -/

/-- Changing pages that were free. -/
theorem ram_congr {next : Ram}
    (kept : ∀ page, memory.ledger.Taken page → Ram.SamePage memory.ram next page) :
    Standing books ⟨memory.ledger, next⟩ tasks where
  tidy := standing.tidy
  kernelStands := standing.kernelStands.congr (kept _ standing.kernelRoot_taken)
    (kept _ standing.kernelTable_taken)
  kernelRootEntry := standing.kernelRootEntry
  kernelTableOwner := standing.kernelTableOwner
  spaces := standing.spaces
  stands slot view found := (standing.stands slot view found).congr
    (kept _ (standing.taken_of_refs found view.refs_root_pos))
    (kept _ (standing.taken_of_refs found view.refs_table_pos))
  structureOwned := standing.structureOwned
  processOwned := standing.processOwned

/-- Charging a process with pages. -/
theorem charge (pid : Pid) (count : Fin pageCount → Nat) (notRoot : count books.kernelRoot = 0) :
    Standing books ⟨memory.ledger.charge (.process pid) count, memory.ram⟩ tasks where
  tidy := standing.tidy.charge (by simp) count
  kernelStands := standing.kernelStands
  kernelRootEntry := by
    rw [Ledger.entry_charge, notRoot, PageInfo.charge_zero]
    exact standing.kernelRootEntry
  kernelTableOwner := by
    rw [Ledger.owner_charge_of_taken standing.kernelTable_taken]
    exact standing.kernelTableOwner
  spaces := standing.spaces
  stands := standing.stands
  structureOwned slot view found := by
    rw [Ledger.owner_charge_of_taken (standing.taken_of_refs found view.refs_root_pos),
      Ledger.owner_charge_of_taken (standing.taken_of_refs found view.refs_table_pos)]
    exact standing.structureOwned slot view found
  processOwned slot view page found referenced := by
    rw [Ledger.owner_charge_of_taken (standing.taken_of_refs found referenced)]
    exact standing.processOwned slot view page found referenced

/-- A slot is given a space that stands on pages of its own and of other processes. -/
theorem setSpace (child : SpaceView) {next : Ram} {later : ProcessTable}
    (kept : ∀ page, books.Structural page → page ≠ child.table →
      Ram.SamePage memory.ram next page)
    (stands : child.Stands next)
    (structureOwned : child.root ≠ child.table ∧
      (memory.ledger.entry child.root).owner = .process (.ofIndex slot) ∧
      (memory.ledger.entry child.table).owner = .process (.ofIndex slot))
    (processOwned : ∀ page, 0 < child.refs page →
      ∃ pid, (memory.ledger.entry page).owner = .process pid)
    (spaces : ∀ other, (later.process other).ownSpace? =
      if other = slot then some (child.space (.process (.ofIndex slot)))
      else (tasks.process other).ownSpace?)
    (sharers : later.kernelSharers = tasks.kernelSharers) :
    Standing (books.setSpace slot child) ⟨memory.ledger, next⟩ later where
  tidy := standing.tidy
  kernelStands := by
    have tableOwned := structureOwned.2.2
    refine standing.kernelStands.congr (kept _ (.inl rfl) fun same => ?_)
      (kept _ (.inr (.inl rfl)) fun same => ?_)
    · rw [← same, standing.kernelRootEntry] at tableOwned
      cases tableOwned
    · rw [← same, standing.kernelTableOwner] at tableOwned
      cases tableOwned
  kernelRootEntry := by
    rw [sharers]
    exact standing.kernelRootEntry
  kernelTableOwner := standing.kernelTableOwner
  spaces other := by
    rw [spaces other, Books.space_setSpace]
    split
    · rename_i same
      rw [same]
      rfl
    · exact standing.spaces other
  stands other view found := by
    rw [Books.space_setSpace] at found
    split at found
    · obtain rfl := Option.some.inj found
      exact stands
    · rename_i apart
      have elsewhere {held : Fin pageCount} (isHeld : held = view.root ∨ held = view.table)
          (owned : (memory.ledger.entry held).owner = .process (.ofIndex other)) :
          Ram.SamePage memory.ram next held := by
        refine kept held (.inr (.inr ⟨other, view, found, isHeld⟩)) fun same =>
          apart (ProcessTable.ofIndex_injective ?_)
        rw [same, structureOwned.2.2] at owned
        exact (Owner.process.inj owned).symm
      obtain ⟨-, rootOwned, tableOwned⟩ := standing.structureOwned other view found
      exact (standing.stands other view found).congr (elsewhere (.inl rfl) rootOwned)
        (elsewhere (.inr rfl) tableOwned)
  structureOwned other view found := by
    rw [Books.space_setSpace] at found
    split at found
    · rename_i same
      obtain rfl := Option.some.inj found
      exact same ▸ structureOwned
    · exact standing.structureOwned other view found
  processOwned other view page found referenced := by
    rw [Books.space_setSpace] at found
    split at found
    · obtain rfl := Option.some.inj found
      exact processOwned page referenced
    · exact standing.processOwned other view page found referenced

/-- Slots change, but neither their spaces nor how many of them are attached. -/
theorem tasks_congr {later : ProcessTable}
    (spaces : ∀ slot, (later.process slot).ownSpace? = (tasks.process slot).ownSpace?)
    (sharers : later.kernelSharers = tasks.kernelSharers) : Standing books memory later where
  tidy := standing.tidy
  kernelStands := standing.kernelStands
  kernelRootEntry := by
    rw [sharers]
    exact standing.kernelRootEntry
  kernelTableOwner := standing.kernelTableOwner
  spaces slot := (spaces slot).trans (standing.spaces slot)
  stands := standing.stands
  structureOwned := standing.structureOwned
  processOwned := standing.processOwned

/-- The process of a slot may be replaced by one in the same space. -/
theorem replace {process : Process} (kept : process.space = (tasks.process slot).space) :
    Standing books memory (tasks.put slot process) := by
  refine standing.tasks_congr (fun other => ?_) ?_
  · rw [ProcessTable.process_put]
    split
    · rename_i here
      rw [here, Process.ownSpace?, Process.ownSpace?, kept]
    · rfl
  · have same := tasks.kernelSharers_put slot process
    rw [kept] at same
    exact Nat.add_right_cancel same

/-! ## New spaces -/

theorem built {child : SpaceView} {next : Ram}
    (built : Built memory.ledger memory.ram child next)
    (shared : ∀ page, memory.ledger.Taken page → 0 < child.refs page →
      ∃ pid, (memory.ledger.entry page).owner = .process pid) (pid : Pid) :
    Standing books ⟨memory.ledger.charge (.process pid) child.refs, next⟩ tasks := by
  refine (standing.ram_congr built.kept).charge pid child.refs ?_
  by_contra referenced
  obtain ⟨other, owned⟩ :=
    shared _ standing.kernelRoot_taken (Nat.pos_of_ne_zero referenced)
  rw [standing.kernelRootEntry] at owned
  cases owned

theorem addSpace {child : SpaceView} {next : Ram}
    (built : Built memory.ledger memory.ram child next)
    (shared : ∀ page, memory.ledger.Taken page → 0 < child.refs page →
      ∃ pid, (memory.ledger.entry page).owner = .process pid)
    (unattached : (tasks.process slot).space = none) {process : Process}
    (attached : process.space = some (.own (child.space (.process (.ofIndex slot))))) :
    Standing (books.setSpace slot child)
      ⟨memory.ledger.charge (.process (.ofIndex slot)) child.refs, next⟩
      (tasks.put slot process) := by
  have newOwned {page : Fin pageCount} (untaken : ¬memory.ledger.Taken page)
      (referenced : 0 < child.refs page) :
      ((memory.ledger.charge (.process (.ofIndex slot)) child.refs).entry page).owner =
        .process (.ofIndex slot) := by
    have once := built.single page untaken
    rw [Ledger.entry_charge_of_untaken untaken _ (show child.refs page = 1 by omega)]
  refine (standing.built built shared (.ofIndex slot)).setSpace child
    (fun page _ _ => Ram.SamePage.refl next page) built.stands
    ⟨built.root_ne_table, newOwned built.rootNew child.refs_root_pos,
      newOwned built.tableNew child.refs_table_pos⟩ ?owned ?spaces ?sharers
  case owned =>
    intro page referenced
    by_cases taken : memory.ledger.Taken page
    · obtain ⟨pid, owned⟩ := shared page taken referenced
      exact ⟨pid, (Ledger.owner_charge_of_taken taken _ _).trans owned⟩
    · exact ⟨_, newOwned taken referenced⟩
  case spaces =>
    intro other
    rw [ProcessTable.process_put]
    split
    · rw [Process.ownSpace?, attached]
    · rfl
  case sharers =>
    have same := tasks.kernelSharers_put slot process
    rw [if_neg (by simp [unattached]), if_neg (by simp [attached])] at same
    exact same

/-- Attaching a vacant slot counts one reference more to the kernel's root, and nothing else. -/
theorem attachKernel (unattached : (tasks.process slot).space = none) :
    Standing books ⟨memory.ledger.charge .kernel (Pi.single books.kernelRoot 1), memory.ram⟩
      (tasks.attachKernel slot) where
  tidy := standing.tidy.charge (by simp) _
  kernelStands := standing.kernelStands
  kernelRootEntry := by
    have more := tasks.kernelSharers_put slot
      { tasks.process slot with frame := .user, space := some .kernel }
    rw [if_neg (by simp [unattached]), if_pos rfl, Nat.add_zero] at more
    rw [Ledger.entry_charge, Pi.single_eq_same, standing.kernelRootEntry,
      ProcessTable.attachKernel, more, PageInfo.charge]
    simp [Nat.add_assoc]
  kernelTableOwner := by
    rw [Ledger.owner_charge_of_taken standing.kernelTable_taken]
    exact standing.kernelTableOwner
  spaces other := by
    rw [← standing.spaces other, ProcessTable.attachKernel, ProcessTable.process_put]
    split
    · rename_i same
      rw [same, Process.ownSpace?, Process.ownSpace?, unattached]
    · rfl
  stands := standing.stands
  structureOwned slot view found := by
    rw [Ledger.owner_charge_of_taken (standing.taken_of_refs found view.refs_root_pos),
      Ledger.owner_charge_of_taken (standing.taken_of_refs found view.refs_table_pos)]
    exact standing.structureOwned slot view found
  processOwned slot view page found referenced := by
    rw [Ledger.owner_charge_of_taken (standing.taken_of_refs found referenced)]
    exact standing.processOwned slot view page found referenced

theorem vacated (vacant : tasks.vacantSlot (.ofIndex slot) = .ok slot) {next : Ram}
    (kept : ∀ page, memory.ledger.Taken page → Ram.SamePage memory.ram next page) :
    Standing books ⟨memory.ledger, next⟩ (tasks.put slot .vacant) := by
  obtain ⟨-, -, -, unattached⟩ := ProcessTable.vacantSlot_eq_ok_iff.mp vacant
  exact (standing.ram_congr kept).replace unattached.symm

/-! ## Calls -/

theorem still {console : Console} :
    StillStanding books.kernelRoot ⟨memory, tasks, console⟩ :=
  ⟨books, standing, rfl⟩

theorem untouched {console later : Console} :
    LeftStanding books.kernelRoot ⟨memory, tasks, console⟩ ⟨memory, tasks, later⟩ :=
  ⟨standing.still, .refl tasks⟩

theorem ensures_initProcess (pid : Pid) (console : Console) :
    (Resources.initProcess ⟨⟨.ofPage books.kernelRoot⟩, .kernel⟩ pid).Ensures
        ⟨memory, tasks, console⟩
      (fun _ => LeftStanding books.kernelRoot ⟨memory, tasks, console⟩)
      fun _ => LeftStanding books.kernelRoot ⟨memory, tasks, console⟩ := by
  cases vacant : tasks.vacantSlot pid with
  | error cause =>
      refine (Resources.initProcess_eq_error vacant).mono (fun _ _ impossible => impossible.elim) ?_
      rintro _ _ ⟨-, rfl⟩
      exact standing.untouched
  | ok slot =>
      obtain ⟨rfl, -, -, unattached⟩ := ProcessTable.vacantSlot_eq_ok_iff.mp vacant
      exact (ensures_of_eq_ok (Resources.initProcess_eq_ok standing.kernelRoot_taken
        standing.kernelRoot_room vacant .kernel)).mpr
          ⟨(standing.attachKernel unattached).still, .put rfl⟩

/-- A space that was set up consists of pages that were free. -/
theorem setUp (unattached : (tasks.process slot).space = none) {console : Console}
    {program : Nat} {programs : ProgramTable} {after : Resources} {image : ProgramImage}
    {child : SpaceView} {next : Ram}
    (isSetUp : Resources.SetUp program programs slot ⟨memory, tasks, console⟩ after image child
      next) :
    Standing (books.setSpace slot child) after.memory after.tasks := by
  have placing := isSetUp.painted.toPlacing
  rw [isSetUp.memory_eq, isSetUp.tasks_eq]
  refine standing.addSpace placing.built (fun page taken referenced => ?_) unattached rfl
  exact absurd taken (placing.untaken_of_refs referenced)

theorem ensures_setup (programs : ProgramTable) (pid : Pid) (program : Nat) (console : Console) :
    (Resources.setup ⟨⟨.ofPage books.kernelRoot⟩, .kernel⟩ programs pid program).Ensures
        ⟨memory, tasks, console⟩
      (fun _ => LeftStanding books.kernelRoot ⟨memory, tasks, console⟩)
      fun _ => LeftStanding books.kernelRoot ⟨memory, tasks, console⟩ := by
  cases vacant : tasks.vacantSlot pid with
  | error cause =>
      refine (Resources.ensures_setup_of_occupied vacant programs program).mono
        (fun _ _ impossible => impossible.elim) ?_
      rintro _ _ ⟨-, rfl⟩
      exact standing.untouched
  | ok slot =>
      obtain ⟨rfl, notReserved, isFree, unattached⟩ := ProcessTable.vacantSlot_eq_ok_iff.mp vacant
      apply (Resources.ensures_setup_of_vacant standing.tidy standing.kernelStands
        standing.kernelRoot_taken standing.kernelTable_taken standing.kernelRoot_room vacant
        programs program).mono
      · rintro _ after ⟨image, child, next, isSetUp⟩
        refine ⟨⟨_, standing.setUp unattached isSetUp, rfl⟩, ?_⟩
        rw [isSetUp.tasks_eq]
        exact .fill notReserved isFree rfl
      · rintro _ _ ⟨-, next, later, rfl, kept⟩
        exact ⟨(standing.vacated vacant kept).still, .put isFree.symm⟩

/-- A space gains a leaf, on a page that was free, by a word of its page table. -/
theorem addLeaf (found : books.space slot = some view) {place : Fin processPageCount}
    (vacant : view.leaf place = none) (untaken : ¬memory.ledger.Taken page) {next : Ram}
    (stands : (view.setLeaf place ⟨page, true⟩).Stands next)
    (kept : ∀ other, other ≠ page → other ≠ view.table → Ram.SamePage memory.ram next other) :
    Standing (books.setSpace slot (view.setLeaf place ⟨page, true⟩))
      ⟨memory.ledger.charge (.process (.ofIndex slot)) (Pi.single page 1), next⟩ tasks := by
  have apartFrom {held : Fin pageCount} (taken : memory.ledger.Taken held) : held ≠ page :=
    fun same => untaken (same ▸ taken)
  have charged := standing.charge (.ofIndex slot) (Pi.single page 1)
    (Pi.single_eq_of_ne (apartFrom standing.kernelRoot_taken) 1)
  refine charged.setSpace (view.setLeaf place ⟨page, true⟩) ?kept stands
    (charged.structureOwned slot view found) ?owned ?spaces rfl
  case kept =>
    exact fun held structural notTable =>
      kept held (apartFrom (standing.taken_of_structural structural)) notTable
  case owned =>
    intro held referenced
    rw [SpaceView.refs_setLeaf vacant, Pi.add_apply] at referenced
    by_cases isNew : held = page
    · refine ⟨.ofIndex slot, ?_⟩
      rw [isNew, Ledger.entry_charge_of_untaken untaken _ (Pi.single_eq_same page 1)]
    · rw [Pi.single_eq_of_ne isNew, Nat.add_zero] at referenced
      exact charged.processOwned slot view held found referenced
  case spaces =>
    intro other
    split
    · rename_i same
      rw [same, standing.ownSpace found]
      rfl
    · rfl

/-- A page that was allocated is a leaf of its caller's space. -/
theorem pageAllocated (found : books.space slot = some view) {console : Console}
    {argument : UInt32} {after : Resources} {place : Fin processPageCount}
    (allocated : Syscall.PageAllocated view (.process (.ofIndex slot)) argument
      ⟨memory, tasks, console⟩ after place page) :
    Standing (books.setSpace slot (view.setLeaf place ⟨page, true⟩)) after.memory after.tasks := by
  have untaken := allocated.nextFree.untaken
  have cleared {held : Fin pageCount} (referenced : 0 < view.refs held) :
      Ram.SamePage memory.ram (memory.ram.clear page) held :=
    Ram.samePage_clear_of_ne fun same =>
      untaken (same ▸ standing.taken_of_refs found referenced)
  have stands := ((standing.stands slot view found).congr (cleared view.refs_root_pos)
    (cleared view.refs_table_pos)).setLeaf (standing.structureOwned slot view found).1 place
      ⟨page, true⟩
  rw [allocated.memory_eq, allocated.tasks_eq]
  exact standing.addLeaf found allocated.vacant untaken stands fun other notPage notTable =>
    (Ram.samePage_clear_of_ne notPage).trans
      (Ram.samePage_setEntry_of_ne (placeNumber_lt place) notTable _)

theorem ensures_pageAlloc (caller : Pid) (argument : UInt32) (console : Console) :
    (Syscall.performPageAlloc caller argument).Ensures ⟨memory, tasks, console⟩
      (fun _ => LeftStanding books.kernelRoot ⟨memory, tasks, console⟩)
      fun _ => LeftStanding books.kernelRoot ⟨memory, tasks, console⟩ := by
  cases own : (tasks.get? caller).bind (·.ownSpace?) with
  | none =>
      refine (Syscall.ensures_pageAlloc_of_none own argument).mono
        (fun _ _ impossible => impossible.elim) ?_
      rintro _ _ rfl
      exact standing.untouched
  | some space =>
      obtain ⟨slot, view, rfl, found, rfl⟩ := standing.exists_caller own
      apply (Syscall.ensures_pageAlloc_of_stands own (standing.stands slot view found)
        standing.tidy (by simp) (standing.taken_of_refs found view.refs_root_pos)
        (standing.taken_of_refs found view.refs_table_pos) argument).mono
      · rintro _ after ⟨-, place, page, allocated⟩
        refine ⟨⟨_, standing.pageAllocated found allocated, rfl⟩, ?_⟩
        rw [allocated.tasks_eq]
        exact .refl tasks
      · rintro _ _ ⟨-, rfl⟩
        exact standing.untouched

/-- What a child shares with its parent belongs to a process. -/
theorem processOwned_of_inherited (found : books.space slot = some view) {child : SpaceView}
    {next : Ram}
    (inherited : InheritedBelow kernelWord memory.ledger memory.ram
      (fun place => (view.leaf place).map Leaf.mapping) processPageCount child next)
    (taken : memory.ledger.Taken page) (referenced : 0 < child.refs page) :
    ∃ pid, (memory.ledger.entry page).owner = .process pid := by
  have shared := Finset.card_le_card (view.sharedPlaces_subset page)
  rw [inherited.refs_of_taken taken] at referenced
  refine standing.processOwned slot view page found ?_
  rw [SpaceView.refs_apply]
  omega

/-- A fork adds the child's space or loses its pages, and either way the others stand. -/
theorem ensures_fork (caller : Pid) (console : Console) :
    (Syscall.performFork ⟨⟨.ofPage books.kernelRoot⟩, .kernel⟩ caller).Ensures
        ⟨memory, tasks, console⟩
      (fun _ => LeftStanding books.kernelRoot ⟨memory, tasks, console⟩)
      fun _ => LeftStanding books.kernelRoot ⟨memory, tasks, console⟩ := by
  by_cases none : tasks.firstFree? = none ∨ (tasks.get? caller).bind (·.ownSpace?) = none
  · refine (Syscall.ensures_fork_of_none none).mono (fun _ _ impossible => impossible.elim) ?_
    rintro _ _ rfl
    exact standing.untouched
  · rw [not_or] at none
    obtain ⟨pid, first⟩ := Option.ne_none_iff_exists'.mp none.1
    obtain ⟨space, own⟩ := Option.ne_none_iff_exists'.mp none.2
    obtain ⟨free, rfl, notReserved, isFree⟩ := ProcessTable.firstFree?_eq_some first
    obtain ⟨slot, view, rfl, found, rfl⟩ := standing.exists_caller own
    apply (Syscall.ensures_fork_of_stands standing.tidy standing.kernelStands
      standing.kernelRoot_taken standing.kernelTable_taken (ProcessTable.get?_ofIndex tasks slot)
      (standing.ownSpace found) (standing.stands slot view found)
      (fun page => standing.taken_of_refs found) first).mono
    · rintro _ ⟨_, _, _⟩ ⟨-, unattached, child, next, inherited, rfl, rfl⟩
      exact ⟨⟨_, standing.addSpace inherited.built
        (fun page => standing.processOwned_of_inherited found inherited) unattached rfl, rfl⟩,
        .fill notReserved isFree rfl⟩
    · rintro cause ⟨after, sameTasks, later⟩ ⟨rfl, left⟩
      cases left with
      | undone _ memory_eq kept =>
          obtain rfl := memory_eq
          exact ⟨(standing.ram_congr kept).still, .refl _⟩
      | stranded _ _ memory_eq inherited =>
          obtain rfl := memory_eq
          exact ⟨(standing.built inherited.built
            (fun page => standing.processOwned_of_inherited found inherited)
              (.ofIndex free)).still, .refl _⟩

theorem ensures_syscall (call : Syscall) (caller : Pid) (argument : UInt32) (console : Console) :
    (call.perform ⟨⟨.ofPage books.kernelRoot⟩, .kernel⟩ caller argument).Ensures
        ⟨memory, tasks, console⟩
      (fun _ => LeftStanding books.kernelRoot ⟨memory, tasks, console⟩)
      fun _ => LeftStanding books.kernelRoot ⟨memory, tasks, console⟩ := by
  cases call with
  | getPid => exact ensures_pure.mpr standing.untouched
  | pageAlloc => exact standing.ensures_pageAlloc caller argument console
  | fork => exact standing.ensures_fork caller console

/-- Whatever call is made, everything still stands. -/
theorem ensures_perform (programs : ProgramTable) (call : ProcessCall) (console : Console) :
    (call.perform ⟨⟨.ofPage books.kernelRoot⟩, .kernel⟩ programs).Ensures ⟨memory, tasks, console⟩
      (fun _ => LeftStanding books.kernelRoot ⟨memory, tasks, console⟩)
      fun _ => LeftStanding books.kernelRoot ⟨memory, tasks, console⟩ := by
  cases call with
  | init pid => exact ensures_mapCause.mpr (standing.ensures_initProcess pid console)
  | setup pid program =>
      exact ensures_mapCause.mpr (standing.ensures_setup programs pid program console)
  | pageAlloc caller argument =>
      exact ensures_bind.mpr ((standing.ensures_pageAlloc caller argument console).mono
        (fun _ _ held => ensures_pure.mpr held) fun _ _ held => held)
  | fork caller =>
      exact ensures_bind.mpr ((standing.ensures_fork caller console).mono
        (fun _ _ held => ensures_pure.mpr held) fun _ _ held => held)

end

end Standing

end PagingKernel
