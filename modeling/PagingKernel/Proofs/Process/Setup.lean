import PagingKernel.Process.Spawn
import PagingKernel.Proofs.Program.Placed
import PagingKernel.Proofs.Resources.Sound

/-!
# Creating processes keeps the resources sound

While a process is created its slot holds a reference to the kernel's root, so
the new space is built over a ledger with one reference more.  Afterwards the
reference is dropped, and what remains is the old ledger charged with the new
space, or the old ledger itself if the process was refused.  This needs of the
resources only that the kernel's directory stands, and what it means for sound
resources follows.

A refusal has a reason: the slot, the program, or too few free pages.
-/

namespace PagingKernel

open PageTable PagingKernel.Action

/-! ## Charging pages that are taken already -/

theorem Ledger.taken_charge_single_iff {ledger : Ledger} {owner : Owner} {held : Fin pageCount}
    (taken : ledger.Taken held) (page : Fin pageCount) :
    (ledger.charge owner (Pi.single held 1)).Taken page ↔ ledger.Taken page := by
  refine taken_charge_of_taken (fun other charged => ?_) page
  rw [eq_of_charged_single charged]
  exact taken

theorem Ledger.freePages_charge_single_of_taken {ledger : Ledger} {owner : Owner}
    {held : Fin pageCount} (taken : ledger.Taken held) :
    (ledger.charge owner (Pi.single held 1)).freePages = ledger.freePages := by
  rw [freePages_eq_card, freePages_eq_card]
  refine congrArg Finset.card (Finset.ext fun page => ?_)
  simp only [Finset.mem_filter, Finset.mem_univ, true_and, taken_charge_single_iff taken]

/-- A construction does not care how often the taken pages are referenced. -/
theorem BuiltOver.base_congr {low : Nat → UInt32} {base other : Ledger} {before ram : Ram}
    {view : SpaceView} (built : BuiltOver low base before view ram)
    (same : ∀ page, base.Taken page ↔ other.Taken page) : BuiltOver low other before view ram where
  stands := built.stands
  kept page taken := built.kept page ((same page).mpr taken)
  rootNew taken := built.rootNew ((same _).mpr taken)
  tableNew taken := built.tableNew ((same _).mpr taken)
  single page untaken := built.single page fun taken => untaken ((same page).mp taken)
  openedNew place leaf mapped writable taken :=
    built.openedNew place leaf mapped writable ((same _).mpr taken)

/-- Filling a space does not care how often the taken pages are referenced. -/
theorem Placing.base_congr {low : Nat → UInt32} {base other : Ledger} {before ram : Ram}
    {met : Finset (Fin processPageCount)} {view : SpaceView}
    (placing : Placing low base before met view ram)
    (same : ∀ page, base.Taken page ↔ other.Taken page) :
    Placing low other before met view ram where
  built := placing.built.base_congr same
  leavesNew place leaf mapped taken := placing.leavesNew place leaf mapped ((same _).mpr taken)
  mapped_subset := placing.mapped_subset

theorem Painted.base_congr {low : Nat → UInt32} {base other : Ledger} {before ram : Ram}
    {met : Finset (Fin processPageCount)} {picture : Picture} {view : SpaceView}
    (painted : Painted low base before met picture view ram)
    (same : ∀ page, base.Taken page ↔ other.Taken page) :
    Painted low other before met picture view ram where
  toPlacing := painted.toPlacing.base_congr same
  leaves := painted.leaves
  bytes := painted.bytes

theorem ProcessTable.put_put (tasks : ProcessTable) (slot : Fin slotCount)
    (first second : Process) : (tasks.put slot first).put slot second = tasks.put slot second := by
  refine ext_process fun other => ?_
  rw [process_put, process_put, process_put]
  split <;> rfl

/-- Pages that a process running a program takes at most: its space, its stack and the program. -/
def ProgramTable.needs (programs : ProgramTable) (program : Nat) : Nat :=
  (programs.image? program).elim 0 fun image => 3 + image.footprint.card

/-- The registers with which a program starts. -/
def ProgramImage.startFrame (image : ProgramImage) : TrapFrame :=
  { TrapFrame.user with
    eip := UInt32.ofNat image.entry.raw, esp := UInt32.ofNat virtualSize }

/-- What a process looks like that is about to run a program: the program, and a cleared stack. -/
def ProgramImage.processPicture (image : ProgramImage) : Picture :=
  image.picture.map stackPlace true

theorem ProgramImage.writable?_processPicture (image : ProgramImage)
    (place : Fin processPageCount) :
    image.processPicture.writable? place =
      if place = stackPlace then some true else image.picture.writable? place := by
  simp only [processPicture, Picture.map, Function.update_apply, Bool.true_or]

namespace Resources

variable {base : Ledger} {before ram : Ram} {tasks : ProcessTable} {console : Console}
  {view : SpaceView} {owner : Owner}

/-! ## Filling the space -/

/-- A space with new pages only, that looks like a process about to run a program. -/
def Filled (base : Ledger) (before : Ram) (image : ProgramImage) (owner : Owner)
    (tasks : ProcessTable) (space : AddressSpace) (resources : Resources) : Prop :=
  ∃ view next console, space = view.space owner ∧
    resources = ⟨⟨base.charge owner view.refs, next⟩, tasks, console⟩ ∧
    Painted kernelWord base before (insert stackPlace image.footprint) image.processPicture view
      next

/-- Resources in which a space has new pages, and nothing else has changed. -/
def Unfilled (base : Ledger) (before : Ram) (owner : Owner) (tasks : ProcessTable)
    (space : AddressSpace) (resources : Resources) : Prop :=
  resources.tasks = tasks ∧ Begun kernelWord base before owner space resources.memory

variable {image : ProgramImage}

/-- There are too few free pages for a program and its stack, or the program is not acceptable. -/
def TooMuch (base : Ledger) (image : ProgramImage) : Prop :=
  image.validate = .ok () → base.freePages < 3 + image.footprint.card

theorem erase_subset_insert (image : ProgramImage) :
    image.footprint.erase stackPlace ⊆ insert stackPlace image.footprint :=
  (Finset.erase_subset _ _).trans (Finset.subset_insert _ _)

theorem painted_wider {picture : Picture}
    (painted : Painted kernelWord base before (image.footprint.erase stackPlace) picture view ram) :
    Painted kernelWord base before (insert stackPlace image.footprint) picture view ram :=
  ⟨⟨painted.built, painted.leavesNew, painted.mapped_subset.trans (erase_subset_insert image)⟩,
    painted.leaves, painted.bytes⟩

/-- A program and its stack are placed in a new space, unless that is too much. -/
theorem ensures_populate (image : ProgramImage) (built : Built base before view ram)
    (vacant : ∀ place, view.leaf place = none) (tidy : base.Tidy) (owned : owner ≠ .free) :
    (populate image (view.space owner)).Ensures ⟨⟨base.charge owner view.refs, ram⟩, tasks, console⟩
      (fun entry resources => entry = image.entry ∧ image.validate = .ok () ∧
        Filled base before image owner tasks (view.space owner) resources)
      fun _ resources => TooMuch base image ∧
        Unfilled base before owner tasks (view.space owner) resources := by
  simp only [populate, loadProgram, ensures_bind, ensures_mapCause, ensures_onMemory,
    ensures_report, ensures_pure]
  apply (image.ensures_place built vacant tidy owned).mono
  · rintro _ _ ⟨rfl, accepted, child, next, sameSpace, -, rfl, painted⟩
    have noStack : child.leaf stackPlace = none := by
      by_contra mapped
      have listed := painted.mapped_subset
        (SpaceView.mem_mapped.mpr (Option.isSome_iff_ne_none.mpr mapped))
      exact absurd rfl (Finset.ne_of_mem_erase listed)
    have clear := Picture.clear_ofSegments (ProgramImage.validate_eq_ok_iff.mp accepted).1
    rw [sameSpace, ← ofPage_stackPlace]
    apply (painted.built.ensures_mapFresh tidy owned noStack true).mono
    · rintro _ _ ⟨page, last, rfl, new, rfl, withStack, cleared⟩
      exact ⟨rfl, accepted, child.setLeaf stackPlace ⟨page, true⟩, last, _, rfl, rfl,
        (painted_wider painted).addLeaf clear noStack new (Finset.mem_insert_self ..) withStack
          cleared⟩
    · rintro _ _ ⟨reason, rfl, exhausted, rfl⟩
      have bound := SpaceView.freePages_le base owner child
      have fewer := Finset.card_le_card painted.mapped_subset
      have smaller : (image.footprint.erase stackPlace).card ≤ image.footprint.card :=
        Finset.card_erase_le
      rw [exhausted.freePages_eq] at bound
      exact ⟨fun _ => by omega, rfl, child, next, rfl, rfl, painted.built⟩
  · rintro cause _ ⟨reason, begun⟩
    refine ⟨fun accepted => ?_, rfl, begun⟩
    rcases reason with invalid | ⟨-, short⟩
    · rw [accepted] at invalid
      cases invalid
    · omega

/-! ## Building the space -/

/-- A space is built for a program, or everything that was taken for it is given back. -/
theorem ensures_buildSpace {kernelRoot kernelTable : Fin pageCount}
    (kernel : ram.Spans kernelRoot kernelTable kernelWord) (rootTaken : base.Taken kernelRoot)
    (tableTaken : base.Taken kernelTable) (tidy : base.Tidy) (programs : ProgramTable) (pid : Pid)
    (program : Nat) :
    (buildSpace ⟨⟨.ofPage kernelRoot⟩, .kernel⟩ programs pid program).Ensures
        ⟨⟨base, ram⟩, tasks, console⟩
      (fun built resources => ∃ image, programs.image? program = some image ∧
        image.validate = .ok () ∧ built.2 = image.entry ∧
        Filled base ram image (.process pid) tasks built.1 resources)
      fun _ resources =>
        (∀ image, programs.image? program = some image → TooMuch base image) ∧
        ∃ next later, resources = ⟨⟨base, next⟩, tasks, later⟩ ∧
          ∀ page, base.Taken page → Ram.SamePage ram next page := by
  have owned : Owner.process pid ≠ .free := by simp
  rw [buildSpace, ensures_bind]
  cases found : programs.image? program with
  | none =>
      refine ensures_require_none.mpr
        ⟨fun _ impossible => (by cases impossible), ram, console, rfl, ?_⟩
      exact fun page _ => Ram.SamePage.refl ram page
  | some image =>
      rw [ensures_require_some, ensures_bind, ensures_mapCause, ensures_onMemory]
      apply (AddressSpace.ensures_ofTemplate tidy kernel rootTaken tableTaken pid).mono
      · rintro _ _ ⟨view, first, rfl, blank, rfl, built⟩
        rw [ensures_bind, ensures_onRefusal]
        apply (ensures_populate image built blank.vacant tidy owned).mono
        · rintro entry resources ⟨isEntry, accepted, filled⟩
          exact ensures_pure.mpr ⟨image, rfl, accepted, isEntry, filled⟩
        · rintro _ ⟨_, _, later⟩ ⟨tooMuch, rfl, child, next, same, rfl, begun⟩
          rw [same, ensures_mapCause, ensures_onMemory]
          apply (ensures_of_eq_ok (begun.stands.release_eq_ok tidy)).mpr
          refine ⟨fun other isImage => ?_, next, later, rfl, begun.kept⟩
          obtain rfl := Option.some.inj isImage
          exact tooMuch
      · rintro _ _ ⟨rfl, short, next, rfl, kept⟩
        exact ⟨fun other _ _ => by omega, next, console, rfl, kept⟩

/-! ## Holding a reference to the kernel's root -/

section Attaching

variable {ledger : Ledger} {kernelRoot kernelTable : Fin pageCount} {slot : Fin slotCount}

/-- A vacant slot is attached to the kernel's own space, whose root gains a reference. -/
theorem initProcess_eq_ok (rootTaken : ledger.Taken kernelRoot)
    (room : (ledger.entry kernelRoot).refcount < refcountLimit)
    (vacant : tasks.vacantSlot (.ofIndex slot) = .ok slot) (owner : Owner) :
    initProcess ⟨⟨.ofPage kernelRoot⟩, .kernel⟩ (.ofIndex slot) ⟨⟨ledger, ram⟩, tasks, console⟩ =
      .ok () ⟨⟨ledger.charge owner (Pi.single kernelRoot 1), ram⟩, tasks.attachKernel slot,
        console⟩ := by
  apply eq_ok_of_ensures
  rw [initProcess, ensures_bind, ensures_get, ensures_bind, vacant, ensures_ofExcept_ok,
    ensures_bind, ensures_mapCause, ensures_onMemory]
  apply (Memory.ensures_share rootTaken owner).mono
  · rintro _ _ ⟨-, rfl⟩
    exact ensures_modifyTasks.mpr ⟨rfl, rfl⟩
  · rintro _ _ ⟨-, full, -⟩
    omega

theorem initProcess_eq_error {kernel : AddressSpace} {pid : Pid} {cause : SpawnError}
    {start : Resources} (occupied : start.tasks.vacantSlot pid = .error cause) :
    (initProcess kernel pid).Ensures start (fun _ _ => False)
      fun reason stop => reason = cause ∧ stop = start := by
  rw [initProcess, ensures_bind, ensures_get, ensures_bind, occupied, ensures_ofExcept_error]
  exact ⟨rfl, rfl⟩

theorem detachKernel_eq_ok (tidy : ledger.Tidy) (kernelRoot : Fin pageCount)
    (rest : Fin pageCount → Nat) :
    detachKernel ⟨⟨.ofPage kernelRoot⟩, .kernel⟩
        ⟨⟨ledger.charge owner (rest + Pi.single kernelRoot 1), ram⟩, tasks, console⟩ =
      .ok () ⟨⟨ledger.charge owner rest, ram⟩, tasks, console⟩ := by
  apply eq_ok_of_ensures
  rw [detachKernel, ensures_bind, ensures_mapCause, ensures_onMemory]
  apply (ensures_of_eq_ok (Memory.release_eq_ok tidy rest)).mpr
  exact ensures_pure.mpr ⟨rfl, rfl⟩

end Attaching

/-! ## Creating a process -/

/-- A process that is about to run a program for the first time. -/
def started (image : ProgramImage) (space : AddressSpace) : Process :=
  ⟨.runnable, image.startFrame, some (.own space)⟩

/-- A setup put a program that runs from its entry on into a slot, and took new pages only. -/
structure SetUp (program : Nat) (programs : ProgramTable) (slot : Fin slotCount)
    (before after : Resources) (image : ProgramImage) (child : SpaceView) (next : Ram) : Prop where
  image_eq : programs.image? program = some image
  accepted : image.validate = .ok ()
  painted : Painted kernelWord before.memory.ledger before.memory.ram
    (insert stackPlace image.footprint) image.processPicture child next
  memory_eq : after.memory =
    ⟨before.memory.ledger.charge (.process (.ofIndex slot)) child.refs, next⟩
  tasks_eq : after.tasks =
    before.tasks.put slot (started image (child.space (.process (.ofIndex slot))))

/-- A process is created in a vacant slot, or the slot is vacant again and the ledger as before. -/
theorem ensures_setup_of_vacant {ledger : Ledger} {kernelRoot kernelTable : Fin pageCount}
    {slot : Fin slotCount} (tidy : ledger.Tidy)
    (kernel : ram.Spans kernelRoot kernelTable kernelWord) (rootTaken : ledger.Taken kernelRoot)
    (tableTaken : ledger.Taken kernelTable)
    (room : (ledger.entry kernelRoot).refcount < refcountLimit)
    (vacant : tasks.vacantSlot (.ofIndex slot) = .ok slot) (programs : ProgramTable)
    (program : Nat) :
    (setup ⟨⟨.ofPage kernelRoot⟩, .kernel⟩ programs (.ofIndex slot) program).Ensures
        ⟨⟨ledger, ram⟩, tasks, console⟩
      (fun _ resources => ∃ image child next,
        SetUp program programs slot ⟨⟨ledger, ram⟩, tasks, console⟩ resources image child next)
      fun _ resources =>
        (∀ image, programs.image? program = some image → TooMuch ledger image) ∧
        ∃ next later, resources = ⟨⟨ledger, next⟩, tasks.put slot .vacant, later⟩ ∧
          ∀ page, ledger.Taken page → Ram.SamePage ram next page := by
  have owned : Owner.process (.ofIndex slot) ≠ .free := by simp
  have same (page : Fin pageCount) : (ledger.charge (.process (.ofIndex slot))
      (Pi.single kernelRoot 1)).Taken page ↔ ledger.Taken page :=
    Ledger.taken_charge_single_iff rootTaken page
  rw [setup, ensures_bind]
  apply (ensures_of_eq_ok
    (initProcess_eq_ok rootTaken room vacant (.process (.ofIndex slot)))).mpr
  rw [ensures_bind, ensures_onRefusal]
  refine (ensures_buildSpace kernel (rootTaken.charge _ _) (tableTaken.charge _ _)
    (tidy.charge owned _) programs (.ofIndex slot) program).mono ?_ ?_
  · rintro ⟨space, entry⟩ _
      ⟨image, isImage, accepted, isEntry, child, next, later, rfl, rfl, painted⟩
    obtain rfl : entry = image.entry := isEntry
    rw [Ledger.charge_charge, add_comm, ensures_bind]
    apply (ensures_of_eq_ok (detachKernel_eq_ok tidy kernelRoot child.refs)).mpr
    rw [ensures_bind, ensures_modifyTasks, ensures_report, ProcessTable.modify_ofIndex,
      ProcessTable.attachKernel, ProcessTable.put_put, ProcessTable.process_put_self]
    exact ⟨image, child, next, isImage, accepted, painted.base_congr same, rfl, rfl⟩
  · rintro _ _ ⟨tooMuch, next, later, rfl, kept⟩
    have rootAlone : (Pi.single kernelRoot 1 : Fin pageCount → Nat) =
      0 + Pi.single kernelRoot 1 := (zero_add _).symm
    rw [rootAlone, ensures_bind]
    apply (ensures_of_eq_ok (detachKernel_eq_ok tidy kernelRoot 0)).mpr
    rw [Ledger.charge_zero, ensures_modifyTasks, ProcessTable.modify_ofIndex,
      ProcessTable.attachKernel, ProcessTable.put_put]
    refine ⟨fun image isImage accepted => ?_, next, later, rfl, fun page taken =>
      kept page (taken.charge _ _)⟩
    have short := tooMuch image isImage accepted
    rw [Ledger.freePages_charge_single_of_taken rootTaken] at short
    exact short

theorem ensures_setup_of_occupied {kernel : AddressSpace} {pid : Pid} {cause : SpawnError}
    {start : Resources} (occupied : start.tasks.vacantSlot pid = .error cause)
    (programs : ProgramTable) (program : Nat) :
    (setup kernel programs pid program).Ensures start (fun _ _ => False)
      fun reason stop => reason = cause ∧ stop = start := by
  rw [setup, ensures_bind]
  exact (initProcess_eq_error occupied).mono (fun _ _ impossible => impossible.elim)
    fun _ _ held => held

/-! ## Creating a process in sound resources -/

/-- A process that can run was created in a vacant slot, and took no more than it needs. -/
structure Created (boot : Ledger) (books : Books) (programs : ProgramTable) (pid : Pid)
    (program : Nat) (before after : Resources) (slot : Fin slotCount) (image : ProgramImage)
    (child : SpaceView) : Prop where
  vacant : before.tasks.vacantSlot pid = .ok slot
  image_eq : programs.image? program = some image
  tasks_eq : after.tasks =
    before.tasks.put slot (started image (child.space (.process (.ofIndex slot))))
  sound : Sound boot (books.setSpace slot child) after.memory after.tasks
  freePages_le : before.memory.ledger.freePages ≤
    after.memory.ledger.freePages + programs.needs program

/-- A process was not created, for want of a slot, of a program or of memory. -/
def Denied (boot : Ledger) (books : Books) (programs : ProgramTable) (pid : Pid) (program : Nat)
    (before after : Resources) : Prop :=
  ((∀ slot, before.tasks.vacantSlot pid ≠ .ok slot) ∨
    ∀ image, programs.image? program = some image → TooMuch before.memory.ledger image) ∧
  after.memory.ledger = before.memory.ledger ∧ Sound boot books after.memory after.tasks

variable {boot : Ledger} {books : Books} {memory : Memory}

/-- New pages only: the space that fills a slot is referred to by nothing that was there. -/
theorem sound_of_placing (sound : Sound boot books memory tasks) {slot : Fin slotCount}
    (vacant : tasks.vacantSlot (.ofIndex slot) = .ok slot) {child : SpaceView} {next : Ram}
    {met : Finset (Fin processPageCount)}
    (placing : Placing kernelWord memory.ledger memory.ram met child next)
    {process : Process} (inUse : process.state ≠ .free)
    (attached : process.space = some (.own (child.space (.process (.ofIndex slot))))) :
    Sound boot (books.setSpace slot child)
      ⟨memory.ledger.charge (.process (.ofIndex slot)) child.refs, next⟩
      (tasks.put slot process) := by
  obtain ⟨-, notReserved, free, -⟩ := ProcessTable.vacantSlot_eq_ok_iff.mp vacant
  have unreferenced (page : Fin pageCount) (taken : memory.ledger.Taken page) :
      ¬0 < child.refs page := fun referenced => placing.untaken_of_refs referenced taken
  refine sound.addSpace ((sound.live slot).mp free) notReserved placing.built (fun page => ?_)
    (fun page taken referenced => absurd referenced (unreferenced page taken)) inUse attached
  by_cases taken : memory.ledger.Taken page
  · have none := unreferenced page taken
    omega
  · exact placing.built.single page taken

/-- Clearing the registers of a vacant slot, as a refusal does, does not matter to soundness. -/
theorem sound_of_vacated (sound : Sound boot books memory tasks) {slot : Fin slotCount}
    (vacant : tasks.vacantSlot (.ofIndex slot) = .ok slot) :
    Sound boot books memory (tasks.put slot .vacant) := by
  obtain ⟨-, -, free, noSpace⟩ := ProcessTable.vacantSlot_eq_ok_iff.mp vacant
  exact sound.replace (iff_of_true rfl free) noSpace.symm

theorem SetUp.created {program : Nat} {programs : ProgramTable} {slot : Fin slotCount}
    {after : Resources} {image : ProgramImage} {child : SpaceView} {next : Ram}
    (isSetUp : SetUp program programs slot ⟨memory, tasks, console⟩ after image child next)
    (sound : Sound boot books memory tasks)
    (vacant : tasks.vacantSlot (.ofIndex slot) = .ok slot) :
    Created boot books programs (.ofIndex slot) program ⟨memory, tasks, console⟩ after slot image
      child where
  vacant := vacant
  image_eq := isSetUp.image_eq
  tasks_eq := isSetUp.tasks_eq
  sound := by
    rw [isSetUp.memory_eq, isSetUp.tasks_eq]
    exact sound_of_placing sound vacant isSetUp.painted.toPlacing (by simp [started]) rfl
  freePages_le := by
    have used := SpaceView.freePages_le memory.ledger (.process (.ofIndex slot)) child
    have fewer := Finset.card_le_card isSetUp.painted.mapped_subset
    have places := Finset.card_insert_le stackPlace image.footprint
    rw [isSetUp.memory_eq, ProgramTable.needs, isSetUp.image_eq, Option.elim_some]
    dsimp only
    omega

/-- A process is created, or the ledger is as it was and the slot is vacant. -/
theorem ensures_setup (sound : Sound boot books memory tasks) (programs : ProgramTable) (pid : Pid)
    (program : Nat) :
    (setup ⟨⟨.ofPage books.kernelRoot⟩, .kernel⟩ programs pid program).Ensures
        ⟨memory, tasks, console⟩
      (fun _ resources => ∃ slot image child, Created boot books programs pid program
        ⟨memory, tasks, console⟩ resources slot image child)
      fun _ resources => Denied boot books programs pid program ⟨memory, tasks, console⟩
        resources := by
  have balanced := sound.balanced
  cases vacant : tasks.vacantSlot pid with
  | error cause =>
      refine (ensures_setup_of_occupied vacant programs
        program).mono (fun _ _ impossible => impossible.elim) ?_
      rintro _ _ ⟨-, rfl⟩
      refine ⟨.inl fun slot impossible => ?_, rfl, sound⟩
      cases vacant.symm.trans impossible
  | ok slot =>
      obtain ⟨rfl, -⟩ := ProcessTable.vacantSlot_eq_ok_iff.mp vacant
      have room : (memory.ledger.entry books.kernelRoot).refcount < refcountLimit := by
        rw [balanced.kernelRootEntry]
        decide
      apply (ensures_setup_of_vacant balanced.tidy sound.kernelStands balanced.kernelRoot_taken
        balanced.kernelTable_taken room vacant programs program).mono
      · rintro _ resources ⟨image, child, next, isSetUp⟩
        exact ⟨slot, image, child, isSetUp.created sound vacant⟩
      · rintro _ _ ⟨tooMuch, next, later, rfl, kept⟩
        refine ⟨.inr tooMuch, rfl, ?_⟩
        exact sound_of_vacated (sound.ram_congr fun page structural =>
          kept page (sound.balanced.taken_of_structural structural)) vacant

end Resources

end PagingKernel
