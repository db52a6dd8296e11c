import PagingKernel.Consistency.Check
import PagingKernel.Proofs.Resources.Attached

/-!
# Sound resources pass the consistency check

The check looks at the structural pages and at the owners of pages, so it
follows from soundness, also where slots are attached to the kernel's own space;
the converse does not hold, as the check looks at no leaf.
-/

namespace PagingKernel.Consistency

variable {boot bare : Ledger} {books : Books} {memory : Memory} {tasks : ProcessTable}
  {root table page : Fin pageCount} {owner : Owner}

theorem bind_eq_ok_iff {ε : Type} {first : Except ε Unit} {later : Unit → Except ε Unit} :
    (first >>= later) = .ok () ↔ first = .ok () ∧ later () = .ok () := by
  cases first with
  | ok value =>
      cases value
      exact (and_iff_right rfl).symm
  | error cause =>
      constructor
      · intro impossible
        cases impossible
      · rintro ⟨impossible, -⟩
        cases impossible

theorem forM_eq_ok_iff {α ε : Type} {act : α → Except ε Unit} {members : List α} :
    members.forM act = .ok () ↔ ∀ member ∈ members, act member = .ok () := by
  induction members with
  | nil => exact iff_of_true rfl fun _ impossible => by cases impossible
  | cons head tail ih =>
      change (act head >>= fun _ => tail.forM act) = .ok () ↔ _
      rw [bind_eq_ok_iff, ih, List.forall_mem_cons]

theorem checkPage_eq_ok {count : Nat} (kind : DirectoryKind)
    (entry : memory.ledger.entry page = ⟨owner, count⟩) :
    checkPage memory kind (.ofPage page) owner count = .ok () := by
  have found : memory.ledger.info (.ofPage page) = .ok ⟨owner, count⟩ := by
    rw [Ledger.info, Ledger.pageNumber_ofPage, ← entry]
    rfl
  simp [checkPage, found]

/-- A directory that stands in memory passes if the ledger says whose its two pages are. -/
theorem checkDirectory_eq_ok {words : Nat → UInt32} {rootCount : Nat} (kind : DirectoryKind)
    (spans : memory.ram.Spans root table words)
    (rootEntry : memory.ledger.entry root = ⟨owner, rootCount⟩)
    (tableEntry : memory.ledger.entry table = ⟨owner, 1⟩) :
    checkDirectory memory ⟨.ofPage root⟩ kind owner rootCount = .ok () := by
  rw [checkDirectory, checkPage_eq_ok kind rootEntry, spans.tables_eq]
  refine forM_eq_ok_iff.mpr fun member listed => ?_
  obtain rfl := List.mem_singleton.mp listed
  exact congrArg (Except.mapError _) (checkPage_eq_ok kind tableEntry)

section

variable (apart : SoundApart boot books bare memory tasks)

include apart

theorem checkProcess_eq_ok (slot : Fin slotCount) :
    checkProcess memory (.ofIndex slot) (tasks.process slot) = .ok () := by
  have balanced := apart.sound.balanced
  unfold checkProcess
  split
  · rfl
  · rename_i inUse
    obtain ⟨view, found⟩ := Option.ne_none_iff_exists'.mp fun vacant =>
      inUse ((apart.live slot).mpr vacant)
    have entry (page : Fin pageCount) (isPrivate : view.Private page) :
        memory.ledger.entry page = ⟨.process (.ofIndex slot), 1⟩ := by
      have notRoot : page ≠ books.kernelRoot := by
        rintro rfl
        exact absurd isPrivate.refs_pos (by rw [balanced.refs_kernelRoot found]; decide)
      rw [apart.entry_of_ne notRoot, balanced.privateEntry slot view page found isPrivate]
    have stands : memory.ram.Spans view.root view.table view.word :=
      apart.sound.stands slot view found
    rw [apart.ownSpace found]
    exact checkDirectory_eq_ok _ stands (entry _ (.inl rfl))
      (entry _ (.inr (.inl rfl)))

/-- Whoever a page is charged to is alive. -/
theorem checkEntry_eq_ok (page : Fin pageCount) :
    checkEntry tasks (.ofPage page) (memory.ledger.entry page) = .ok () := by
  have tidy := apart.tidy page
  have agrees : (memory.ledger.entry page).isFree =
      decide ((memory.ledger.entry page).owner = .free) := by
    rw [PageInfo.isFree, decide_eq_decide, tidy, Ledger.Taken, not_not]
  rw [checkEntry, agrees, if_neg (by simp)]
  cases owned : (memory.ledger.entry page).owner with
  | process pid =>
      have notRoot : page ≠ books.kernelRoot := by
        rintro rfl
        rw [apart.kernelRootEntry] at owned
        cases owned
      rw [apart.entry_of_ne notRoot] at owned
      obtain ⟨slot, view, rfl, found⟩ := apart.sound.balanced.living page pid owned
      have inUse : (tasks.process slot).state ≠ .free := by
        rw [Ne, apart.live slot, found]
        simp
      simp [isLive, inUse]
  | free => rfl
  | reserved => rfl
  | kernel => rfl

/-- The check finds nothing wrong with resources that are sound apart from attached slots. -/
theorem check_eq_ok_of_apart :
    check memory ⟨⟨.ofPage books.kernelRoot⟩, .kernel⟩ tasks = .ok () := by
  have unused : (tasks.process ProcessTable.reservedSlot).state = .free :=
    (apart.live _).mpr apart.sound.reserved
  have tableEntry : memory.ledger.entry books.kernelTable = ⟨.kernel, 1⟩ := by
    rw [apart.entry_of_ne apart.sound.balanced.kernelTable_ne_kernelRoot,
      apart.sound.balanced.kernelTableEntry]
  have stands : memory.ram.Spans books.kernelRoot books.kernelTable kernelWord :=
    apart.sound.kernelStands
  rw [check, if_neg (by simp [unused])]
  refine bind_eq_ok_iff.mpr ⟨checkDirectory_eq_ok _ stands apart.kernelRootEntry tableEntry,
    bind_eq_ok_iff.mpr ⟨forM_eq_ok_iff.mpr ?processes, ?pages⟩⟩
  case processes =>
    intro member listed
    obtain ⟨slot, -, rfl⟩ := List.mem_map.mp listed
    exact checkProcess_eq_ok apart slot
  case pages =>
    refine forM_eq_ok_iff.mpr fun page _ => ?_
    exact congrArg (Except.mapError _) (checkEntry_eq_ok apart page)

end

/-- The check finds nothing wrong with sound resources. -/
theorem check_eq_ok (sound : Sound boot books memory tasks) :
    check memory ⟨⟨.ofPage books.kernelRoot⟩, .kernel⟩ tasks = .ok () :=
  check_eq_ok_of_apart (.of_sound sound)

/-- The check finds the reserved slot in use before it looks at anything else. -/
theorem check_eq_error {kernel : AddressSpace}
    (inUse : (tasks.process ProcessTable.reservedSlot).state ≠ .free) :
    check memory kernel tasks = .error (.refused .reservedSlotInUse) := by
  rw [check, if_pos inUse]
  rfl

/-- The check finds every page that is charged to a process that is not alive. -/
theorem isLive_of_check {kernel : AddressSpace} {pid : Pid}
    (passed : check memory kernel tasks = .ok ())
    (owned : (memory.ledger.entry page).owner = .process pid) : isLive tasks pid = true := by
  rw [check] at passed
  split at passed
  · cases passed
  · obtain ⟨-, later⟩ := bind_eq_ok_iff.mp passed
    obtain ⟨-, pages⟩ := bind_eq_ok_iff.mp later
    have here := forM_eq_ok_iff.mp pages page (List.mem_finRange page)
    unfold checkEntry at here
    split at here
    · cases here
    · simp only [owned] at here
      split at here
      · assumption
      · cases here

end PagingKernel.Consistency
