import PagingKernel.Proofs.Consistency.Check

/-!
# What the consistency check decides

The check runs on whatever memory, directories and process table there are, and
memory may hold anything.  `Consistent` tells without regard to the check what it
is meant to find out, and `InvariantViolation.Describes` what each violation
tells about the state.  The check never faults: it passes exactly if the state is
consistent, and otherwise it answers with something that is true.

The directories are examined one after another, and page after page, so each
part of the check is described by what it settles (`Settles`), and what it
settles may be relied upon by the parts after it.
-/

namespace PagingKernel

open PageTable

/-- A present entry of the directory refers to the page at `pa`. -/
def Directory.RefersTo (dir : Directory) (ram : Ram) (pa : PhysAddr) : Prop :=
  ∃ root : Fin pageCount, dir.root = .ofPage root ∧
    ∃ slot < entryCount, ∃ mapping, decodeEntry (ram.entry root slot) = some mapping ∧
      mapping.pa = pa

namespace Consistency

/-! ## Consistent states -/

/-- There is a page of physical memory at `pa`, with this owner and so many references. -/
def Holds (memory : Memory) (pa : PhysAddr) (owner : Owner) (refcount : Nat) : Prop :=
  ∃ page : Fin pageCount, pa = .ofPage page ∧ memory.ledger.entry page = ⟨owner, refcount⟩

/-- The slots that are attached to the kernel's own space. -/
def attachedSlots (tasks : ProcessTable) : Finset (Fin slotCount) :=
  Finset.univ.filter fun slot => (tasks.process slot).space = some .kernel

/-- The directories that are examined, each with its owner and the references to its root. -/
inductive Examined (kernel : AddressSpace) (tasks : ProcessTable) :
    DirectoryKind → Directory → Owner → Nat → Prop
  /-- The kernel's own directory is referred to once for itself and once for each attached slot. -/
  | kernel : Examined kernel tasks .kernel kernel.dir .kernel (1 + (attachedSlots tasks).card)
  /-- The directory of a process that is there is referred to by the process alone. -/
  | process {slot : Fin slotCount} {space : AddressSpace}
      (live : (tasks.process slot).state ≠ .free)
      (own : (tasks.process slot).space = some (.own space)) :
      Examined kernel tasks (.process (.ofIndex slot)) space.dir (.process (.ofIndex slot)) 1

/-- The pages that a directory is made of, and how many references each may have. -/
inductive Part (memory : Memory) (dir : Directory) (rootCount : Nat) : PhysAddr → Nat → Prop
  | root : Part memory dir rootCount dir.root rootCount
  | table {pa : PhysAddr} (refers : dir.RefersTo memory.ram pa) : Part memory dir rootCount pa 1

/-- The root of a directory and all that its present entries refer to belong to its owner. -/
def Fits (memory : Memory) (dir : Directory) (owner : Owner) (rootCount : Nat) : Prop :=
  ∀ pa count, Part memory dir rootCount pa count → Holds memory pa owner count

/-- The ledger, the process table and the directories fit together. -/
structure Consistent (memory : Memory) (kernel : AddressSpace) (tasks : ProcessTable) : Prop where
  reserved_free : (tasks.process ProcessTable.reservedSlot).state = .free
  directories_fit : ∀ kind dir owner rootCount, Examined kernel tasks kind dir owner rootCount →
    Fits memory dir owner rootCount
  free_iff : ∀ page, (memory.ledger.entry page).refcount = 0 ↔
    (memory.ledger.entry page).owner = .free
  owner_live : ∀ page pid, (memory.ledger.entry page).owner = .process pid →
    ∃ slot : Fin slotCount, pid = .ofIndex slot ∧ (tasks.process slot).state ≠ .free

end Consistency

open Consistency in
/-- What a violation tells about the state. -/
def InvariantViolation.Describes (memory : Memory) (kernel : AddressSpace)
    (tasks : ProcessTable) : InvariantViolation → Prop
  | reservedSlotInUse => (tasks.process ProcessTable.reservedSlot).state ≠ .free
  | owner kind pa expected found => found ≠ expected ∧
      (∃ dir rootCount count, Examined kernel tasks kind dir expected rootCount ∧
        Part memory dir rootCount pa count) ∧
      ∃ page : Fin pageCount, pa = .ofPage page ∧ (memory.ledger.entry page).owner = found
  | refcount kind pa expected found => found ≠ expected ∧
      ∃ dir owner rootCount, Examined kernel tasks kind dir owner rootCount ∧
        Part memory dir rootCount pa expected ∧ Holds memory pa owner found
  | orphan pa pid =>
      (∃ page : Fin pageCount, pa = .ofPage page ∧
        (memory.ledger.entry page).owner = .process pid) ∧
      ∀ slot : Fin slotCount, pid = .ofIndex slot → (tasks.process slot).state = .free
  | freeMismatch pa => ∃ page : Fin pageCount, pa = .ofPage page ∧
      ¬((memory.ledger.entry page).refcount = 0 ↔ (memory.ledger.entry page).owner = .free)
  | badPage kind pa =>
      (∃ dir owner rootCount count, Examined kernel tasks kind dir owner rootCount ∧
        Part memory dir rootCount pa count) ∧
      ∀ page : Fin pageCount, pa ≠ .ofPage page

namespace Consistency

/-! ## Parts of the check -/

/-- Whether something fits is settled: it does, or a violation tells what is true. -/
inductive Settles (fits : Prop) (tells : InvariantViolation → Prop) :
    Except (Failure InvariantViolation) Unit → Prop
  | passed (held : fits) : Settles fits tells (.ok ())
  | refused {violation : InvariantViolation} (failed : ¬fits) (told : tells violation) :
      Settles fits tells (.error (.refused violation))

section Settles

variable {tells : InvariantViolation → Prop} {fits fitsLater fitsToo : Prop}

theorem Settles.congr {outcome : Except (Failure InvariantViolation) Unit}
    (settles : Settles fits tells outcome) (same : fits ↔ fitsToo) :
    Settles fitsToo tells outcome := by
  rw [← propext same]
  exact settles

/-- What is settled first may be relied upon later. -/
theorem Settles.bind {first later : Except (Failure InvariantViolation) Unit}
    (settles : Settles fits tells first) (settlesLater : fits → Settles fitsLater tells later) :
    Settles (fits ∧ fitsLater) tells (first >>= fun _ => later) := by
  cases settles with
  | passed held => exact (settlesLater held).congr (and_iff_right held).symm
  | refused failed told => exact .refused (fun both => failed both.1) told

theorem settles_forM {α : Type} {act : α → Except (Failure InvariantViolation) Unit}
    {Fit : α → Prop} {members : List α}
    (settles : ∀ member ∈ members, Settles (Fit member) tells (act member)) :
    Settles (∀ member ∈ members, Fit member) tells (members.forM act) := by
  induction members with
  | nil => exact .passed fun _ impossible => by cases impossible
  | cons head tail ih =>
      have tailSettles := ih fun member listed => settles member (List.mem_cons_of_mem head listed)
      have both := (settles head List.mem_cons_self).bind fun _ => tailSettles
      exact both.congr List.forall_mem_cons.symm

end Settles

variable {memory : Memory} {kernel : AddressSpace} {tasks : ProcessTable}

/-- An address that the ledger refuses to look up is not the base of a page. -/
theorem info_cases (ledger : Ledger) (pa : PhysAddr) :
    (∃ page : Fin pageCount, pa = .ofPage page ∧ ledger.info pa = .ok (ledger.entry page)) ∨
      (∀ page : Fin pageCount, pa ≠ .ofPage page) ∧ ∃ cause, ledger.info pa = .error cause := by
  unfold Ledger.info
  cases numbered : Ledger.pageNumber pa with
  | ok page => exact .inl ⟨page, Ledger.pageNumber_eq_ok_iff.mp numbered, rfl⟩
  | error cause =>
      refine .inr ⟨fun page same => ?_, cause, rfl⟩
      rw [Ledger.pageNumber_eq_ok_iff.mpr same] at numbered
      cases numbered

/-- A part of a directory is checked by what the ledger tells about it. -/
theorem settles_checkPage {kind : DirectoryKind} {dir : Directory} {owner : Owner}
    {rootCount count : Nat} {pa : PhysAddr}
    (examined : Examined kernel tasks kind dir owner rootCount)
    (part : Part memory dir rootCount pa count) :
    Settles (Holds memory pa owner count) (·.Describes memory kernel tasks)
      ((checkPage memory kind pa owner count).mapError .refused) := by
  unfold checkPage
  rcases info_cases memory.ledger pa with ⟨page, rfl, found⟩ | ⟨nowhere, cause, found⟩
  · rw [found]
    have holds_iff : Holds memory (.ofPage page) owner count ↔
        (memory.ledger.entry page).owner = owner ∧
          (memory.ledger.entry page).refcount = count := by
      constructor
      · rintro ⟨other, same, entry⟩
        rw [PhysAddr.ofPage_inj.mp same, entry]
        exact ⟨rfl, rfl⟩
      · rintro ⟨rfl, rfl⟩
        exact ⟨page, rfl, rfl⟩
    dsimp only
    split
    · rename_i wrong
      exact .refused (fun holds => wrong (holds_iff.mp holds).1)
        ⟨wrong, ⟨dir, rootCount, count, examined, part⟩, page, rfl, rfl⟩
    · rename_i owned
      obtain rfl := not_not.mp owned
      split
      · rename_i wrong
        exact .refused (fun holds => wrong (holds_iff.mp holds).2)
          ⟨wrong, dir, _, rootCount, examined, part, page, rfl, rfl⟩
      · rename_i counted
        exact .passed (holds_iff.mpr ⟨rfl, not_not.mp counted⟩)
  · rw [found]
    refine .refused ?_ ⟨⟨dir, owner, rootCount, count, examined, part⟩, nowhere⟩
    rintro ⟨page, same, -⟩
    exact nowhere page same

/-- The tables of a directory are what its present entries refer to. -/
theorem forall_mem_tables_iff {ram : Ram} {root : Fin pageCount} {tables : List (Nat × PhysAddr)}
    (walked : tables = (List.range entryCount).filterMap (Directory.slotTable? ram root))
    (Fit : PhysAddr → Prop) :
    (∀ entry ∈ tables, Fit entry.2) ↔
      ∀ pa, (⟨.ofPage root⟩ : Directory).RefersTo ram pa → Fit pa := by
  have mem_iff : ∀ entry, entry ∈ tables ↔ ∃ mapping, entry.1 < entryCount ∧
      decodeEntry (ram.entry root entry.1) = some mapping ∧ mapping.pa = entry.2 := by
    intro entry
    simp only [walked, List.mem_filterMap, List.mem_range, Directory.slotTable?,
      Option.map_eq_some_iff]
    constructor
    · rintro ⟨slot, inside, mapping, found, rfl⟩
      exact ⟨mapping, inside, found, rfl⟩
    · rintro ⟨mapping, inside, found, refers⟩
      exact ⟨entry.1, inside, mapping, found, Prod.ext rfl refers⟩
  constructor
  · rintro fit pa ⟨other, same, slot, inside, mapping, found, rfl⟩
    obtain rfl := PhysAddr.ofPage_inj.mp same
    exact fit (slot, mapping.pa) ((mem_iff _).mpr ⟨mapping, inside, found, rfl⟩)
  · intro fit entry listed
    obtain ⟨mapping, inside, found, refers⟩ := (mem_iff entry).mp listed
    exact fit entry.2 ⟨root, rfl, entry.1, inside, mapping, found, refers⟩

/-- What is checked of every page table is settled for all that the present entries refer to. -/
theorem settles_tables {dir : Directory} {root : Fin pageCount} (isRoot : dir.root = .ofPage root)
    {Fit : PhysAddr → Prop} {tells : InvariantViolation → Prop}
    {act : Nat × PhysAddr → Except (Failure InvariantViolation) Unit}
    (each : ∀ slot pa, dir.RefersTo memory.ram pa → Settles (Fit pa) tells (act (slot, pa))) :
    Settles (∀ pa, dir.RefersTo memory.ram pa → Fit pa) tells
      ((dir.tables memory.ram).mapError .faulted >>= fun tables => tables.forM act) := by
  obtain ⟨_⟩ := dir
  subst isRoot
  rw [Directory.tables_eq]
  generalize walked : (List.range entryCount).filterMap _ = tables
  have referred := (forall_mem_tables_iff walked.symm (Directory.RefersTo _ memory.ram)).mpr
    fun _ refers => refers
  have all : Settles (∀ entry ∈ tables, Fit entry.2) tells (tables.forM act) :=
    settles_forM fun entry listed => each entry.1 entry.2 (referred entry listed)
  exact all.congr (forall_mem_tables_iff walked.symm Fit)

/-- A directory is checked part by part, the root before the entries in it are read. -/
theorem settles_checkDirectory {kind : DirectoryKind} {dir : Directory} {owner : Owner}
    {rootCount : Nat} (examined : Examined kernel tasks kind dir owner rootCount) :
    Settles (Fits memory dir owner rootCount) (·.Describes memory kernel tasks)
      (checkDirectory memory dir kind owner rootCount) := by
  refine ((settles_checkPage examined .root).bind fun rootHolds =>
    settles_tables rootHolds.choose_spec.1 fun _ pa refers =>
      settles_checkPage examined (.table refers)).congr
    ⟨?_, fun fit => ⟨fit _ _ .root, fun pa refers => fit pa 1 (.table refers)⟩⟩
  rintro ⟨rootHolds, tablesHold⟩ pa count part
  cases part with
  | root => exact rootHolds
  | table refers => exact tablesHold pa refers

theorem ownSpace?_eq_some_iff {process : Process} {space : AddressSpace} :
    process.ownSpace? = some space ↔ process.space = some (.own space) := by
  unfold Process.ownSpace?
  split
  · rename_i found
    rw [found]
    simp
  · rename_i other
    simp only [reduceCtorEq, false_iff]
    exact other space

/-- The directory of a process is checked if there is one. -/
theorem settles_checkProcess (slot : Fin slotCount) :
    Settles
      (∀ space, (tasks.process slot).state ≠ .free →
        (tasks.process slot).space = some (.own space) →
          Fits memory space.dir (.process (.ofIndex slot)) 1)
      (·.Describes memory kernel tasks)
      (checkProcess memory (.ofIndex slot) (tasks.process slot)) := by
  unfold checkProcess
  split
  · rename_i free
    exact .passed fun space live => absurd free live
  · rename_i live
    cases own : (tasks.process slot).ownSpace? with
    | none =>
        refine .passed fun space _ attached => ?_
        rw [ownSpace?_eq_some_iff.mpr attached] at own
        cases own
    | some space =>
        have attached := ownSpace?_eq_some_iff.mp own
        refine (settles_checkDirectory (.process live attached)).congr
          ⟨fun fit other _ also => ?_, fun fit => fit space live attached⟩
        obtain rfl : space = other := by
          rw [attached] at also
          cases also
          rfl
        exact fit

theorem isLive_iff {pid : Pid} : isLive tasks pid = true ↔
    ∃ slot : Fin slotCount, pid = .ofIndex slot ∧ (tasks.process slot).state ≠ .free := by
  unfold isLive ProcessTable.get?
  cases named : ProcessTable.slot? pid with
  | none =>
      simp only [Option.map_none, Bool.false_eq_true, false_iff]
      rintro ⟨slot, same, -⟩
      rw [ProcessTable.slot?_eq_some_iff.mpr same] at named
      cases named
  | some slot =>
      obtain rfl := ProcessTable.slot?_eq_some_iff.mp named
      simp only [Option.map_some, decide_not, Bool.not_eq_true', decide_eq_false_iff_not]
      constructor
      · exact fun live => ⟨slot, rfl, live⟩
      · rintro ⟨other, same, live⟩
        have isOther := ProcessTable.slot?_eq_some_iff.mpr same
        rw [named] at isOther
        rw [Option.some.inj isOther]
        exact live

theorem settles_checkEntry (page : Fin pageCount) :
    Settles
      (((memory.ledger.entry page).refcount = 0 ↔ (memory.ledger.entry page).owner = .free) ∧
        ∀ pid, (memory.ledger.entry page).owner = .process pid →
          ∃ slot : Fin slotCount, pid = .ofIndex slot ∧ (tasks.process slot).state ≠ .free)
      (·.Describes memory kernel tasks)
      ((checkEntry tasks (.ofPage page) (memory.ledger.entry page)).mapError .refused) := by
  have agree_iff : (memory.ledger.entry page).isFree =
      decide ((memory.ledger.entry page).owner = .free) ↔
        ((memory.ledger.entry page).refcount = 0 ↔ (memory.ledger.entry page).owner = .free) := by
    rw [PageInfo.isFree, decide_eq_decide]
  unfold checkEntry
  split
  · rename_i wrong
    have mismatch := wrong ∘ agree_iff.mpr
    exact .refused (fun fit => mismatch fit.1) ⟨page, rfl, mismatch⟩
  · rename_i agrees
    have match_iff := agree_iff.mp (not_not.mp agrees)
    cases owned : (memory.ledger.entry page).owner with
    | process pid =>
        dsimp only
        rw [owned] at match_iff
        split
        · rename_i live
          refine .passed ⟨match_iff, fun other same => ?_⟩
          cases same
          exact isLive_iff.mp live
        · rename_i dead
          refine .refused (fun fit => dead (isLive_iff.mpr (fit.2 pid rfl)))
            ⟨⟨page, rfl, owned⟩, ?_⟩
          intro slot same
          by_contra live
          exact dead (isLive_iff.mpr ⟨slot, same, live⟩)
    | free => exact .passed ⟨owned ▸ match_iff, fun _ impossible => by cases impossible⟩
    | reserved => exact .passed ⟨owned ▸ match_iff, fun _ impossible => by cases impossible⟩
    | kernel => exact .passed ⟨owned ▸ match_iff, fun _ impossible => by cases impossible⟩

/-! ## The check as a whole -/

theorem kernelSharers_eq (tasks : ProcessTable) :
    tasks.kernelSharers = (attachedSlots tasks).card := by
  have listed : tasks.slots.toList = (List.finRange slotCount).map tasks.process := by
    apply List.ext_getElem
    · simp
    · intro number inside _
      simp [ProcessTable.process]
  rw [ProcessTable.kernelSharers, ← Vector.countP_toList, listed, List.countP_map, attachedSlots,
    Finset.card_def, Finset.filter_val, ← Multiset.countP_eq_card_filter]
  refine List.countP_congr fun slot _ => ?_
  simp

theorem settles_checkProcesses :
    Settles
      (∀ slot space, (tasks.process slot).state ≠ .free →
        (tasks.process slot).space = some (.own space) →
          Fits memory space.dir (.process (.ofIndex slot)) 1)
      (·.Describes memory kernel tasks)
      (tasks.entries.forM fun (pid, process) => checkProcess memory pid process) := by
  have all := List.mem_finRange (n := slotCount)
  unfold ProcessTable.entries
  generalize List.finRange slotCount = slots at all ⊢
  rw [List.forM_eq_forM, List.forM_map]
  refine (settles_forM fun slot _ => settles_checkProcess slot).congr ?_
  exact ⟨fun fit slot => fit slot (all slot), fun fit slot _ => fit slot⟩

theorem settles_checkEntries :
    Settles
      (∀ page, ((memory.ledger.entry page).refcount = 0 ↔
          (memory.ledger.entry page).owner = .free) ∧
        ∀ pid, (memory.ledger.entry page).owner = .process pid →
          ∃ slot : Fin slotCount, pid = .ofIndex slot ∧ (tasks.process slot).state ≠ .free)
      (·.Describes memory kernel tasks)
      ((List.finRange pageCount).forM fun page =>
        (checkEntry tasks (.ofPage page) (memory.ledger.entry page)).mapError .refused) := by
  have all := List.mem_finRange (n := pageCount)
  generalize List.finRange pageCount = pages at all ⊢
  refine (settles_forM fun page _ => settles_checkEntry page).congr ?_
  exact ⟨fun fit page => fit page (all page), fun fit page _ => fit page⟩

/-- The check settles whether the state is consistent. -/
theorem settles_check (memory : Memory) (kernel : AddressSpace) (tasks : ProcessTable) :
    Settles (Consistent memory kernel tasks) (·.Describes memory kernel tasks)
      (check memory kernel tasks) := by
  unfold check
  by_cases reserved : (tasks.process ProcessTable.reservedSlot).state = .free
  · rw [if_neg (not_not.mpr reserved), kernelSharers_eq]
    refine ((settles_checkDirectory Examined.kernel).bind fun _ =>
      settles_checkProcesses.bind fun _ => settles_checkEntries).congr ⟨?_, fun consistent => ?_⟩
    · rintro ⟨kernelFits, processesFit, entriesFit⟩
      refine ⟨reserved, ?_, fun page => (entriesFit page).1, fun page => (entriesFit page).2⟩
      rintro kind dir owner rootCount (_ | ⟨live, own⟩)
      · exact kernelFits
      · exact processesFit _ _ live own
    · exact ⟨consistent.directories_fit _ _ _ _ .kernel,
        fun slot space live own => consistent.directories_fit _ _ _ _ (.process live own),
        fun page => ⟨consistent.free_iff page, consistent.owner_live page⟩⟩
  · rw [if_pos reserved]
    exact .refused (fun consistent => reserved consistent.reserved_free) reserved

/-! ## What the check decides -/

/-- What an outcome of the check is worth. -/
structure Decides (memory : Memory) (kernel : AddressSpace) (tasks : ProcessTable)
    (outcome : Except (Failure InvariantViolation) Unit) : Prop where
  not_faulted : ∀ fault, outcome ≠ .error (.faulted fault)
  ok_iff : outcome = .ok () ↔ Consistent memory kernel tasks
  describes : ∀ violation, outcome = .error (.refused violation) →
    violation.Describes memory kernel tasks

/-- On any state whatsoever the check tells consistent states from all others, and why. -/
theorem check_decides (memory : Memory) (kernel : AddressSpace) (tasks : ProcessTable) :
    Decides memory kernel tasks (check memory kernel tasks) := by
  have settled := settles_check memory kernel tasks
  generalize check memory kernel tasks = outcome at settled ⊢
  cases settled with
  | passed consistent =>
      exact ⟨by rintro _ ⟨⟩, iff_of_true rfl consistent, by rintro _ ⟨⟩⟩
  | refused inconsistent told =>
      refine ⟨by rintro _ ⟨⟩, iff_of_false (by rintro ⟨⟩) inconsistent, ?_⟩
      rintro _ ⟨⟩
      exact told

end Consistency

end PagingKernel
