import PagingKernel.Proofs.Session.Lifecycle

/-!
# The kernel's own space

Booting takes the two lowest free pages for the kernel's directory and its page
table, and fills them with the identity map of physical memory, whatever the
layout and the contents of memory.  From then on no call, no trap and no store
of user code changes what that directory does to an address.
-/

namespace PagingKernel

open PageTable PagingKernel.Action

/-! ## The identity map -/

/-- What the kernel's own directory does to an address of 32 bits. -/
def PageTable.identity? (va : VirtAddr) : Option Mapping :=
  if va.raw < pageSize ∨ physicalSize ≤ va.raw then none
  else if va.pageBase.raw = consoleAddress then some ⟨⟨va.pageBase.raw⟩, .userRW⟩
  else some ⟨⟨va.pageBase.raw⟩, .kernelRW⟩

/-- The kernel's words are the identity map. -/
theorem PageTable.translation_kernelWord_eq {va : VirtAddr} (inside : va.raw < addressLimit) :
    translation kernelWord va = identity? va := by
  have mapped : (0 < va.raw / pageSize ∧ va.raw / pageSize < pageCount) ↔
      ¬(va.raw < pageSize ∨ physicalSize ≤ va.raw) := by
    simp only [pageSize, pageCount, physicalSize]
    omega
  have covered : va.raw / pageSize < pageCount → va.raw / pageSize < entryCount :=
    fun below => Nat.lt_trans below (by decide)
  rw [translation_eq_of_lt inside, decodeEntry_kernelWord, identity?]
  by_cases outside : va.raw < pageSize ∨ physicalSize ≤ va.raw
  · rw [if_pos outside, if_neg fun held => mapped.mp held outside, ite_self]
  · have held := mapped.mpr outside
    rw [if_neg outside, if_pos held, if_pos (covered held.2), Layout.kernelMappingFlags]
    change some (Mapping.mk _ (if va.pageBase.raw = consoleAddress then _ else _)) = _
    split <;> rfl

namespace Kernel

/-- The kernel's own directory maps physical memory to itself. -/
def MapsItself (kernel : Kernel) : Prop :=
  ∀ va : VirtAddr, va.raw < addressLimit →
    kernel.space.dir.lookup kernel.resources.memory.ram va = .ok (identity? va)

theorem mapsItself_of_spans {kernel : Kernel} {root table : Fin pageCount} {owner : Owner}
    (space_eq : kernel.space = ⟨⟨.ofPage root⟩, owner⟩)
    (spans : kernel.resources.memory.ram.Spans root table kernelWord) : kernel.MapsItself := by
  intro va inside
  rw [space_eq, ← translation_kernelWord_eq inside]
  exact spans.lookup_eq va

end Kernel

/-! ## The pages that booting takes -/

namespace Ledger

variable {ledger : Ledger} {root table : Fin pageCount} {owner : Owner}

/-- The pages without an owner. -/
def freeSet (ledger : Ledger) : Finset (Fin pageCount) :=
  Finset.univ.filter fun page => (ledger.entry page).owner = .free

/-- Two pages are the lowest ones without an owner. -/
structure FirstFree (ledger : Ledger) (root table : Fin pageCount) : Prop where
  root_free : root ∈ ledger.freeSet
  table_free : table ∈ ledger.freeSet
  below : root < table
  lowest : ∀ page ∈ ledger.freeSet, page = root ∨ page = table ∨ table < page

theorem mem_freeSet_iff (tidy : ledger.Tidy) {page : Fin pageCount} :
    page ∈ ledger.freeSet ↔ ¬ledger.Taken page := by
  rw [freeSet, Finset.mem_filter, tidy page, and_iff_right (Finset.mem_univ page)]

theorem card_freeSet (tidy : ledger.Tidy) : ledger.freeSet.card = ledger.freePages := by
  rw [freePages_eq_card]
  exact congrArg Finset.card (Finset.filter_congr fun page _ => tidy page)

theorem FirstFree.two_le_card (first : ledger.FirstFree root table) : 2 ≤ ledger.freeSet.card :=
  Finset.one_lt_card.mpr ⟨root, first.root_free, table, first.table_free, Fin.ne_of_lt first.below⟩

/-- What is taken next, and next after that, are the two lowest pages without an owner. -/
theorem firstFree_of_nextFree (tidy : ledger.Tidy) (owned : owner ≠ .free)
    (first : Memory.NextFree ledger root)
    (second : Memory.NextFree (ledger.charge owner (Pi.single root 1)) table) :
    ledger.FirstFree root table := by
  obtain ⟨apart, tableFree⟩ := apart_of_untaken_charge second.untaken
  have belowRoot : ∀ lower < root, ledger.Taken lower := by
    obtain ⟨page, same, -, taken⟩ := findFree_eq_some tidy first.lowest
    rwa [PhysAddr.ofPage_inj.mp same]
  have belowTable : ∀ lower < table, ledger.Taken lower ∨ lower = root := by
    obtain ⟨page, same, -, taken⟩ := findFree_eq_some (tidy.charge owned _) second.lowest
    rw [PhysAddr.ofPage_inj.mp same]
    exact fun lower below => (taken_charge_iff.mp (taken lower below)).imp_right
      eq_of_charged_single
  refine ⟨(mem_freeSet_iff tidy).mpr first.untaken, (mem_freeSet_iff tidy).mpr tableFree, ?_, ?_⟩
  · rcases lt_trichotomy root table with below | same | above
    · exact below
    · exact absurd same apart
    · exact absurd (belowRoot table above) tableFree
  · intro page isFree
    have untaken := (mem_freeSet_iff tidy).mp isFree
    rcases lt_trichotomy page table with below | same | above
    · exact .inl ((belowTable page below).resolve_left untaken)
    · exact .inr (.inl same)
    · exact .inr (.inr above)

/-- Charging two free pages once replaces their entries and no others. -/
theorem charge_pair_eq (apart : root ≠ table) (rootFree : ¬ledger.Taken root)
    (tableFree : ¬ledger.Taken table) (owner : Owner) :
    ledger.charge owner (Pi.single root 1 + Pi.single table 1) =
      (ledger.setEntry root ⟨owner, 1⟩).setEntry table ⟨owner, 1⟩ := by
  refine ext_entry fun page => ?_
  rw [entry_setEntry, entry_setEntry]
  by_cases isTable : page = table
  · subst isTable
    rw [if_pos rfl]
    exact entry_charge_of_untaken tableFree owner (by simp [apart.symm])
  · rw [if_neg isTable]
    by_cases isRoot : page = root
    · subst isRoot
      rw [if_pos rfl]
      exact entry_charge_of_untaken rootFree owner (by simp [apart])
    · rw [if_neg isRoot, entry_charge]
      simp [isRoot, isTable]

end Ledger

/-! ## Booting -/

namespace Kernel

variable {machine : Machine} {ram : Ram} {programs : ProgramTable} {layout : Layout}
  {boot : Ledger} {kernel : Kernel}

/-- The kernel has come up with its directory and page table on two pages of a partition. -/
structure ComesUp (boot : Ledger) (root table : Fin pageCount) (kernel : Kernel) : Prop where
  firstFree : boot.FirstFree root table
  ledger_eq : kernel.resources.memory.ledger =
    (boot.setEntry root ⟨.kernel, 1⟩).setEntry table ⟨.kernel, 1⟩
  space_eq : kernel.space = ⟨⟨.ofPage root⟩, .kernel⟩
  tables_eq : kernel.space.dir.tables kernel.resources.memory.ram = .ok [(0, .ofPage table)]
  mapsItself : kernel.MapsItself

/-- The kernel comes up on the two lowest free pages, or says that memory ran out. -/
theorem comesUp_or_refused (laidOut : Ledger.ofLayout layout = .ok boot) (machine : Machine)
    (ram : Ram) (programs : ProgramTable) :
    (∃ kernel root table, Kernel.boot machine ram programs layout = .ok kernel ∧
      ComesUp boot root table kernel) ∨
    Kernel.boot machine ram programs layout =
        .error (.refused (.kernelSpace (.alloc .outOfMemory))) ∧ boot.freeSet.card < 2 := by
  have tidy := (Ledger.atBoot_of_ofLayout laidOut).tidy
  rcases (@AddressSpace.ensures_buildKernel boot ram tidy).cases with
    ⟨_, _, built, root, table, next, rfl, rootFree, tableFree, rfl, filled⟩ |
    ⟨_, _, refused, rfl, short⟩
  · have spans := filled.spans_kernelWord
    obtain ⟨apart, untaken⟩ := Ledger.apart_of_untaken_charge tableFree.untaken
    exact .inl ⟨_, root, table, boot_eq_ok laidOut built,
      Ledger.firstFree_of_nextFree tidy (by decide) rootFree tableFree,
      Ledger.charge_pair_eq apart rootFree.untaken untaken .kernel, rfl, spans.tables_eq,
      mapsItself_of_spans rfl spans⟩
  · exact .inr ⟨boot_eq_error laidOut refused, by rwa [Ledger.card_freeSet tidy]⟩

/-- What every call relies on includes the identity map. -/
theorem Steady.mapsItself {kernelRoot : Fin pageCount} (steady : Steady boot kernelRoot kernel) :
    kernel.MapsItself := by
  obtain ⟨books, standing, rfl⟩ := steady.kept.standing
  exact mapsItself_of_spans steady.space_eq standing.kernelStands

end Kernel

/-! ## Later -/

/-- The kernel has the space that another had, and it still is the identity map. -/
structure KeepsKernelSpace (before after : Kernel) : Prop where
  space_eq : after.space = before.space
  mapsItself : after.MapsItself

/-- No call changes the kernel's own space, whatever it answers. -/
theorem Session.keepsKernelSpace {machine : Machine} {ram : Ram} {programs : ProgramTable}
    {layout : Layout} {history : List Exchange} {kernel : Kernel}
    (session : Session machine ram programs layout history kernel) :
    ∃ first, Kernel.boot machine ram programs layout = .ok first ∧
      KeepsKernelSpace first kernel := by
  induction session with
  | @boot kernel booted =>
      obtain ⟨_, _, underway⟩ := (Session.boot booted).underway
      exact ⟨kernel, booted, rfl, underway.steady.mapsItself⟩
  | call earlier permitted ih =>
      obtain ⟨first, booted, kept⟩ := ih
      obtain ⟨_, _, underway⟩ := earlier.underway
      have next := (underway.next permitted).steady
      exact ⟨first, booted, next.space_eq.trans (underway.steady.space_eq.symm.trans kept.space_eq),
        next.mapsItself⟩

namespace Run

variable {setting : Setting} {state : State}

/-- The outcome of booting from a setting. -/
abbrev Setting.boot (setting : Setting) : Except (Failure BootError) Kernel :=
  Kernel.boot setting.machine setting.ram setting.programs setting.layout

/-- No step of a run changes the kernel's own space.  Its directory is the identity map by the
invariant of runs, which alone does not say where the directory lies. -/
theorem keepsKernelSpace_of_reached (reached : Reached setting state) :
    ∃ first, setting.boot = .ok first ∧ KeepsKernelSpace first state.kernel := by
  suffices stays : ∃ first, setting.boot = .ok first ∧ state.kernel.space = first.space by
    obtain ⟨first, booted, space_eq⟩ := stays
    obtain ⟨boot, books, -, regular⟩ := regular_of_reached reached
    exact ⟨first, booted, space_eq,
      Kernel.mapsItself_of_spans regular.coherent.space_eq regular.coherent.sound.kernelStands⟩
  induction reached with
  | @start kernel started pid booted created =>
      obtain ⟨_, _, underway⟩ := (Session.boot booted).underway
      have starts := (Kernel.ensures_start_steady underway.steady _).done created
      exact ⟨kernel, booted, starts.steady.space_eq.trans underway.steady.space_eq.symm⟩
  | step reached step ih =>
      obtain ⟨first, booted, space_eq⟩ := ih
      obtain ⟨_, _, -, regular⟩ := regular_of_reached reached
      obtain ⟨_, -, moved⟩ := regular.moved step
      exact ⟨first, booted, moved.space_eq.trans space_eq⟩

/-- What becomes of the kernel's own space, from booting on. -/
structure BuildsKernelSpace (setting : Setting) (boot : Ledger) : Prop where
  ok_iff : (∃ kernel, setting.boot = .ok kernel) ↔ 2 ≤ boot.freeSet.card
  refused : boot.freeSet.card < 2 →
    setting.boot = .error (.refused (.kernelSpace (.alloc .outOfMemory)))
  comesUp : ∀ kernel, setting.boot = .ok kernel → ∃ root table, kernel.ComesUp boot root table
  /-- In runs, with whatever user code stores. -/
  runs : ∀ kernel state, setting.boot = .ok kernel → Reached setting state →
    KeepsKernelSpace kernel state.kernel
  /-- In sessions, with calls in any order and calls that are refused. -/
  sessions : ∀ kernel history later, setting.boot = .ok kernel →
    Session setting.machine setting.ram setting.programs setting.layout history later →
    KeepsKernelSpace kernel later

/-- With room for a stack page the kernel comes up exactly if two pages are free, in a space that
is the identity map for good. -/
theorem kernel_space_is_kept (room : pageSize ≤ setting.layout.stackTop) :
    ∃ boot, Ledger.ofLayout setting.layout = .ok boot ∧ BuildsKernelSpace setting boot := by
  obtain ⟨boot, laidOut⟩ := Ledger.exists_ofLayout room
  have outcome := Kernel.comesUp_or_refused laidOut setting.machine setting.ram setting.programs
  have comesUp (kernel : Kernel) (booted : setting.boot = .ok kernel) :
      ∃ root table, kernel.ComesUp boot root table := by
    rcases outcome with ⟨first, root, table, isFirst, comesUp⟩ | ⟨refused, -⟩
    · obtain rfl := Except.ok.inj (isFirst.symm.trans booted)
      exact ⟨root, table, comesUp⟩
    · cases refused.symm.trans booted
  have stays {kernel later : Kernel} (booted : setting.boot = .ok kernel)
      (kept : ∃ first, setting.boot = .ok first ∧ KeepsKernelSpace first later) :
      KeepsKernelSpace kernel later := by
    obtain ⟨first, isFirst, kept⟩ := kept
    obtain rfl := Except.ok.inj (isFirst.symm.trans booted)
    exact kept
  refine ⟨boot, laidOut, ?ok_iff, ?refused, comesUp, ?runs, ?sessions⟩
  case ok_iff =>
    constructor
    · rintro ⟨kernel, booted⟩
      obtain ⟨root, table, up⟩ := comesUp kernel booted
      exact up.firstFree.two_le_card
    · intro enough
      rcases outcome with ⟨first, -, -, isFirst, -⟩ | ⟨-, short⟩
      · exact ⟨first, isFirst⟩
      · omega
  case refused =>
    intro short
    rcases outcome with ⟨_, _, _, -, up⟩ | ⟨refused, -⟩
    · exact absurd up.firstFree.two_le_card (by omega)
    · exact refused
  case runs => exact fun _ _ booted reached => stays booted (keepsKernelSpace_of_reached reached)
  case sessions => exact fun _ _ _ booted session => stays booted session.keepsKernelSpace

/-- While the first program of the small workload runs, the kernel's space is as it came up. -/
theorem small_kernel_space_is_kept : ∃ (kernel : Kernel) (state : State),
    Setting.small.boot = .ok kernel ∧ Reached .small state ∧
      state.kernel.space = kernel.space ∧
      let lookup := state.kernel.space.dir.lookup state.kernel.resources.memory.ram
      lookup ⟨0xfff⟩ = .ok none ∧ lookup ⟨0x1234⟩ = .ok (some ⟨⟨0x1000⟩, .kernelRW⟩) ∧
        lookup ⟨0xb8123⟩ = .ok (some ⟨⟨0xb8000⟩, .userRW⟩) ∧ lookup ⟨0x200000⟩ = .ok none := by
  obtain ⟨running, slot, reached, -⟩ := Setting.suitable_small.exists_running
  obtain ⟨kernel, booted, -⟩ := keepsKernelSpace_of_reached reached
  obtain ⟨boot, -, builds⟩ := kernel_space_is_kept
    (show pageSize ≤ Setting.small.layout.stackTop by decide)
  obtain ⟨space_eq, identity⟩ := builds.runs kernel _ booted reached
  exact ⟨kernel, _, booted, reached, space_eq, identity _ (by decide), identity _ (by decide),
    identity _ (by decide), identity _ (by decide)⟩

end Run

end PagingKernel
