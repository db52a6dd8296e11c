import PagingKernel.Proofs.Run.Underway

/-!
# The ledger counts references exactly

References are counted here by walking the directories that memory holds, with
no regard to how they came about: the root of a directory, its page tables and
the pages that it maps in the process range.  In every state of every run the
ledger has the same numbers.
-/

namespace PagingKernel

open PageTable

/-! ## Counting references in memory -/

namespace Directory

variable {dir : Directory} {ram : Ram} {page : Fin pageCount}

/-- Walking the directory does not lead out of memory. -/
def Readable (dir : Directory) (ram : Ram) : Prop :=
  (∃ tables, dir.tables ram = .ok tables) ∧ ∀ va, ∃ found, dir.lookup ram va = .ok found

/-- Whether a page holds one of the page tables of the directory. -/
def hasTable (dir : Directory) (ram : Ram) (page : Fin pageCount) : Bool :=
  match dir.tables ram with
  | .ok tables => tables.any fun entry => entry.2 = .ofPage page
  | .error _ => false

/-- Whether the directory maps a place of the process range to a page. -/
def mapsTo (dir : Directory) (ram : Ram) (place : Fin processPageCount) (page : Fin pageCount) :
    Bool :=
  match dir.lookup ram (.ofPage (placeNumber place)) with
  | .ok (some mapping) => mapping.pa = .ofPage page
  | _ => false

/-- How often the directory of a process refers to a page. -/
def refs (dir : Directory) (ram : Ram) (page : Fin pageCount) : Nat :=
  (if dir.root = .ofPage page then 1 else 0) + (if dir.hasTable ram page then 1 else 0)
    + (Finset.univ.filter fun place => dir.mapsTo ram place page).card

/-- A page holds the directory or one of its page tables. -/
def IsPart (dir : Directory) (ram : Ram) (page : Fin pageCount) : Prop :=
  dir.root = .ofPage page ∨ dir.hasTable ram page = true

instance (dir : Directory) (ram : Ram) (page : Fin pageCount) : Decidable (dir.IsPart ram page) :=
  inferInstanceAs (Decidable (_ ∨ _))

end Directory

/-- Whether the layout sets a page aside at boot, for the hardware or for the kernel. -/
def Layout.setsAside (layout : Layout) (page : Fin pageCount) : Bool :=
  Layout.isReserved (.ofPage page) ||
    match layout.isKernel (.ofPage page) with
    | .ok isKernel => isKernel
    | .error _ => false

namespace Kernel

/-- The process of a slot is there, running or broken. -/
def Live (kernel : Kernel) (slot : Fin slotCount) : Prop :=
  (kernel.resources.tasks.process slot).state ≠ .free

instance (kernel : Kernel) (slot : Fin slotCount) : Decidable (kernel.Live slot) :=
  inferInstanceAs (Decidable (_ ≠ _))

/-- How often the boot layout, the kernel's directory and all processes refer to a page. -/
def references (layout : Layout) (kernel : Kernel) (page : Fin pageCount) : Nat :=
  (if layout.setsAside page then 1 else 0)
    + (if kernel.space.dir.IsPart kernel.resources.memory.ram page then 1 else 0)
    + ∑ slot, if kernel.Live slot then
        (kernel.directory slot).refs kernel.resources.memory.ram page
      else 0

/-- A page is part of the kernel's directory or of that of a process. -/
def HoldsDirectory (kernel : Kernel) (page : Fin pageCount) : Prop :=
  kernel.space.dir.IsPart kernel.resources.memory.ram page ∨
    ∃ slot, kernel.Live slot ∧ (kernel.directory slot).IsPart kernel.resources.memory.ram page

/-- The ledger counts the references to every page, and the pages of directories have one each. -/
structure Accounted (layout : Layout) (kernel : Kernel) : Prop where
  kernel_readable : kernel.space.dir.Readable kernel.resources.memory.ram
  readable : ∀ slot, kernel.Live slot →
    (kernel.directory slot).Readable kernel.resources.memory.ram
  counted : ∀ page,
    (kernel.resources.memory.ledger.entry page).refcount = kernel.references layout page
  setAside_once : ∀ page, layout.setsAside page = true →
    (kernel.resources.memory.ledger.entry page).refcount = 1
  directory_once : ∀ page, kernel.HoldsDirectory page →
    (kernel.resources.memory.ledger.entry page).refcount = 1
  directory_unmapped : ∀ page, kernel.HoldsDirectory page → ∀ slot, kernel.Live slot →
    ∀ place, (kernel.directory slot).mapsTo kernel.resources.memory.ram place page = false
  place_unique : ∀ slot, kernel.Live slot → ∀ page first second,
    (kernel.directory slot).mapsTo kernel.resources.memory.ram first page = true →
    (kernel.directory slot).mapsTo kernel.resources.memory.ram second page = true →
    first = second
  free_iff : ∀ page, (kernel.resources.memory.ledger.entry page).owner = .free ↔
    kernel.references layout page = 0

end Kernel

/-! ## Directories that stand in memory -/

section Stands

variable {ram : Ram} {root table page : Fin pageCount} {words : Nat → UInt32} {view : SpaceView}
  {place : Fin processPageCount}

theorem Ram.Spans.readable (spans : ram.Spans root table words) :
    Directory.Readable ⟨.ofPage root⟩ ram :=
  ⟨⟨_, spans.tables_eq⟩, fun va => ⟨_, spans.lookup_eq va⟩⟩

theorem Ram.Spans.hasTable_iff (spans : ram.Spans root table words) :
    Directory.hasTable ⟨.ofPage root⟩ ram page = true ↔ page = table := by
  simp [Directory.hasTable, spans.tables_eq, eq_comm]

theorem Ram.Spans.isPart_iff (spans : ram.Spans root table words) :
    Directory.IsPart ⟨.ofPage root⟩ ram page ↔ page = root ∨ page = table := by
  rw [Directory.IsPart, spans.hasTable_iff, PhysAddr.ofPage_inj, eq_comm]

theorem SpaceView.Stands.mapsTo_iff (stands : view.Stands ram) :
    Directory.mapsTo ⟨.ofPage view.root⟩ ram place page = true ↔ place ∈ view.placesOf page := by
  rw [Directory.mapsTo, stands.lookup_placeNumber, SpaceView.mem_placesOf]
  cases view.leaf place with
  | none => simp
  | some leaf => simp

/-- Walking a directory finds the references that the space takes. -/
theorem SpaceView.Stands.refs_eq (stands : view.Stands ram) (page : Fin pageCount) :
    Directory.refs ⟨.ofPage view.root⟩ ram page = view.refs page := by
  have places : (Finset.univ.filter fun place =>
      Directory.mapsTo ⟨.ofPage view.root⟩ ram place page) = view.placesOf page := by
    ext place
    rw [Finset.mem_filter, stands.mapsTo_iff]
    simp
  have tables : Directory.hasTable ⟨.ofPage view.root⟩ ram page = true ↔ page = view.table :=
    Ram.Spans.hasTable_iff stands
  rw [Directory.refs, places, SpaceView.refs_apply]
  simp only [PhysAddr.ofPage_inj, tables, eq_comm (a := view.root)]

end Stands

/-- The ledger at boot has one reference to each page that the layout sets aside. -/
theorem Ledger.refcount_ofLayout {layout : Layout} {boot : Ledger}
    (laidOut : ofLayout layout = .ok boot) (page : Fin pageCount) :
    (boot.entry page).refcount = if layout.setsAside page then 1 else 0 := by
  have decided := bootEntry_eq_ok laidOut page
  rw [bootEntry] at decided
  rw [Layout.setsAside]
  cases reserved : Layout.isReserved (.ofPage page) with
  | true =>
      rw [reserved, if_pos rfl] at decided
      rw [← Except.ok.inj decided]
      rfl
  | false =>
      rw [reserved, if_neg (by decide)] at decided
      cases kernel : layout.isKernel (.ofPage page) with
      | error fault =>
          rw [kernel] at decided
          cases decided
      | ok isKernel =>
          rw [kernel] at decided
          cases isKernel with
          | true =>
              rw [← Except.ok.inj decided]
              rfl
          | false =>
              rw [← Except.ok.inj decided]
              rfl

/-! ## The references of a coherent kernel -/

namespace Books.Balanced

variable {boot ledger : Ledger} {books : Books} {slot : Fin slotCount} {view : SpaceView}
  {page : Fin pageCount}

/-- No process maps a directory or a page table. -/
theorem placesOf_structural (balanced : Balanced boot books ledger)
    (structural : books.Structural page) (found : books.space slot = some view) :
    view.placesOf page = ∅ := by
  rw [← Finset.not_nonempty_iff_eq_empty]
  rintro ⟨place, member⟩
  obtain ⟨leaf, mapped, rfl⟩ := Option.map_eq_some_iff.mp (SpaceView.mem_placesOf.mp member)
  exact balanced.leaf_not_structural found mapped structural

end Books.Balanced

namespace Kernel.Coherent

variable {layout : Layout} {boot : Ledger} {books : Books} {kernel : Kernel}
  {slot : Fin slotCount} {view : SpaceView} {page : Fin pageCount}

theorem live_iff (coherent : Coherent boot books kernel) :
    kernel.Live slot ↔ ∃ view, books.space slot = some view := by
  rw [Live, Ne, coherent.sound.live slot, ← Ne, Option.ne_none_iff_exists']

theorem kernelRoot_ne_kernelTable (coherent : Coherent boot books kernel) :
    books.kernelRoot ≠ books.kernelTable := by
  intro same
  have counted := coherent.sound.balanced.refcount books.kernelRoot
  rw [coherent.sound.balanced.kernelRootEntry, Books.refs, if_pos rfl, if_pos same] at counted
  dsimp only at counted
  omega

/-- What is found by walking all directories is what the books list. -/
theorem references_eq (coherent : Coherent boot books kernel)
    (laidOut : Ledger.ofLayout layout = .ok boot) (page : Fin pageCount) :
    kernel.references layout page = (boot.entry page).refcount + books.refs page := by
  have ofKernel : (if kernel.space.dir.IsPart kernel.resources.memory.ram page then 1 else 0) =
      (if page = books.kernelRoot then 1 else 0) + if page = books.kernelTable then 1 else 0 := by
    have apart := coherent.kernelRoot_ne_kernelTable
    simp only [coherent.space_eq, coherent.sound.kernelStands.isPart_iff]
    by_cases isRoot : page = books.kernelRoot
    · simp [isRoot, apart]
    · simp [isRoot]
  have ofSlot (slot : Fin slotCount) : (if kernel.Live slot then
      (kernel.directory slot).refs kernel.resources.memory.ram page else 0) =
        books.slotRefs page slot := by
    cases found : books.space slot with
    | none =>
        rw [if_neg (by simp [coherent.live_iff, found]), Books.slotRefs, found, Option.elim_none]
    | some view =>
        rw [if_pos (coherent.live_iff.mpr ⟨view, found⟩), Books.slotRefs_of_space found,
          coherent.directory_eq found, (coherent.sound.stands slot view found).refs_eq]
  rw [references, Books.refs, ofKernel, Finset.sum_congr rfl fun slot _ => ofSlot slot,
    Ledger.refcount_ofLayout laidOut]
  exact Nat.add_assoc ..

/-- What holds a directory is structural. -/
theorem structural_of_holdsDirectory (coherent : Coherent boot books kernel)
    (holds : kernel.HoldsDirectory page) : books.Structural page := by
  rcases holds with isPart | ⟨slot, live, isPart⟩
  · rw [coherent.space_eq, coherent.sound.kernelStands.isPart_iff] at isPart
    rcases isPart with isRoot | isTable
    · exact .inl isRoot
    · exact .inr (.inl isTable)
  · obtain ⟨view, found⟩ := coherent.live_iff.mp live
    rw [coherent.directory_eq found,
      Ram.Spans.isPart_iff (coherent.sound.stands slot view found)] at isPart
    exact .inr (.inr ⟨slot, view, found, isPart⟩)

/-- The ledger of a coherent kernel has exactly the references that are found. -/
theorem accounted (coherent : Coherent boot books kernel)
    (laidOut : Ledger.ofLayout layout = .ok boot) : Accounted layout kernel where
  kernel_readable := by
    rw [coherent.space_eq]
    exact coherent.sound.kernelStands.readable
  readable slot live := by
    obtain ⟨view, found⟩ := coherent.live_iff.mp live
    rw [coherent.directory_eq found]
    exact Ram.Spans.readable (coherent.sound.stands slot view found)
  counted page := by
    rw [coherent.references_eq laidOut, coherent.sound.balanced.refcount]
  setAside_once page isSetAside := by
    have once := Ledger.refcount_ofLayout laidOut page
    rw [if_pos isSetAside] at once
    have taken : boot.Taken page := by
      rw [Ledger.Taken, once]
      decide
    rw [coherent.sound.balanced.bootEntry page taken, once]
  directory_once page holds :=
    coherent.sound.balanced.refcount_structural (coherent.structural_of_holdsDirectory holds)
  directory_unmapped page holds slot live place := by
    obtain ⟨view, found⟩ := coherent.live_iff.mp live
    have nowhere := coherent.sound.balanced.placesOf_structural
      (coherent.structural_of_holdsDirectory holds) found
    rw [coherent.directory_eq found, Bool.eq_false_iff, Ne,
      (coherent.sound.stands slot view found).mapsTo_iff, nowhere]
    exact Finset.notMem_empty place
  place_unique slot live page first second mapsFirst mapsSecond := by
    obtain ⟨view, found⟩ := coherent.live_iff.mp live
    have stands := coherent.sound.stands slot view found
    rw [coherent.directory_eq found, stands.mapsTo_iff] at mapsFirst mapsSecond
    have few : (view.placesOf page).card ≤ 1 := by
      have single := coherent.sound.balanced.single slot view found page
      rw [SpaceView.refs_apply] at single
      omega
    exact Finset.card_le_one.mp few first mapsFirst second mapsSecond
  free_iff page := by
    rw [coherent.references_eq laidOut, ← coherent.sound.balanced.refcount,
      coherent.sound.balanced.tidy page, Ledger.Taken, not_not]

end Kernel.Coherent

/-- In every state of every run the ledger counts the references to every page exactly. -/
theorem Run.references_are_counted {setting : Run.Setting} {state : Run.State}
    (reached : Run.Reached setting state) : state.kernel.Accounted setting.layout := by
  obtain ⟨boot, books, laidOut, regular⟩ := Run.regular_of_reached reached
  exact regular.coherent.accounted laidOut

/-- The references are counted when a run from blank memory has reached user code. -/
theorem Run.small_references_are_counted :
    ∃ (kernel : Kernel) (slot : Fin slotCount),
      Run.Reached .small ⟨kernel, .user (.ofIndex slot)⟩ ∧
      kernel.Accounted Run.Setting.small.layout := by
  obtain ⟨kernel, slot, reached, -⟩ := Run.Setting.suitable_small.exists_running
  exact ⟨kernel, slot, reached, Run.references_are_counted reached⟩

end PagingKernel
