import PagingKernel.Proofs.Run.References

/-!
# Processes are isolated from each other

What a process may write is its own, except for the text console, and what it
may only read nobody may write.  Below the process range every process has the
mappings of the kernel, and above it none.
-/

namespace PagingKernel

open PageTable

namespace Kernel

/-- The directory of the process of a slot maps an address. -/
def Maps (kernel : Kernel) (slot : Fin slotCount) (address : UInt32) (mapping : Mapping) : Prop :=
  (kernel.directory slot).lookup kernel.resources.memory.ram ⟨address.toNat⟩ = .ok (some mapping)

/-- A page belongs to a process, which has the only reference to it. -/
structure BelongsTo (kernel : Kernel) (slot : Fin slotCount) (page : Fin pageCount) : Prop where
  entry_eq : kernel.resources.memory.ledger.entry page = ⟨.process (.ofIndex slot), 1⟩
  unmapped : ∀ other, other ≠ slot → kernel.Live other → ∀ place,
    (kernel.directory other).mapsTo kernel.resources.memory.ram place page = false
  not_directory : ¬kernel.HoldsDirectory page

/-- The process of a slot is isolated from all others. -/
structure Isolated (kernel : Kernel) (slot : Fin slotCount) : Prop where
  writable : ∀ address mapping, kernel.Maps slot address mapping →
    mapping.flags.isUserWritable = true →
    (⟨address.toNat⟩ : VirtAddr).pageBase = ⟨consoleAddress⟩ ∧ mapping.pa = ⟨consoleAddress⟩ ∨
      processStart ≤ address.toNat ∧ address.toNat < virtualSize ∧
        ∃ page : Fin pageCount, mapping.pa = .ofPage page ∧ kernel.BelongsTo slot page
  readOnly : ∀ address mapping, kernel.Maps slot address mapping →
    mapping.flags.isUserReadOnly = true → ∀ other, kernel.Live other →
    ∀ place second, kernel.Maps other place second → second.pa = mapping.pa →
    second.flags.isUserWritable = false
  below : ∀ address : UInt32, address.toNat < processStart →
    Directory.entry? (kernel.directory slot) kernel.resources.memory.ram ⟨address.toNat⟩ =
      Directory.entry? kernel.space.dir kernel.resources.memory.ram ⟨address.toNat⟩
  page_zero : ∀ address : UInt32, address.toNat < pageSize →
    (kernel.directory slot).lookup kernel.resources.memory.ram ⟨address.toNat⟩ = .ok none
  kernel_only : ∀ address mapping, address.toNat < processStart →
    kernel.Maps slot address mapping → mapping.flags.user = true →
    (⟨address.toNat⟩ : VirtAddr).pageBase = ⟨consoleAddress⟩
  above : ∀ address : UInt32, virtualSize ≤ address.toNat →
    (kernel.directory slot).lookup kernel.resources.memory.ram ⟨address.toNat⟩ = .ok none

end Kernel

namespace Run.Regular

variable {boot : Ledger} {books : Books} {state : State} {slot other : Fin slotCount}
  {view second : SpaceView} {page : Fin pageCount} {mapping : Mapping} {address : UInt32}

/-- A page that a process may write belongs to it. -/
theorem belongsTo_of_leaf (regular : Regular boot books state)
    (found : books.space slot = some view) {place : Fin processPageCount} {leaf : Leaf}
    (mapped : view.leaf place = some leaf)
    (writable : leaf.writable = true) : state.kernel.BelongsTo slot leaf.page := by
  have balanced := regular.coherent.sound.balanced
  have isPrivate : view.Private leaf.page := .inr (.inr ⟨place, leaf, mapped, writable, rfl⟩)
  have isOpen : books.OpenTo boot slot leaf.page :=
    .inr ⟨view, place, leaf, found, mapped, writable, rfl⟩
  exact {
    entry_eq := balanced.privateEntry slot view leaf.page found isPrivate
    unmapped := by
      intro other apart live there
      obtain ⟨second, foundOther⟩ := regular.coherent.live_iff.mp live
      have none := balanced.refs_other_eq_zero apart found isPrivate foundOther
      rw [regular.coherent.directory_eq foundOther, Bool.eq_false_iff, Ne,
        (regular.coherent.sound.stands other second foundOther).mapsTo_iff]
      intro member
      obtain ⟨shared, alsoMapped, same⟩ :=
        Option.map_eq_some_iff.mp (SpaceView.mem_placesOf.mp member)
      have referenced := SpaceView.refs_leaf_pos alsoMapped
      rw [same] at referenced
      omega
    not_directory := fun holds =>
      isOpen.not_structural balanced (regular.coherent.structural_of_holdsDirectory holds) }

/-- A page that a process may only read is written by no user code. -/
theorem not_writable_of_leaf (regular : Regular boot books state)
    (found : books.space slot = some view) {place : Fin processPageCount}
    (mapped : view.leaf place = some ⟨page, false⟩) (foundOther : books.space other = some second)
    (maps : state.kernel.Maps other address mapping) (same : mapping.pa = .ofPage page) :
    mapping.flags.isUserWritable = false := by
  have balanced := regular.coherent.sound.balanced
  by_contra writable
  rw [Bool.not_eq_false] at writable
  rcases regular.coherent.user_cases foundOther maps (PageFlags.user_of_isUserWritable writable)
    with ⟨-, rfl⟩ | ⟨-, -, there, leaf, alsoMapped, rfl⟩
  · obtain rfl := PhysAddr.ofPage_inj.mp same
    have none := balanced.refs_of_boot regular.console
    have part : view.refs consolePage ≤ books.refs consolePage := Books.refs_le found
    have referenced : 0 < view.refs consolePage := SpaceView.refs_leaf_pos mapped
    omega
  · obtain rfl := PhysAddr.ofPage_inj.mp same
    rw [Leaf.mapping_flags, Leaf.isUserWritable_flags] at writable
    exact balanced.private_not_readOnly foundOther
      (.inr (.inr ⟨there, leaf, alsoMapped, writable, rfl⟩)) found place mapped

theorem isolated (regular : Regular boot books state) (live : state.kernel.Live slot) :
    state.kernel.Isolated slot := by
  obtain ⟨view, found⟩ := regular.coherent.live_iff.mp live
  have coherent := regular.coherent
  have stands := coherent.sound.stands slot view found
  have lookup (address : UInt32) := coherent.lookup_directory found ⟨address.toNat⟩
  have inside (address : UInt32) : (⟨address.toNat⟩ : VirtAddr).raw < addressLimit :=
    address.toNat_lt
  exact {
    writable := by
      intro address mapping maps writable
      rcases coherent.user_cases found maps (PageFlags.user_of_isUserWritable writable) with
        ⟨console, rfl⟩ | ⟨start, stop, place, leaf, mapped, rfl⟩
      · exact .inl ⟨console, rfl⟩
      · rw [Leaf.mapping_flags, Leaf.isUserWritable_flags] at writable
        exact .inr ⟨start, stop, leaf.page, rfl, regular.belongsTo_of_leaf found mapped writable⟩
    readOnly := by
      intro address mapping maps readOnly other otherLive otherAddress second otherMaps same
      obtain ⟨otherView, foundOther⟩ := coherent.live_iff.mp otherLive
      rcases coherent.user_cases found maps (PageFlags.user_of_isUserReadOnly readOnly) with
        ⟨-, rfl⟩ | ⟨-, -, place, ⟨page, writable⟩, mapped, rfl⟩
      · exact absurd readOnly (by decide)
      · rw [Leaf.mapping_flags, Leaf.isUserReadOnly_flags, Bool.not_eq_true'] at readOnly
        dsimp only at readOnly
        subst readOnly
        exact regular.not_writable_of_leaf found mapped foundOther otherMaps same
    below := by
      intro address below
      rw [coherent.directory_eq found, coherent.space_eq]
      exact stands.entry?_of_lt coherent.sound.kernelStands below
    page_zero := by
      intro address first
      have below : (⟨address.toNat⟩ : VirtAddr).raw < processStart :=
        Nat.lt_trans first (by decide)
      rw [lookup, SpaceView.translation_word_of_lt view below,
        translation_kernelWord_page_zero first]
    kernel_only := by
      intro address mapping below maps user
      rcases coherent.user_cases found maps user with ⟨console, -⟩ | ⟨start, -⟩
      · exact console
      · omega
    above := by
      intro address above
      rw [lookup, SpaceView.translation_word_of_ge view above (inside address)] }

end Run.Regular

/-- In every state of every run each process is isolated from the others. -/
theorem Run.processes_are_isolated {setting : Run.Setting} {state : Run.State}
    (reached : Run.Reached setting state) (slot : Fin slotCount) (live : state.kernel.Live slot) :
    state.kernel.Isolated slot := by
  obtain ⟨boot, books, -, regular⟩ := Run.regular_of_reached reached
  exact regular.isolated live

/-- The first process of a run from blank memory is isolated. -/
theorem Run.small_process_is_isolated :
    ∃ (kernel : Kernel) (slot : Fin slotCount),
      Run.Reached .small ⟨kernel, .user (.ofIndex slot)⟩ ∧ kernel.Live slot ∧
      kernel.Isolated slot := by
  obtain ⟨kernel, slot, reached, runnable⟩ := Run.Setting.suitable_small.exists_running
  have live : kernel.Live slot := by simp [Kernel.Live, runnable]
  exact ⟨kernel, slot, reached, live, Run.processes_are_isolated reached slot live⟩

end PagingKernel
