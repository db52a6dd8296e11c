import PagingKernel.Proofs.Run.References

/-!
# Steps do not interfere

A step of one process leaves every other process alone: its registers, its
mappings and whatever it reads in the process range.  A slot changes under a
step of another process only if it was the lowest free one and the step is a
successful fork.
-/

namespace PagingKernel.Run

open PageTable

/-- A step of the process of a slot leaves all other processes alone. -/
structure Undisturbed (slot : Fin slotCount) (event : Event) (before after : State) : Prop where
  process : ∀ other, other ≠ slot → before.kernel.Live other →
    after.kernel.resources.tasks.process other = before.kernel.resources.tasks.process other
  root : ∀ other, other ≠ slot → before.kernel.Live other →
    after.kernel.directory other = before.kernel.directory other
  mappings : ∀ other, other ≠ slot → before.kernel.Live other → ∀ address : UInt32,
    (after.kernel.directory other).lookup after.kernel.resources.memory.ram ⟨address.toNat⟩ =
      (before.kernel.directory other).lookup before.kernel.resources.memory.ram ⟨address.toNat⟩
  bytes : ∀ other, other ≠ slot → before.kernel.Live other → ∀ address : UInt32,
    processStart ≤ address.toNat → address.toNat < virtualSize →
    (after.kernel.userSpace other).userByte? after.kernel.resources.memory.ram ⟨address.toNat⟩ =
      (before.kernel.userSpace other).userByte? before.kernel.resources.memory.ram
        ⟨address.toNat⟩
  filled : ∀ other, other ≠ slot →
    after.kernel.resources.tasks.process other ≠ before.kernel.resources.tasks.process other →
    before.kernel.resources.tasks.firstFree? = some (.ofIndex other) ∧ event.Forks slot other after
  kernel_mappings : ∀ address : UInt32,
    after.kernel.space.dir.lookup after.kernel.resources.memory.ram ⟨address.toNat⟩ =
      before.kernel.space.dir.lookup before.kernel.resources.memory.ram ⟨address.toNat⟩
  ticks : after.kernel.scheduler.ticks = before.kernel.scheduler.ticks + event.ticks

variable {setting : Setting} {boot : Ledger} {books : Books} {state next : State} {event : Event}
  {slot other : Fin slotCount} {view : SpaceView}

/-- The pages of other spaces and of the kernel's directory keep their bytes. -/
theorem Moved.pages (moved : Moved boot books slot event state next) {page : Fin pageCount}
    (elsewhere : books.BelongsElsewhere slot page) :
    Ram.SamePage state.kernel.resources.memory.ram next.kernel.resources.memory.ram page := by
  obtain ⟨child, spared, -⟩ := moved.spared
  exact spared.pages page elsewhere

theorem Moved.process_eq (moved : Moved boot books slot event state next)
    (apart : other ≠ slot) (live : state.kernel.Live other) :
    next.kernel.resources.tasks.process other = state.kernel.resources.tasks.process other := by
  obtain ⟨child, spared, -⟩ := moved.spared
  apply spared.processes other apart
  rintro rfl
  obtain ⟨free, same, -, isFree⟩ :=
    ProcessTable.firstFree?_eq_some (spared.child_free other rfl)
  obtain rfl := ProcessTable.ofIndex_injective same
  exact live isFree

theorem Moved.userSpace_eq (moved : Moved boot books slot event state next)
    (apart : other ≠ slot) (live : state.kernel.Live other) :
    next.kernel.userSpace other = state.kernel.userSpace other := by
  rw [Kernel.userSpace, Kernel.userSpace, moved.process_eq apart live, moved.space_eq]

/-- Another slot changes only if it was the lowest free one, by a fork that succeeds. -/
theorem Moved.filled (moved : Moved boot books slot event state next) (apart : other ≠ slot)
    (changed : next.kernel.resources.tasks.process other ≠
      state.kernel.resources.tasks.process other) :
    state.kernel.resources.tasks.firstFree? = some (.ofIndex other) ∧
      event.Forks slot other next := by
  obtain ⟨child, spared, forks⟩ := moved.spared
  by_cases isChild : child = some other
  · exact ⟨spared.child_free other isChild, forks other isChild⟩
  · exact absurd (spared.processes other apart isChild) changed

/-- A step from a regular state leaves all other processes alone. -/
theorem Moved.undisturbed (moved : Moved boot books slot event state next)
    (regular : Regular boot books state) : Undisturbed slot event state next := by
  have coherent := regular.coherent
  have elsewhere {other : Fin slotCount} {view : SpaceView} (apart : other ≠ slot)
      (found : books.space other = some view) {page : Fin pageCount}
      (referenced : 0 < view.refs page) :
      Ram.SamePage state.kernel.resources.memory.ram next.kernel.resources.memory.ram page :=
    moved.pages (.inr (.inr ⟨other, view, apart, found, referenced⟩))
  exact {
    process := fun other apart live => moved.process_eq apart live
    root := by
      intro other apart live
      rw [Kernel.directory, Kernel.directory, moved.userSpace_eq apart live]
    mappings := by
      intro other apart live address
      obtain ⟨view, found⟩ := coherent.live_iff.mp live
      have stands := coherent.sound.stands other view found
      have after := stands.congr (elsewhere apart found view.refs_root_pos)
        (elsewhere apart found view.refs_table_pos)
      rw [Kernel.directory, moved.userSpace_eq apart live, ← Kernel.directory,
        coherent.directory_eq found, stands.lookup_eq, after.lookup_eq]
    bytes := by
      intro other apart live address start stop
      obtain ⟨view, found⟩ := coherent.live_iff.mp live
      obtain below | ⟨place, number⟩ | above := VirtAddr.place_cases ⟨address.toNat⟩
      · exact absurd start (Nat.not_le_of_lt below)
      · rw [moved.userSpace_eq apart live, coherent.userSpace_eq found]
        exact (coherent.sound.stands other view found).userByte?_congr number
          (elsewhere apart found view.refs_root_pos) (elsewhere apart found view.refs_table_pos)
          fun leaf mapped => elsewhere apart found (SpaceView.refs_leaf_pos mapped)
      · exact absurd stop (Nat.not_lt_of_le above)
    filled := fun other apart changed => moved.filled apart changed
    kernel_mappings := by
      intro address
      have stands := coherent.sound.kernelStands
      have after := stands.congr (moved.pages (.inl rfl)) (moved.pages (.inr (.inl rfl)))
      rw [moved.space_eq, coherent.space_eq, stands.lookup_eq, after.lookup_eq]
    ticks := moved.ticks_eq }

/-- Every step of every run leaves the processes alone whose turn it is not. -/
theorem steps_do_not_interfere (reached : Reached setting state) (step : Step state event next)
    (turn : state.phase.pid? = some (.ofIndex slot)) : Undisturbed slot event state next := by
  obtain ⟨boot, books, -, regular⟩ := regular_of_reached reached
  obtain ⟨mover, same, moved⟩ := regular.moved step
  obtain rfl := ProcessTable.ofIndex_injective (Option.some.inj (turn.symm.trans same))
  exact moved.undisturbed regular

/-- The first fork in a run from blank memory leaves the other processes alone. -/
theorem small_fork_does_not_interfere :
    ∃ (state next : State) (slot : Fin slotCount), Reached .small state ∧
      state.phase.pid? = some (.ofIndex slot) ∧
      Step state (.trap 0 forkFrame) next ∧
      Undisturbed slot (.trap 0 forkFrame) state next := by
  obtain ⟨kernel, slot, reached, -⟩ := Setting.suitable_small.exists_running
  have step := Step.trap kernel (.ofIndex slot) 0 forkFrame
  exact ⟨_, _, slot, reached, rfl, step, steps_do_not_interfere reached step rfl⟩

end PagingKernel.Run
