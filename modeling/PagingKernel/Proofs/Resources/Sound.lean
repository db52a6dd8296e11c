import PagingKernel.Proofs.Books.Growth
import PagingKernel.Resources

/-!
# Sound resources

Memory and the process table are sound if there are books that both agree with:
the ledger is balanced against them, every directory that they list stands in
RAM, and a slot is free exactly if it has no space.  This is the invariant of
all that happens once the kernel has been booted.
-/

namespace PagingKernel

open PagingKernel.Action

/-! ## The process table by slots -/

namespace ProcessTable

variable {tasks : ProcessTable} {slot : Fin slotCount}

@[simp]
theorem slot?_ofIndex (slot : Fin slotCount) : slot? (.ofIndex slot) = some slot :=
  slot?_eq_some_iff.mpr rfl

theorem ofIndex_injective {first second : Fin slotCount}
    (same : Pid.ofIndex first = Pid.ofIndex second) : first = second := by
  have found := slot?_ofIndex first
  rw [same, slot?_ofIndex] at found
  exact (Option.some.inj found).symm

@[simp]
theorem get?_ofIndex (tasks : ProcessTable) (slot : Fin slotCount) :
    tasks.get? (.ofIndex slot) = some (tasks.process slot) := by
  simp [get?]

@[simp]
theorem modify_ofIndex (tasks : ProcessTable) (slot : Fin slotCount)
    (change : Process → Process) :
    tasks.modify (.ofIndex slot) change = tasks.put slot (change (tasks.process slot)) := by
  simp [modify]

theorem process_put_of_ne {other : Fin slotCount} (apart : other ≠ slot) (process : Process) :
    (tasks.put slot process).process other = tasks.process other := by
  rw [process_put, if_neg apart]

/-- Putting the process of a slot where it is changes nothing. -/
theorem put_process (tasks : ProcessTable) (slot : Fin slotCount) :
    tasks.put slot (tasks.process slot) = tasks := by
  refine ext_process fun other => ?_
  rw [process_put]
  split
  · rename_i same
    rw [same]
  · rfl

theorem ofIndex_eq_reserved_iff : Pid.ofIndex slot = .reserved ↔ slot = reservedSlot :=
  ⟨fun same => ofIndex_injective same, fun same => by rw [same]; rfl⟩

/-- A slot is vacant if it is free and without a space, unless it is the reserved one. -/
theorem vacantSlot_eq_ok_iff {pid : Pid} :
    tasks.vacantSlot pid = .ok slot ↔ pid = .ofIndex slot ∧ slot ≠ reservedSlot ∧
      (tasks.process slot).state = .free ∧ (tasks.process slot).space = none := by
  constructor
  · intro vacant
    unfold vacantSlot at vacant
    split at vacant
    · cases vacant
    · rename_i notReserved
      split at vacant
      · cases vacant
      · rename_i found
        dsimp only at vacant
        split at vacant
        · cases vacant
        · rename_i unused
          cases vacant
          obtain rfl := slot?_eq_some_iff.mp found
          simp only [Bool.or_eq_true, decide_eq_true_eq, not_or, not_not,
            Option.not_isSome_iff_eq_none] at unused
          exact ⟨rfl, fun same => notReserved (ofIndex_eq_reserved_iff.mpr same), unused⟩
  · rintro ⟨rfl, notReserved, free, none⟩
    rw [vacantSlot, if_neg (fun same => notReserved (ofIndex_eq_reserved_iff.mp same)),
      slot?_ofIndex]
    simp [free, none]

theorem firstFree?_eq_some {pid : Pid} (found : tasks.firstFree? = some pid) :
    ∃ free : Fin slotCount, pid = .ofIndex free ∧ free ≠ reservedSlot ∧
      (tasks.process free).state = .free := by
  obtain ⟨free, first, rfl⟩ := Option.map_eq_some_iff.mp found
  have accepted := List.find?_some first
  simp only [ne_eq, decide_not, Bool.and_eq_true, Bool.not_eq_eq_eq_not, Bool.not_true,
    decide_eq_false_iff_not, decide_eq_true_eq] at accepted
  exact ⟨free, rfl, accepted⟩

theorem firstFree?_lowest {free : Fin slotCount} (found : tasks.firstFree? = some (.ofIndex free))
    {lower : Fin slotCount} (below : lower < free) (notReserved : lower ≠ reservedSlot) :
    (tasks.process lower).state ≠ .free := by
  obtain ⟨first, located, same⟩ := Option.map_eq_some_iff.mp found
  obtain rfl := ofIndex_injective same
  obtain ⟨-, earlier, later, split, rejected⟩ := List.find?_eq_some_iff_append.mp located
  have ordered := List.pairwise_lt_finRange slotCount
  have member : lower ∈ earlier := by
    have listed := List.mem_finRange lower
    rw [split] at listed ordered
    rcases List.mem_append.mp listed with early | late
    · exact early
    · have above := (List.pairwise_append.mp ordered).2.1
      rcases List.mem_cons.mp late with rfl | after
      · exact absurd below (lt_irrefl _)
      · exact absurd (List.rel_of_pairwise_cons above after) (lt_asymm below)
  have refused := rejected lower member
  intro isFree
  simp [notReserved, isFree] at refused

/-- There is a slot for a new process exactly if one is free beside the reserved one. -/
theorem firstFree?_eq_none_iff :
    tasks.firstFree? = none ↔ ∀ slot, slot ≠ reservedSlot → (tasks.process slot).state ≠ .free := by
  rw [firstFree?, Option.map_eq_none_iff, List.find?_eq_none]
  simp

end ProcessTable

/-! ## Actions on resources -/

namespace Resources

variable {ε α : Type} {memory : Memory} {tasks : ProcessTable} {console : Console}
  {refused : ε → Resources → Prop}

@[simp]
theorem ensures_onMemory {action : Action Memory ε α} {done : α → Resources → Prop} :
    (onMemory action).Ensures ⟨memory, tasks, console⟩ done refused ↔
      action.Ensures memory (fun value next => done value ⟨next, tasks, console⟩)
        fun cause next => refused cause ⟨next, tasks, console⟩ := by
  unfold Ensures onMemory
  dsimp only
  cases action memory with
  | ok value next => rfl
  | error failure next => cases failure <;> rfl

@[simp]
theorem ensures_modifyTasks {change : ProcessTable → ProcessTable}
    {done : Unit → Resources → Prop} :
    (modifyTasks change : Action Resources ε Unit).Ensures ⟨memory, tasks, console⟩ done refused ↔
      done () ⟨memory, change tasks, console⟩ := by
  unfold Ensures modifyTasks
  rfl

theorem ensures_tryModifyTasks_ok {change : ProcessTable → Except ε ProcessTable}
    {next : ProcessTable} {done : Unit → Resources → Prop} (changed : change tasks = .ok next) :
    (tryModifyTasks change).Ensures ⟨memory, tasks, console⟩ done refused ↔
      done () ⟨memory, next, console⟩ := by
  unfold Ensures tryModifyTasks
  dsimp only
  rw [changed]

theorem ensures_tryModifyTasks_error {change : ProcessTable → Except ε ProcessTable} {cause : ε}
    {done : Unit → Resources → Prop} (denied : change tasks = .error cause) :
    (tryModifyTasks change).Ensures ⟨memory, tasks, console⟩ done refused ↔
      refused cause ⟨memory, tasks, console⟩ := by
  unfold Ensures tryModifyTasks
  dsimp only
  rw [denied]

@[simp]
theorem ensures_report {event : Event} {done : Unit → Resources → Prop} :
    (report event : Action Resources ε Unit).Ensures ⟨memory, tasks, console⟩ done refused ↔
      done () ⟨memory, tasks, console.emit event.line⟩ := by
  unfold Ensures report
  rfl

end Resources

/-! ## The invariant -/

/-- The books, memory and the process table agree. -/
structure Sound (boot : Ledger) (books : Books) (memory : Memory) (tasks : ProcessTable) :
    Prop where
  balanced : books.Balanced boot memory.ledger
  kernelStands : memory.ram.Spans books.kernelRoot books.kernelTable kernelWord
  stands : ∀ slot view, books.space slot = some view → view.Stands memory.ram
  spaces : ∀ slot, (tasks.process slot).space =
    (books.space slot).map fun view => .own (view.space (.process (.ofIndex slot)))
  live : ∀ slot, (tasks.process slot).state = .free ↔ books.space slot = none
  reserved : books.space ProcessTable.reservedSlot = none

namespace Sound

variable {boot : Ledger} {books : Books} {memory : Memory} {tasks : ProcessTable}
  {slot : Fin slotCount} {view : SpaceView}

/-- Nothing but the structural pages matters to soundness. -/
theorem ram_congr (sound : Sound boot books memory tasks) {next : Ram}
    (same : ∀ page, books.Structural page → Ram.SamePage memory.ram next page) :
    Sound boot books ⟨memory.ledger, next⟩ tasks where
  balanced := sound.balanced
  kernelStands := sound.kernelStands.congr (same _ (.inl rfl)) (same _ (.inr (.inl rfl)))
  stands slot view found := (sound.stands slot view found).congr
    (same _ (.inr (.inr ⟨slot, view, found, .inl rfl⟩)))
    (same _ (.inr (.inr ⟨slot, view, found, .inr rfl⟩)))
  spaces := sound.spaces
  live := sound.live
  reserved := sound.reserved

/-- Registers and the difference between running and broken do not matter to soundness. -/
theorem tasks_congr (sound : Sound boot books memory tasks) {next : ProcessTable}
    (spaces : ∀ slot, (next.process slot).space = (tasks.process slot).space)
    (live : ∀ slot, (next.process slot).state = .free ↔ (tasks.process slot).state = .free) :
    Sound boot books memory next where
  balanced := sound.balanced
  kernelStands := sound.kernelStands
  stands := sound.stands
  spaces slot := (spaces slot).trans (sound.spaces slot)
  live slot := (live slot).trans (sound.live slot)
  reserved := sound.reserved

/-- The process of a slot may be replaced by one in the same space, if it is as free as that. -/
theorem replace (sound : Sound boot books memory tasks) {process : Process}
    (live : process.state = .free ↔ (tasks.process slot).state = .free)
    (kept : process.space = (tasks.process slot).space) :
    Sound boot books memory (tasks.put slot process) := by
  refine sound.tasks_congr (fun other => ?_) fun other => ?_
  · rw [ProcessTable.process_put]
    split
    · rename_i here
      rw [here, kept]
    · rfl
  · rw [ProcessTable.process_put]
    split
    · rename_i here
      rw [here]
      exact live
    · rfl

theorem ownSpace (sound : Sound boot books memory tasks) (found : books.space slot = some view) :
    (tasks.process slot).ownSpace? = some (view.space (.process (.ofIndex slot))) := by
  have listed := sound.spaces slot
  rw [found, Option.map_some] at listed
  rw [Process.ownSpace?, listed]

/-- A slot that is not free has a space of its own. -/
theorem exists_space (sound : Sound boot books memory tasks)
    (inUse : (tasks.process slot).state ≠ .free) : ∃ view, books.space slot = some view :=
  Option.ne_none_iff_exists'.mp fun vacant => inUse ((sound.live slot).mpr vacant)

/-! ## Growing -/

/-- A vacant slot is given a space that was built while all taken pages kept their bytes. -/
theorem addSpace (sound : Sound boot books memory tasks) (vacant : books.space slot = none)
    (notReserved : slot ≠ ProcessTable.reservedSlot) {child : SpaceView} {next : Ram}
    (built : Built memory.ledger memory.ram child next) (single : ∀ page, child.refs page ≤ 1)
    (shared : ∀ page, memory.ledger.Taken page → 0 < child.refs page → ∃ other second place,
      books.space other = some second ∧ second.leaf place = some ⟨page, false⟩)
    {process : Process} (inUse : process.state ≠ .free)
    (attached : process.space = some (.own (child.space (.process (.ofIndex slot))))) :
    Sound boot (books.setSpace slot child)
      ⟨memory.ledger.charge (.process (.ofIndex slot)) child.refs, next⟩
      (tasks.put slot process) where
  balanced := sound.balanced.addSpace vacant built single shared
  kernelStands := sound.kernelStands.congr (built.kept _ sound.balanced.kernelRoot_taken)
    (built.kept _ sound.balanced.kernelTable_taken)
  stands other view found := by
    rw [Books.space_setSpace] at found
    split at found
    · obtain rfl := Option.some.inj found
      exact built.stands
    · refine (sound.stands other view found).congr (built.kept _ ?_) (built.kept _ ?_)
      · exact sound.balanced.taken_of_refs found view.refs_root_pos
      · exact sound.balanced.taken_of_refs found view.refs_table_pos
  spaces other := by
    rw [Books.space_setSpace, ProcessTable.process_put]
    split
    · rename_i same
      rw [same, attached]
      rfl
    · exact sound.spaces other
  live other := by
    rw [Books.space_setSpace, ProcessTable.process_put]
    split
    · simp [inUse]
    · exact sound.live other
  reserved := by
    rw [Books.space_setSpace, if_neg notReserved.symm]
    exact sound.reserved

/-- A space gains a leaf, on a page that was free, by a word of its page table. -/
theorem addLeaf (sound : Sound boot books memory tasks) (found : books.space slot = some view)
    {place : Fin processPageCount} (vacant : view.leaf place = none) {page : Fin pageCount}
    (untaken : ¬memory.ledger.Taken page) {next : Ram}
    (stands : (view.setLeaf place ⟨page, true⟩).Stands next)
    (kept : ∀ other, other ≠ page → other ≠ view.table → Ram.SamePage memory.ram next other) :
    Sound boot (books.setSpace slot (view.setLeaf place ⟨page, true⟩))
      ⟨memory.ledger.charge (.process (.ofIndex slot)) (Pi.single page 1), next⟩ tasks := by
  have keptElsewhere {held : Fin pageCount} (elsewhere : books.BelongsElsewhere slot held) :
      Ram.SamePage memory.ram next held := by
    apply kept
    · rintro rfl
      exact untaken (elsewhere.taken sound.balanced)
    · rintro rfl
      exact elsewhere.not_private sound.balanced found (.inr (.inl rfl))
  exact {
    balanced := sound.balanced.addLeaf found vacant untaken
    kernelStands := sound.kernelStands.congr (keptElsewhere (.inl rfl))
      (keptElsewhere (.inr (.inl rfl)))
    stands := by
      intro other second foundOther
      rw [Books.space_setSpace] at foundOther
      split at foundOther
      · obtain rfl := Option.some.inj foundOther
        exact stands
      · rename_i apart
        apply (sound.stands other second foundOther).congr
        · exact keptElsewhere (.inr (.inr ⟨other, second, apart, foundOther, second.refs_root_pos⟩))
        · exact keptElsewhere
            (.inr (.inr ⟨other, second, apart, foundOther, second.refs_table_pos⟩))
    spaces := by
      intro other
      rw [Books.space_setSpace]
      split
      · rename_i same
        rw [same, sound.spaces slot, found]
        rfl
      · exact sound.spaces other
    live := by
      intro other
      rw [Books.space_setSpace]
      split
      · rename_i same
        rw [same, sound.live slot, found]
        simp
      · exact sound.live other
    reserved := by
      rw [Books.space_setSpace]
      split
      · rename_i same
        rw [← same, sound.reserved] at found
        cases found
      · exact sound.reserved }

end Sound

end PagingKernel
