import PagingKernel.Kernel.Trap
import PagingKernel.Proofs.Resources.Sound

/-!
# Who runs next

The scheduler goes round the whole table, so that it finds a runnable process
wherever it starts, if there is one, and the nearest one behind the current one.
Each choice therefore either is a given runnable process or comes nearer to it.
-/

namespace PagingKernel

namespace Scheduler

variable {table : ProcessTable} {current : Pid}

/-! ## Going round the table -/

/-- How many slots behind another a slot lies, going round the table; it lies a whole round behind
itself. -/
def distance (current target : Fin slotCount) : Nat :=
  if current < target then target - current else slotCount + target - current

theorem distance_pos (current target : Fin slotCount) : 1 ≤ distance current target := by
  have inside := current.isLt
  unfold distance
  split <;> omega

/-- The slot at its distance is the slot itself. -/
theorem slotAfter_distance (current target : Fin slotCount) :
    slotAfter (.ofIndex current) (distance current target) = .ofIndex target := by
  have small : current.val < UInt32.size := Nat.lt_trans current.isLt (by decide)
  have inside := target.isLt
  refine congrArg Pid.ofIndex ?_
  rw [Pid.index_ofIndex small]
  unfold distance
  simp only [slotCount] at *
  split <;> omega

/-- A slot that is passed on the way to another lies nearer to it. -/
theorem distance_lt_of_slotAfter {current next target : Fin slotCount} {passed : Nat}
    (positive : 1 ≤ passed) (before : passed < distance current target)
    (isNext : slotAfter (.ofIndex current) passed = .ofIndex next) :
    distance next target < distance current target := by
  have small : current.val < UInt32.size := Nat.lt_trans current.isLt (by decide)
  have inside := Nat.mod_lt (current.val + passed) (show 0 < slotCount by decide)
  rw [slotAfter, Pid.index_ofIndex small] at isNext
  have number := ProcessTable.ofIndex_injective
    (show Pid.ofIndex (⟨(current.val + passed) % slotCount, inside⟩ : Fin slotCount) =
      .ofIndex next from isNext)
  obtain rfl := number
  have inTable := target.isLt
  have inTableToo := current.isLt
  simp only [distance, slotCount, Fin.lt_def] at *
  split at before <;> split <;> omega

/-- Every slot lies at some distance, from wherever the search starts. -/
theorem exists_slotAfter (current : Pid) (slot : Fin slotCount) :
    ∃ distance, 1 ≤ distance ∧ distance ≤ slotCount ∧
      slotAfter current distance = .ofIndex slot := by
  have bound := slot.isLt
  have reached : ∃ distance, 1 ≤ distance ∧ distance ≤ slotCount ∧
      (current.index + distance) % slotCount = slot := by
    simp only [slotCount] at *
    by_cases behind : current.index % 16 < slot
    · exact ⟨slot - current.index % 16, by omega, by omega, by omega⟩
    · exact ⟨16 + slot - current.index % 16, by omega, by omega, by omega⟩
  rcases reached with ⟨distance, above, below, same⟩
  exact ⟨distance, above, below, congrArg Pid.ofIndex same⟩

/-! ## What is picked -/

/-- The nearest runnable process behind the current one is picked, or none if none is runnable. -/
def Picks (table : ProcessTable) (current : Pid) : Option Pid → Prop
  | some pid => ∃ distance, 1 ≤ distance ∧ distance ≤ slotCount ∧
      pid = slotAfter current distance ∧ table.state? pid = some .runnable ∧
      ∀ nearer, 1 ≤ nearer → nearer < distance →
        table.state? (slotAfter current nearer) ≠ some .runnable
  | none => ∀ pid, table.state? pid ≠ some .runnable

theorem state?_ofIndex (table : ProcessTable) (slot : Fin slotCount) :
    table.state? (.ofIndex slot) = some (table.process slot).state := by
  rw [ProcessTable.state?, ProcessTable.get?_ofIndex, Option.map_some]

/-- What a table says of an identifier it says of a slot. -/
theorem exists_slot_of_state? {pid : Pid} {state : ProcessState}
    (found : table.state? pid = some state) :
    ∃ slot : Fin slotCount, pid = .ofIndex slot ∧ (table.process slot).state = state := by
  obtain ⟨process, isProcess, rfl⟩ := Option.map_eq_some_iff.mp found
  obtain ⟨slot, named, rfl⟩ := Option.map_eq_some_iff.mp isProcess
  exact ⟨slot, ProcessTable.slot?_eq_some_iff.mp named, rfl⟩

/-- The search picks the nearest runnable process, whatever the table and wherever it starts. -/
theorem picks_pickNext (table : ProcessTable) (current : Pid) :
    Picks table current (pickNext table current) := by
  cases picked : pickNext table current with
  | some pid =>
      rw [pickNext, List.find?_map, Option.map_eq_some_iff] at picked
      obtain ⟨distance, found, rfl⟩ := picked
      obtain ⟨accepted, listed, rejected⟩ := List.find?_range'_eq_some.mp found
      obtain ⟨above, below⟩ := List.mem_range'_1.mp listed
      refine ⟨distance, above, by omega, rfl, ?_, fun nearer positive isNearer => ?_⟩
      · simpa using accepted
      · simpa using rejected nearer positive isNearer
  | none =>
      intro pid runnable
      obtain ⟨slot, rfl, -⟩ := exists_slot_of_state? runnable
      obtain ⟨distance, above, below, same⟩ := exists_slotAfter current slot
      have listed : Pid.ofIndex slot ∈ (List.range' 1 slotCount).map (slotAfter current) := by
        rw [← same]
        exact List.mem_map_of_mem (List.mem_range'_1.mpr ⟨above, by omega⟩)
      have rejected := List.find?_eq_none.mp picked _ listed
      rw [runnable] at rejected
      exact rejected rfl

/-- A process that is picked is runnable. -/
theorem pickNext_eq_some {pid : Pid} (picked : pickNext table current = some pid) :
    ∃ slot : Fin slotCount, pid = .ofIndex slot ∧ (table.process slot).state = .runnable := by
  have picks := picks_pickNext table current
  rw [picked] at picks
  obtain ⟨_, -, -, -, runnable, -⟩ := picks
  exact exists_slot_of_state? runnable

/-- No process is picked only if none is runnable. -/
theorem pickNext_eq_none (picked : pickNext table current = none) (slot : Fin slotCount) :
    (table.process slot).state ≠ .runnable := by
  have picks := picks_pickNext table current
  rw [picked] at picks
  intro runnable
  exact picks (.ofIndex slot) (by rw [state?_ofIndex, runnable])

/-- While a process can run, the search picks it or one that lies nearer to it. -/
theorem pickNext_approaches {current target : Fin slotCount}
    (runnable : (table.process target).state = .runnable) :
    ∃ next : Fin slotCount, pickNext table (.ofIndex current) = some (.ofIndex next) ∧
      (table.process next).state = .runnable ∧
      (next = target ∨ distance next target < distance current target) := by
  have picks := picks_pickNext table (.ofIndex current)
  cases picked : pickNext table (.ofIndex current) with
  | none => exact absurd runnable (pickNext_eq_none picked target)
  | some pid =>
      obtain ⟨next, rfl, canRun⟩ := pickNext_eq_some picked
      rw [picked] at picks
      obtain ⟨passed, positive, -, isNext, -, nearest⟩ := picks
      refine ⟨next, rfl, canRun, ?_⟩
      obtain earlier | same | later := Nat.lt_trichotomy passed (distance current target)
      · exact .inr (distance_lt_of_slotAfter positive earlier isNext.symm)
      · rw [same, slotAfter_distance] at isNext
        exact .inl (ProcessTable.ofIndex_injective isNext)
      · refine absurd ?_ (nearest _ (distance_pos current target) later)
        rw [slotAfter_distance, state?_ofIndex, runnable]

end Scheduler

/-- Who runs next can run, and nobody runs next only if nobody can. -/
def Dispatch.Fits (tasks : ProcessTable) : Dispatch → Prop
  | .resume pid => ∃ slot : Fin slotCount, pid = .ofIndex slot ∧
      slot ≠ ProcessTable.reservedSlot ∧ (tasks.process slot).state = .runnable
  | .idle => ∀ slot, (tasks.process slot).state ≠ .runnable

theorem Dispatch.Fits.runnable {tasks : ProcessTable} {slot : Fin slotCount}
    (fits : Dispatch.Fits tasks (.resume (.ofIndex slot))) :
    (tasks.process slot).state = .runnable := by
  rcases fits with ⟨other, same, -, runnable⟩
  rw [ProcessTable.ofIndex_injective same]
  exact runnable

theorem Sound.ne_reserved {boot : Ledger} {books : Books} {memory : Memory} {tasks : ProcessTable}
    (sound : Sound boot books memory tasks) {slot : Fin slotCount}
    (inUse : (tasks.process slot).state ≠ .free) : slot ≠ ProcessTable.reservedSlot := by
  rintro rfl
  exact inUse ((sound.live _).mpr sound.reserved)

end PagingKernel
