import PagingKernel.Proofs.Process.Setup
import PagingKernel.Proofs.Twin.Programs

/-!
# Processes created in two memories

A process is created from pages that are cleared or filled before anything is
mapped to them, so that it starts with the same space and the same bytes in all
memories.  If it is refused, both memories give back what was taken.
-/

namespace PagingKernel

open PageTable PagingKernel.Action

/-- Of the ledger, memories that are alike depend only on which pages are taken. -/
theorem Memory.Alike.ledger_congr {boot base other : Ledger} {left right : Ram}
    (alike : Memory.Alike boot ⟨base, left⟩ ⟨base, right⟩)
    (same : ∀ page, other.Taken page ↔ base.Taken page) :
    Memory.Alike boot ⟨other, left⟩ ⟨other, right⟩ where
  ledger_eq := rfl
  pages page taken new := alike.pages page ((same page).mp taken) new

namespace Resources

/-- The process tables are the same, and the memories are alike. -/
structure Alike (boot : Ledger) (left right : Resources) : Prop where
  tasks_eq : left.tasks = right.tasks
  memory : Memory.Alike boot left.memory right.memory

/-! ## Actions on parts of the resources -/

section Parts

variable {ε α : Type} {leftMemory rightMemory : Memory} {leftTasks rightTasks : ProcessTable}
  {leftConsole rightConsole : Console} {refused : ε → Resources → Resources → Prop}

theorem agree_onMemory {left right : Action Memory ε α} {done : α → Resources → Resources → Prop}
    (agree : Agree left right leftMemory rightMemory
      (fun value leftNext rightNext =>
        done value ⟨leftNext, leftTasks, leftConsole⟩ ⟨rightNext, rightTasks, rightConsole⟩)
      fun cause leftNext rightNext =>
        refused cause ⟨leftNext, leftTasks, leftConsole⟩ ⟨rightNext, rightTasks, rightConsole⟩) :
    Agree (onMemory left) (onMemory right) ⟨leftMemory, leftTasks, leftConsole⟩
      ⟨rightMemory, rightTasks, rightConsole⟩ done refused := by
  rcases agree_iff.mp agree with
    ⟨value, stop, last, ranLeft, ranRight, held⟩ | ⟨cause, stop, last, ranLeft, ranRight, held⟩
  · refine agree_of_eq_ok ?_ ?_ held
    · simp only [onMemory, ranLeft]
    · simp only [onMemory, ranRight]
  · refine agree_of_eq_error ?_ ?_ held
    · simp only [onMemory, ranLeft]
    · simp only [onMemory, ranRight]

theorem agree_modifyTasks {change : ProcessTable → ProcessTable}
    {done : Unit → Resources → Resources → Prop}
    (held : done () ⟨leftMemory, change leftTasks, leftConsole⟩
      ⟨rightMemory, change rightTasks, rightConsole⟩) :
    Agree (modifyTasks change) (modifyTasks change) ⟨leftMemory, leftTasks, leftConsole⟩
      ⟨rightMemory, rightTasks, rightConsole⟩ done refused :=
  agree_of_eq_ok rfl rfl held

theorem agree_report {event : Event} {done : Unit → Resources → Resources → Prop}
    (held : done () ⟨leftMemory, leftTasks, leftConsole.emit event.line⟩
      ⟨rightMemory, rightTasks, rightConsole.emit event.line⟩) :
    Agree (report event) (report event) ⟨leftMemory, leftTasks, leftConsole⟩
      ⟨rightMemory, rightTasks, rightConsole⟩ done refused :=
  agree_of_eq_ok rfl rfl held

end Parts

/-! ## Building the space -/

variable {base : Ledger} {beforeLeft beforeRight left right : Ram} {tasks : ProcessTable}
  {leftConsole rightConsole : Console} {view : SpaceView} {owner : Owner} {image : ProgramImage}

/-- Resources with the same process table, in whose memories the same space has been built. -/
def TwinFilled (base : Ledger) (beforeLeft beforeRight : Ram) (owner : Owner)
    (tasks : ProcessTable) (space : AddressSpace) (left right : Resources) : Prop :=
  ∃ view leftRam rightRam leftConsole rightConsole, space = view.space owner ∧
    left = ⟨⟨base.charge owner view.refs, leftRam⟩, tasks, leftConsole⟩ ∧
    right = ⟨⟨base.charge owner view.refs, rightRam⟩, tasks, rightConsole⟩ ∧
    TwinBuilt base beforeLeft beforeRight view leftRam rightRam

/-- Resources with the same process table, in whose memories a construction was undone. -/
def TwinCleared (base : Ledger) (beforeLeft beforeRight : Ram) (tasks : ProcessTable)
    (left right : Resources) : Prop :=
  left.tasks = tasks ∧ right.tasks = tasks ∧
    TwinUndone base beforeLeft beforeRight left.memory right.memory

/-- A program and its stack are placed alike in a new space. -/
theorem agree_populate (image : ProgramImage)
    (twin : TwinBuilt base beforeLeft beforeRight view left right)
    (vacant : ∀ place, view.leaf place = none) (tidy : base.Tidy) (owned : owner ≠ .free) :
    Agree (populate image (view.space owner)) (populate image (view.space owner))
      ⟨⟨base.charge owner view.refs, left⟩, tasks, leftConsole⟩
      ⟨⟨base.charge owner view.refs, right⟩, tasks, rightConsole⟩
      (fun _ => TwinFilled base beforeLeft beforeRight owner tasks (view.space owner))
      fun _ => TwinFilled base beforeLeft beforeRight owner tasks (view.space owner) := by
  refine agree_bind (agree_mapCause (agree_bind (agree_onMemory
    ((image.agree_place twin vacant tidy owned).mono ?_ ?_))))
  · rintro entry _ _ ⟨child, leftNext, rightNext, sameSpace, rfl, rfl, placing⟩
    have noStack : child.leaf stackPlace = none := by
      by_contra mapped
      have listed := placing.onLeft.mapped_subset
        (SpaceView.mem_mapped.mpr (Option.isSome_iff_ne_none.mpr mapped))
      exact absurd rfl (Finset.ne_of_mem_erase listed)
    refine agree_bind (agree_report (agree_pure (agree_bind (agree_mapCause (agree_onMemory ?_)))))
    rw [sameSpace, ← ofPage_stackPlace]
    refine (placing.twinBuilt.agree_mapFresh tidy owned noStack true).mono ?_ ?_
    · rintro _ _ _ ⟨page, leftLast, rightLast, rfl, -, rfl, rfl, next⟩
      exact agree_pure ⟨child.setLeaf stackPlace ⟨page, true⟩, leftLast, rightLast, _, _, rfl, rfl,
        rfl, next⟩
    · rintro _ _ _ ⟨rfl, rfl⟩
      exact ⟨child, leftNext, rightNext, _, _, rfl, rfl, rfl, placing.twinBuilt⟩
  · rintro _ _ _ ⟨child, leftNext, rightNext, sameSpace, rfl, rfl, placing⟩
    exact ⟨child, leftNext, rightNext, _, _, sameSpace, rfl, rfl, placing.twinBuilt⟩

/-- A space is built alike for a program, or undone alike. -/
theorem agree_buildSpace {kernelRoot kernelTable : Fin pageCount} (tidy : base.Tidy)
    (kernelLeft : left.Spans kernelRoot kernelTable kernelWord)
    (kernelRight : right.Spans kernelRoot kernelTable kernelWord)
    (rootTaken : base.Taken kernelRoot) (tableTaken : base.Taken kernelTable)
    (programs : ProgramTable) (pid : Pid) (program : Nat) :
    Agree (buildSpace ⟨⟨.ofPage kernelRoot⟩, .kernel⟩ programs pid program)
      (buildSpace ⟨⟨.ofPage kernelRoot⟩, .kernel⟩ programs pid program)
      ⟨⟨base, left⟩, tasks, leftConsole⟩ ⟨⟨base, right⟩, tasks, rightConsole⟩
      (fun built => TwinFilled base left right (.process pid) tasks built.1)
      fun _ => TwinCleared base left right tasks := by
  have owned : Owner.process pid ≠ .free := by simp
  refine agree_bind ?_
  cases programs.image? program with
  | none => exact agree_require_none ⟨rfl, rfl, TwinUndone.refl base left right⟩
  | some image =>
      refine agree_require_some (agree_bind (agree_mapCause (agree_onMemory
        ((AddressSpace.agree_ofTemplate tidy kernelLeft kernelRight rootTaken tableTaken
          pid).mono ?_ ?_))))
      · rintro _ _ _ ⟨view, leftFirst, rightFirst, rfl, vacant, rfl, rfl, twin⟩
        refine agree_bind (agree_onRefusal
          ((agree_populate image twin vacant tidy owned).mono ?_ ?_))
        · intro entry _ _ filled
          exact agree_pure filled
        · rintro _ _ _ ⟨child, leftNext, rightNext, _, _, sameSpace, rfl, rfl, next⟩
          rw [sameSpace]
          refine agree_mapCause (agree_onMemory (AddressSpace.agree_release next tidy ?_))
          exact fun _ _ undone => ⟨rfl, rfl, undone⟩
      · exact fun _ _ _ undone => ⟨rfl, rfl, undone⟩

/-! ## Creating a process -/

/-- A process is created alike, or denied alike, in resources that are alike. -/
theorem agree_setup {boot : Ledger} {books : Books} {leftStart rightStart : Resources}
    (alike : Alike boot leftStart rightStart)
    (onLeft : Sound boot books leftStart.memory leftStart.tasks)
    (onRight : Sound boot books rightStart.memory rightStart.tasks) (programs : ProgramTable)
    (pid : Pid) (program : Nat) :
    Agree (setup ⟨⟨.ofPage books.kernelRoot⟩, .kernel⟩ programs pid program)
      (setup ⟨⟨.ofPage books.kernelRoot⟩, .kernel⟩ programs pid program) leftStart rightStart
      (fun _ => Alike boot) fun _ => Alike boot := by
  rcases leftStart with ⟨⟨ledger, left⟩, tasks, leftConsole⟩
  rcases rightStart with ⟨⟨_, right⟩, _, rightConsole⟩
  obtain ⟨rfl, alike⟩ := alike
  obtain rfl := alike.ledger_eq
  have balanced := onLeft.balanced
  cases vacant : tasks.vacantSlot pid with
  | error cause =>
      refine agree_of_ensures_refused (ensures_setup_of_occupied vacant programs program)
        (ensures_setup_of_occupied vacant programs program) ?_
      rintro _ _ _ _ ⟨rfl, rfl⟩ ⟨rfl, rfl⟩
      exact ⟨rfl, rfl, alike⟩
  | ok slot =>
      obtain ⟨rfl, -⟩ := ProcessTable.vacantSlot_eq_ok_iff.mp vacant
      have owned : Owner.process (.ofIndex slot) ≠ .free := by simp
      have room : (ledger.entry books.kernelRoot).refcount < refcountLimit := by
        rw [balanced.kernelRootEntry]
        decide
      have tidy := balanced.tidy
      have rootTaken := balanced.kernelRoot_taken
      have same (page : Fin pageCount) : (ledger.charge (.process (.ofIndex slot))
          (Pi.single books.kernelRoot 1)).Taken page ↔ ledger.Taken page :=
        Ledger.taken_charge_single_iff rootTaken page
      have attached := alike.ledger_congr same
      refine agree_bind (agree_of_eq_ok
        (initProcess_eq_ok rootTaken room vacant (.process (.ofIndex slot)))
        (initProcess_eq_ok rootTaken room vacant (.process (.ofIndex slot))) ?_)
      refine agree_bind (agree_onRefusal ((agree_buildSpace (tidy.charge owned _)
        onLeft.kernelStands onRight.kernelStands (rootTaken.charge _ _)
        (balanced.kernelTable_taken.charge _ _) programs (.ofIndex slot) program).mono ?_ ?_))
      · rintro ⟨space, entry⟩ _ _ ⟨child, leftNext, rightNext, _, _, isSpace, rfl, rfl, twin⟩
        have filled := twin.alike attached (.process (.ofIndex slot))
        rw [Ledger.charge_charge, add_comm] at filled ⊢
        refine agree_bind (agree_of_eq_ok (detachKernel_eq_ok tidy books.kernelRoot child.refs)
          (detachKernel_eq_ok tidy books.kernelRoot child.refs) ?_)
        refine agree_bind (agree_modifyTasks (agree_report ⟨rfl, filled.ledger_congr ?_⟩))
        intro page
        rw [add_comm, ← Ledger.charge_charge, Ledger.taken_charge_iff, Ledger.taken_charge_iff,
          same page]
      · rintro _ ⟨_, _, _⟩ ⟨_, _, _⟩ ⟨rfl, rfl, undone⟩
        have cleared := undone.alike attached
        obtain ⟨leftNext, rightNext, rfl, rfl, -⟩ := undone
        have rootAlone : (Pi.single books.kernelRoot 1 : Fin pageCount → Nat) =
          0 + Pi.single books.kernelRoot 1 := (zero_add _).symm
        rw [rootAlone]
        refine agree_bind (agree_of_eq_ok (detachKernel_eq_ok tidy books.kernelRoot 0)
          (detachKernel_eq_ok tidy books.kernelRoot 0) (agree_modifyTasks ⟨rfl, ?_⟩))
        rw [Ledger.charge_zero]
        exact cleared.ledger_congr fun page => (same page).symm

end Resources

end PagingKernel
