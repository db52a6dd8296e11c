import PagingKernel.Proofs.Creation.Standing

/-!
# What creating and serving processes keeps

Resources are sound for as long as the reserved slot is free.  Should it be
marked broken, no check passes any more, but what the calls rely on still
stands.  Creating processes and serving them keeps this, whoever the caller is.
-/

namespace PagingKernel

open PagingKernel.Action

/-- Some books agree with the resources, with the kernel's directory where it was. -/
def StillSound (boot : Ledger) (kernelRoot : Fin pageCount) (resources : Resources) : Prop :=
  ∃ books, Sound boot books resources.memory resources.tasks ∧ books.kernelRoot = kernelRoot

/-- Everything stands, and the resources are sound unless the reserved slot is in use. -/
structure Kept (boot : Ledger) (kernelRoot : Fin pageCount) (resources : Resources) : Prop where
  standing : StillStanding kernelRoot resources
  sound : (resources.tasks.process ProcessTable.reservedSlot).state = .free →
    StillSound boot kernelRoot resources

variable {ε α : Type} {boot : Ledger} {books : Books} {kernelRoot : Fin pageCount}
  {memory : Memory} {tasks : ProcessTable} {console : Console} {slot : Fin slotCount}

/-- A call by anybody leaves sound resources sound. -/
theorem Sound.ensures_syscall (sound : Sound boot books memory tasks) (call : Syscall)
    (caller : Pid) (argument : UInt32) (console : Console) :
    (call.perform ⟨⟨.ofPage books.kernelRoot⟩, .kernel⟩ caller argument).Ensures
        ⟨memory, tasks, console⟩ (fun _ => StillSound boot books.kernelRoot)
      fun _ => StillSound boot books.kernelRoot := by
  cases own : (tasks.get? caller).bind (·.ownSpace?) with
  | some space =>
      obtain ⟨slot, view, rfl, found, -⟩ := (Standing.of_sound sound).exists_caller own
      apply (Syscall.ensures_perform sound found call argument).mono
      · rintro _ _ ⟨child, -, served⟩
        obtain ⟨next, stillSound, sameRoot, -⟩ := served.sound
        exact ⟨next, stillSound, sameRoot⟩
      · rintro _ _ ⟨-, served⟩
        obtain ⟨next, stillSound, sameRoot, -⟩ := served.sound
        exact ⟨next, stillSound, sameRoot⟩
  | none =>
      cases call with
      | getPid => exact ensures_pure.mpr ⟨books, sound, rfl⟩
      | pageAlloc =>
          refine (Syscall.ensures_pageAlloc_of_none own argument).mono
            (fun _ _ impossible => impossible.elim) ?_
          rintro _ _ rfl
          exact ⟨books, sound, rfl⟩
      | fork =>
          refine (Syscall.ensures_fork_of_none (.inr own)).mono
            (fun _ _ impossible => impossible.elim) ?_
          rintro _ _ rfl
          exact ⟨books, sound, rfl⟩

/-- A call has kept what is to be kept, and has filled free slots at most. -/
structure Keeps (boot : Ledger) (kernelRoot : Fin pageCount) (before after : Resources) :
    Prop where
  kept : Kept boot kernelRoot after
  fills : before.tasks.Fills after.tasks

theorem Keeps.trans {before middle after : Resources}
    (first : Keeps boot kernelRoot before middle) (second : Keeps boot kernelRoot middle after) :
    Keeps boot kernelRoot before after :=
  ⟨second.kept, first.fills.trans second.fills⟩

namespace Kept

/-- What leaves sound resources sound, and everything standing, keeps both. -/
theorem ensures {action : Action Resources ε α} {start : Resources}
    (kept : Kept boot kernelRoot start)
    (sound : StillSound boot kernelRoot start →
      action.Ensures start (fun _ => StillSound boot kernelRoot)
        fun _ => StillSound boot kernelRoot)
    (standing : StillStanding kernelRoot start →
      action.Ensures start (fun _ => LeftStanding kernelRoot start)
        fun _ => LeftStanding kernelRoot start) :
    action.Ensures start (fun _ => Keeps boot kernelRoot start)
      fun _ => Keeps boot kernelRoot start := by
  have stands := standing kept.standing
  by_cases isFree : (start.tasks.process ProcessTable.reservedSlot).state = .free
  · refine ((sound (kept.sound isFree)).and stands).mono ?_ ?_
    · exact fun _ _ ⟨stillSound, left⟩ => ⟨⟨left.standing, fun _ => stillSound⟩, left.fills⟩
    · exact fun _ _ ⟨stillSound, left⟩ => ⟨⟨left.standing, fun _ => stillSound⟩, left.fills⟩
  · have inUse {after : Resources} (left : LeftStanding kernelRoot start after) :
        (after.tasks.process ProcessTable.reservedSlot).state ≠ .free := by
      rw [left.fills.reserved_eq]
      exact isFree
    refine stands.mono ?_ ?_
    · exact fun _ _ left => ⟨⟨left.standing, fun free => absurd free (inUse left)⟩, left.fills⟩
    · exact fun _ _ left => ⟨⟨left.standing, fun free => absurd free (inUse left)⟩, left.fills⟩

theorem ensures_setup (kept : Kept boot kernelRoot ⟨memory, tasks, console⟩)
    (programs : ProgramTable) (pid : Pid) (program : Nat) :
    (Resources.setup ⟨⟨.ofPage kernelRoot⟩, .kernel⟩ programs pid program).Ensures
        ⟨memory, tasks, console⟩ (fun _ => Keeps boot kernelRoot ⟨memory, tasks, console⟩)
      fun _ => Keeps boot kernelRoot ⟨memory, tasks, console⟩ := by
  refine kept.ensures ?_ ?_
  · rintro ⟨books, sound, rfl⟩
    apply (Resources.ensures_setup sound programs pid program).mono
    · rintro _ _ ⟨slot, image, child, created⟩
      exact ⟨_, created.sound, rfl⟩
    · rintro _ _ ⟨-, -, stillSound⟩
      exact ⟨books, stillSound, rfl⟩
  · rintro ⟨books, standing, rfl⟩
    exact standing.ensures_setup programs pid program console

theorem ensures_syscall (kept : Kept boot kernelRoot ⟨memory, tasks, console⟩) (call : Syscall)
    (caller : Pid) (argument : UInt32) :
    (call.perform ⟨⟨.ofPage kernelRoot⟩, .kernel⟩ caller argument).Ensures
        ⟨memory, tasks, console⟩ (fun _ => Keeps boot kernelRoot ⟨memory, tasks, console⟩)
      fun _ => Keeps boot kernelRoot ⟨memory, tasks, console⟩ := by
  refine kept.ensures ?_ ?_
  · rintro ⟨books, sound, rfl⟩
    exact sound.ensures_syscall call caller argument console
  · rintro ⟨books, standing, rfl⟩
    exact standing.ensures_syscall call caller argument console

/-- New registers for the process of a slot do not matter. -/
theorem withFrame (kept : Kept boot kernelRoot ⟨memory, tasks, console⟩) (slot : Fin slotCount)
    (frame : TrapFrame) (later : Console) :
    Keeps boot kernelRoot ⟨memory, tasks, console⟩
      ⟨memory, tasks.put slot { tasks.process slot with frame }, later⟩ where
  fills := .put rfl
  kept := by
    refine ⟨?_, fun isFree => ?_⟩
    · obtain ⟨books, standing, sameRoot⟩ := kept.standing
      exact ⟨books, standing.replace rfl, sameRoot⟩
    · have fills : tasks.Fills (tasks.put slot { tasks.process slot with frame }) := .put rfl
      obtain ⟨books, sound, sameRoot⟩ := kept.sound (fills.reserved_eq.symm.trans isFree)
      exact ⟨books, sound.replace Iff.rfl rfl, sameRoot⟩

/-- The process of a slot in use may be broken; once the reserved slot is, nothing is sound. -/
theorem broken (kept : Kept boot kernelRoot ⟨memory, tasks, console⟩)
    (occupied : slot = ProcessTable.reservedSlot ∨ (tasks.process slot).state ≠ .free)
    (later : Console) :
    Kept boot kernelRoot
      ⟨memory, tasks.put slot { tasks.process slot with state := .broken }, later⟩ where
  standing := by
    obtain ⟨books, standing, sameRoot⟩ := kept.standing
    exact ⟨books, standing.replace rfl, sameRoot⟩
  sound isFree := by
    have apart : ProcessTable.reservedSlot ≠ slot := by
      rintro rfl
      rw [ProcessTable.process_put_self] at isFree
      cases isFree
    have inUse := occupied.resolve_left apart.symm
    rw [ProcessTable.process_put_of_ne apart] at isFree
    obtain ⟨books, sound, sameRoot⟩ := kept.sound isFree
    exact ⟨books, sound.put _ inUse (by simp) rfl, sameRoot⟩

end Kept

end PagingKernel
