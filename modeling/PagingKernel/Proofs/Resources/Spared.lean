import PagingKernel.Proofs.Resources.Sound

/-!
# What serving a slot leaves alone

Whatever is done on behalf of a slot spares the others: their processes, and
every page that their spaces or the kernel's directory are made of.  The one
exception is the vacant slot that a fork fills.  `Spared` says this of a step
that also keeps the resources sound.
-/

namespace PagingKernel

/-- A step for a slot ended soundly and spared the others, though it may have filled `child`. -/
structure Spared (boot : Ledger) (books : Books) (slot : Fin slotCount)
    (child : Option (Fin slotCount)) (before after : Resources) : Prop where
  sound : ∃ next : Books, Sound boot next after.memory after.tasks ∧
    next.kernelRoot = books.kernelRoot ∧ next.kernelTable = books.kernelTable
  processes : ∀ other, other ≠ slot → child ≠ some other →
    after.tasks.process other = before.tasks.process other
  pages : ∀ page, books.BelongsElsewhere slot page →
    Ram.SamePage before.memory.ram after.memory.ram page
  child_free : ∀ found, child = some found → before.tasks.firstFree? = some (.ofIndex found)

variable {boot : Ledger} {books : Books} {memory : Memory} {tasks : ProcessTable}
  {console : Console} {slot : Fin slotCount} {view : SpaceView} {page : Fin pageCount}

/-! ## Pages open to user code -/

/-- User code of a slot may write a page: one that was set aside at boot, or a leaf of its own. -/
def Books.OpenTo (boot : Ledger) (books : Books) (slot : Fin slotCount) (page : Fin pageCount) :
    Prop :=
  boot.Taken page ∨ ∃ view place leaf, books.space slot = some view ∧
    view.leaf place = some leaf ∧ leaf.writable = true ∧ leaf.page = page

namespace Books.OpenTo

theorem not_elsewhere (isOpen : books.OpenTo boot slot page)
    (balanced : books.Balanced boot memory.ledger) : ¬books.BelongsElsewhere slot page := by
  intro elsewhere
  rcases isOpen with taken | ⟨view, place, leaf, found, mapped, writable, same⟩
  · have none := balanced.refs_of_boot taken
    have positive := elsewhere.refs_pos
    omega
  · exact elsewhere.not_private balanced found (.inr (.inr ⟨place, leaf, mapped, writable, same⟩))

/-- No user code may write to a directory or a page table. -/
theorem not_structural (isOpen : books.OpenTo boot slot page)
    (balanced : books.Balanced boot memory.ledger) : ¬books.Structural page := by
  intro structural
  rcases isOpen with taken | ⟨view, place, leaf, found, mapped, -, rfl⟩
  · have none := balanced.refs_of_boot taken
    have positive := structural.refs_pos
    omega
  · exact balanced.leaf_not_structural found mapped structural

end Books.OpenTo

/-! ## Changing the process of the slot itself -/

/-- The lowest free slot stays where it is if a slot in use is changed and stays in use. -/
theorem ProcessTable.firstFree?_put (inUse : (tasks.process slot).state ≠ .free)
    {process : Process} (stays : process.state ≠ .free) :
    (tasks.put slot process).firstFree? = tasks.firstFree? := by
  have same (other : Fin slotCount) : ((tasks.put slot process).process other).state = .free ↔
      (tasks.process other).state = .free := by
    rw [process_put]
    split
    · rename_i here
      rw [here]
      exact iff_of_false stays inUse
    · rfl
  simp only [firstFree?, same]

namespace Sound

/-- A process in use may be changed as long as it stays in use and keeps its space. -/
theorem put (sound : Sound boot books memory tasks) (process : Process)
    (inUse : (tasks.process slot).state ≠ .free) (stays : process.state ≠ .free)
    (kept : process.space = (tasks.process slot).space) :
    Sound boot books memory (tasks.put slot process) :=
  sound.replace (iff_of_false stays inUse) kept

end Sound

namespace Spared

variable {child : Option (Fin slotCount)} {before after : Resources}

/-- Whatever leaves memory and the process table alone spares the others. -/
theorem refl (sound : Sound boot books memory tasks) (slot : Fin slotCount)
    (console later : Console) :
    Spared boot books slot none ⟨memory, tasks, console⟩ ⟨memory, tasks, later⟩ where
  sound := ⟨books, sound, rfl, rfl⟩
  processes _ _ _ := rfl
  pages page _ := Ram.SamePage.refl memory.ram page
  child_free _ impossible := by cases impossible

/-- What spares the others once the process of the slot was changed spares them from before. -/
theorem of_put {process : Process}
    (spared : Spared boot books slot child ⟨memory, tasks.put slot process, console⟩ after)
    (inUse : (tasks.process slot).state ≠ .free) (stays : process.state ≠ .free)
    (earlier : Console) : Spared boot books slot child ⟨memory, tasks, earlier⟩ after where
  sound := spared.sound
  processes other apart notChild := by
    rw [spared.processes other apart notChild, ProcessTable.process_put_of_ne apart]
  pages := spared.pages
  child_free found same := by
    rw [← ProcessTable.firstFree?_put inUse stays]
    exact spared.child_free found same

theorem put (spared : Spared boot books slot child before after) (process : Process)
    (inUse : (after.tasks.process slot).state ≠ .free) (stays : process.state ≠ .free)
    (kept : process.space = (after.tasks.process slot).space) (later : Console) :
    Spared boot books slot child before ⟨after.memory, after.tasks.put slot process, later⟩ where
  sound := by
    obtain ⟨next, sound, sameRoot, sameTable⟩ := spared.sound
    exact ⟨next, sound.put process inUse stays kept, sameRoot, sameTable⟩
  processes other apart notChild := by
    rw [ProcessTable.process_put_of_ne apart, spared.processes other apart notChild]
  pages := spared.pages
  child_free := spared.child_free

/-- Writing where user code of the slot may write spares the others. -/
theorem of_write (sound : Sound boot books memory tasks) (isOpen : books.OpenTo boot slot page)
    {next : Ram} (same : ∀ other, other ≠ page → Ram.SamePage memory.ram next other)
    (console later : Console) :
    Spared boot books slot none ⟨memory, tasks, console⟩ ⟨⟨memory.ledger, next⟩, tasks, later⟩ where
  sound := by
    refine ⟨books, sound.ram_congr fun other structural => same other ?_, rfl, rfl⟩
    rintro rfl
    exact isOpen.not_structural sound.balanced structural
  processes _ _ _ := rfl
  pages other elsewhere := by
    apply same other
    rintro rfl
    exact isOpen.not_elsewhere sound.balanced elsewhere
  child_free _ impossible := by cases impossible

end Spared

end PagingKernel
