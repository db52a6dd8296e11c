import PagingKernel.Proofs.Syscall.Calls
import PagingKernel.Proofs.Twin.Processes

/-!
# System calls in two memories

In resources that are alike the books are the same, for they can be read off the
process table and the pages that directories are made of.  With the same books a
system call is answered alike and leaves resources that are alike.
-/

namespace PagingKernel

open PageTable PagingKernel.Action

/-! ## Reading the books off memory -/

theorem Leaf.mapping_injective : Function.Injective Leaf.mapping := by
  rintro ⟨page, writable⟩ ⟨other, otherWritable⟩ same
  have samePage := PhysAddr.ofPage_inj.mp (congrArg Mapping.pa same)
  have sameFlags := congrArg (fun mapping => mapping.flags.writable) same
  simp only [Leaf.mapping_flags, Leaf.flags_writable] at samePage sameFlags
  rw [samePage, sameFlags]

section Reading

variable {left right : Ram}

/-- A directory that two memories hold alike has the same page table in both. -/
theorem Ram.Spans.table_unique {root other first second : Fin pageCount}
    {words others : Nat → UInt32} (spans : left.Spans root first words)
    (also : right.Spans other second others) (root_eq : root = other)
    (same : Ram.SamePage left right root) : first = second := by
  subst root_eq
  have entries : left.entry root 0 = right.entry root 0 := same.entry_eq (by decide)
  rw [spans.first, also.first] at entries
  have decoded := congrArg decodeEntry entries
  rw [decodeEntry_encodeEntry_ofPage first rfl, decodeEntry_encodeEntry_ofPage second rfl]
    at decoded
  exact PhysAddr.ofPage_inj.mp (congrArg Mapping.pa (Option.some.inj decoded))

/-- A space is determined by its root and by what its directory and its page table hold. -/
theorem SpaceView.Stands.unique {first second : SpaceView} (onLeft : first.Stands left)
    (onRight : second.Stands right) (root_eq : first.root = second.root)
    (sameRoot : Ram.SamePage left right first.root)
    (sameTable : Ram.SamePage left right first.table) : first = second := by
  have table_eq : first.table = second.table :=
    Ram.Spans.table_unique onLeft onRight root_eq sameRoot
  have leaf_eq : first.leaf = second.leaf := by
    funext place
    have words := sameTable.entry_eq (placeNumber_lt place)
    rw [Ram.Spans.entries onLeft _ (placeNumber_lt place), table_eq,
      Ram.Spans.entries onRight _ (placeNumber_lt place)] at words
    have decoded := congrArg decodeEntry words
    rw [decodeEntry_word_placeNumber, decodeEntry_word_placeNumber] at decoded
    exact Option.map_injective Leaf.mapping_injective decoded
  rcases first with ⟨root, table, leaf⟩
  rcases second with ⟨otherRoot, otherTable, otherLeaf⟩
  dsimp only at root_eq table_eq leaf_eq
  rw [root_eq, table_eq, leaf_eq]

end Reading

variable {boot : Ledger} {books other : Books} {left right : Resources} {slot : Fin slotCount}
  {view : SpaceView}

namespace Resources.Alike

/-- What the books refer to holds the same in resources that are alike. -/
theorem samePage (alike : Alike boot left right) (onLeft : Sound boot books left.memory left.tasks)
    {page : Fin pageCount} (referenced : 0 < books.refs page) :
    Ram.SamePage left.memory.ram right.memory.ram page := by
  refine alike.memory.pages page (onLeft.balanced.taken_of_refs_pos referenced) fun taken => ?_
  have none := onLeft.balanced.refs_of_boot taken
  omega

/-- Resources that are alike have the same books. -/
theorem books_eq (alike : Alike boot left right) (onLeft : Sound boot books left.memory left.tasks)
    (onRight : Sound boot other right.memory right.tasks)
    (sameRoot : books.kernelRoot = other.kernelRoot) : books = other := by
  have table_eq : books.kernelTable = other.kernelTable :=
    onLeft.kernelStands.table_unique onRight.kernelStands sameRoot
      (alike.samePage onLeft books.refs_pos_kernelRoot)
  have space_eq : books.space = other.space := by
    funext slot
    have listed := onLeft.spaces slot
    rw [alike.tasks_eq, onRight.spaces slot] at listed
    cases found : books.space slot with
    | none =>
        rw [found] at listed
        exact (Option.map_eq_none_iff.mp listed).symm
    | some view =>
        rw [found] at listed
        obtain ⟨second, foundOther, same⟩ := Option.map_eq_some_iff.mp listed
        have root_eq := PhysAddr.ofPage_inj.mp (congrArg AddressSpace.root (SpaceRef.own.inj same))
        rw [foundOther, (onLeft.stands slot view found).unique
          (onRight.stands slot second foundOther) root_eq.symm
          (alike.samePage onLeft (view.refs_root_pos.trans_le (Books.refs_le found)))
          (alike.samePage onLeft (view.refs_table_pos.trans_le (Books.refs_le found)))]
  rcases books with ⟨root, table, space⟩
  rcases other with ⟨otherRoot, otherTable, otherSpace⟩
  dsimp only at sameRoot table_eq space_eq
  rw [sameRoot, table_eq, space_eq]

end Resources.Alike

theorem Resources.agree_tryModifyTasks {ε : Type} {leftMemory rightMemory : Memory}
    {tasks : ProcessTable} {leftConsole rightConsole : Console}
    {change : ProcessTable → Except ε ProcessTable} {done : Unit → Resources → Resources → Prop}
    {refused : ε → Resources → Resources → Prop}
    (onDone : ∀ next, done () ⟨leftMemory, next, leftConsole⟩ ⟨rightMemory, next, rightConsole⟩)
    (onRefused : ∀ cause, refused cause ⟨leftMemory, tasks, leftConsole⟩
      ⟨rightMemory, tasks, rightConsole⟩) :
    Agree (tryModifyTasks change) (tryModifyTasks change) ⟨leftMemory, tasks, leftConsole⟩
      ⟨rightMemory, tasks, rightConsole⟩ done refused := by
  cases changed : change tasks with
  | ok next =>
      refine agree_of_eq_ok ?_ ?_ (onDone next)
      · simp only [tryModifyTasks, changed]
      · simp only [tryModifyTasks, changed]
  | error cause =>
      refine agree_of_eq_error ?_ ?_ (onRefused cause)
      · simp only [tryModifyTasks, changed]
      · simp only [tryModifyTasks, changed]

namespace Syscall

/-! ## The calls -/

/-- A page is allocated alike: it is cleared, whatever it held. -/
theorem agree_performPageAlloc (alike : Resources.Alike boot left right)
    (onLeft : Sound boot books left.memory left.tasks)
    (onRight : Sound boot books right.memory right.tasks)
    (found : books.space slot = some view) (argument : UInt32) :
    Agree (performPageAlloc (.ofIndex slot) argument) (performPageAlloc (.ofIndex slot) argument)
      left right (fun _ => Resources.Alike boot) fun _ => Resources.Alike boot := by
  rcases left with ⟨⟨ledger, left⟩, tasks, leftConsole⟩
  rcases right with ⟨⟨_, right⟩, _, rightConsole⟩
  have unchanged := alike
  obtain ⟨rfl, alike⟩ := alike
  obtain rfl := alike.ledger_eq
  have balanced := onLeft.balanced
  have own : (tasks.get? (.ofIndex slot)).bind (·.ownSpace?) =
      some (view.space (.process (.ofIndex slot))) := by
    rw [ProcessTable.get?_ofIndex, Option.bind_some, onLeft.ownSpace found]
  have standsLeft := onLeft.stands slot view found
  have standsRight := onRight.stands slot view found
  refine agree_bind ?_
  cases accepted : requestedPage argument with
  | error cause => exact agree_ofExcept_error unchanged
  | ok va =>
      obtain ⟨place, rfl⟩ := place_of_requestedPage accepted
      refine agree_ofExcept_ok (agree_bind (agree_get_bind ?_))
      rw [own]
      refine agree_require_some (agree_peek_bind (standsLeft.lookup_placeNumber place)
        (standsRight.lookup_placeNumber place) ?_)
      cases vacant : view.leaf place with
      | some leaf => exact agree_bind (agree_refuse unchanged)
      | none =>
          refine agree_get_bind ?_
          dsimp only
          by_cases full : ledger.findFree.isNone = true
          · rw [if_pos full]
            exact agree_bind (agree_refuse unchanged)
          · rw [if_neg full]
            refine agree_bind (agree_mapCause (Resources.agree_onMemory
              ((standsLeft.agree_mapFresh standsRight balanced.tidy (by simp)
                (balanced.taken_of_refs found view.refs_root_pos)
                (balanced.taken_of_refs found view.refs_table_pos) vacant true).mono ?_ ?_)))
            · rintro _ _ _ ⟨page, rfl, nextFree, rfl, rfl⟩
              refine agree_bind (Resources.agree_report (agree_pure ⟨rfl, rfl, ?_⟩))
              intro held taken new
              refine Ram.SamePage.setEntry ?_ _ (placeNumber_lt place) _
              rcases Ledger.taken_charge_iff.mp taken with before | charged
              · exact (alike.pages held before new).clear page
              · rw [Ledger.eq_of_charged_single charged]
                exact Ram.samePage_clear_clear left right page
            · rintro _ _ _ ⟨rfl, rfl⟩
              exact unchanged

/-- A caller is forked alike: what the child inherits holds the same on both sides. -/
theorem agree_performFork (alike : Resources.Alike boot left right)
    (onLeft : Sound boot books left.memory left.tasks)
    (onRight : Sound boot books right.memory right.tasks)
    (found : books.space slot = some view) :
    Agree (performFork ⟨⟨.ofPage books.kernelRoot⟩, .kernel⟩ (.ofIndex slot))
      (performFork ⟨⟨.ofPage books.kernelRoot⟩, .kernel⟩ (.ofIndex slot)) left right
      (fun _ => Resources.Alike boot) fun _ => Resources.Alike boot := by
  have inherited : ∀ place, ∀ mapping ∈ (view.leaf place).map Leaf.mapping, ∀ page : Fin pageCount,
      mapping.pa = .ofPage page → Ram.SamePage left.memory.ram right.memory.ram page := by
    rintro place mapping isMapped page onPage
    obtain ⟨leaf, mapped, rfl⟩ := Option.map_eq_some_iff.mp isMapped
    obtain rfl := PhysAddr.ofPage_inj.mp onPage
    exact alike.samePage onLeft ((SpaceView.refs_leaf_pos mapped).trans_le (Books.refs_le found))
  rcases left with ⟨⟨ledger, left⟩, tasks, leftConsole⟩
  rcases right with ⟨⟨_, right⟩, _, rightConsole⟩
  have unchanged := alike
  obtain ⟨rfl, alike⟩ := alike
  obtain rfl := alike.ledger_eq
  have balanced := onLeft.balanced
  have taken (page : Fin pageCount) : 0 < view.refs page → ledger.Taken page :=
    balanced.taken_of_refs found
  refine agree_get_bind (agree_bind ?_)
  cases first : tasks.firstFree? with
  | none => exact agree_require_none unchanged
  | some pid =>
      refine agree_require_some (agree_get_bind (agree_bind ?_))
      rw [ProcessTable.get?_ofIndex]
      refine agree_require_some (agree_bind ?_)
      rw [onLeft.ownSpace found]
      refine agree_require_some (agree_bind (agree_mapCause (Resources.agree_onMemory
        ((AddressSpace.agree_duplicate balanced.tidy onLeft.kernelStands onRight.kernelStands
          balanced.kernelRoot_taken balanced.kernelTable_taken
          ((onLeft.stands slot view found).inheritable taken _)
          ((onRight.stands slot view found).inheritable taken _) inherited pid).mono ?_ ?_))))
      · rintro _ _ _ ⟨child, leftNext, rightNext, rfl, rfl, rfl, twin⟩
        have copied := twin.alike alike (.process pid)
        refine agree_bind (agree_mapCause (Resources.agree_tryModifyTasks (fun next => ?_)
          fun cause => ⟨rfl, copied⟩))
        exact agree_bind (Resources.agree_report (agree_pure ⟨rfl, copied⟩))
      · exact fun _ _ _ undone => ⟨rfl, undone.alike alike⟩

theorem agree_perform (alike : Resources.Alike boot left right)
    (onLeft : Sound boot books left.memory left.tasks)
    (onRight : Sound boot books right.memory right.tasks)
    (found : books.space slot = some view) (call : Syscall) (argument : UInt32) :
    Agree (call.perform ⟨⟨.ofPage books.kernelRoot⟩, .kernel⟩ (.ofIndex slot) argument)
      (call.perform ⟨⟨.ofPage books.kernelRoot⟩, .kernel⟩ (.ofIndex slot) argument) left right
      (fun _ => Resources.Alike boot) fun _ => Resources.Alike boot := by
  cases call with
  | getPid => exact agree_pure alike
  | pageAlloc => exact agree_performPageAlloc alike onLeft onRight found argument
  | fork => exact agree_performFork alike onLeft onRight found

end Syscall

end PagingKernel
