import PagingKernel.Proofs.Action.Carries
import PagingKernel.Proofs.Kernel.Start
import PagingKernel.Proofs.Mapping.Forest

/-!
# Histories of spaces

`Assembled` is the history of the spaces in one memory: the kernel's space and spaces
made from others as templates, with ranges and fresh pages mapped in any of them, in
any order, with any arguments and with any outcome.  Memory may hold anything at
first, and its books may be in any state.

The history remembers the spaces that have strayed.  A space strays when a range that
leaves physical memory is mapped in it, and a space that is made from one that has
strayed has strayed, too.
-/

namespace PagingKernel

open PageTable PagingKernel.Action

/-- A range that leaves physical memory is mapped, and not refused. -/
def AddressSpace.Strays (space : AddressSpace) (va : VirtAddr) (pa : PhysAddr) (len : Nat)
    (flags : PageFlags) (memory : Memory) : Prop :=
  flags.present = true ∧ 0 < len ∧ physicalSize < pa.raw + len ∧
    ∃ next, space.map va pa len flags memory = .ok () next

/-- The spaces that may be there and those that have strayed, in the memory that they share. -/
inductive Assembled (start : Memory) : List AddressSpace → Set AddressSpace → Memory → Prop
  | start : Assembled start [] ∅ start
  | kernel {spaces : List AddressSpace} {strayed : Set AddressSpace} {memory next : Memory}
      {space : AddressSpace} (earlier : Assembled start spaces strayed memory)
      (ran : AddressSpace.buildKernel memory = .ok space next) :
      Assembled start (space :: spaces) strayed next
  | kernelRefused {spaces : List AddressSpace} {strayed : Set AddressSpace} {memory next : Memory}
      {cause : AddressSpaceError} (earlier : Assembled start spaces strayed memory)
      (ran : AddressSpace.buildKernel memory = .error (.refused cause) next) :
      Assembled start spaces strayed next
  | template {spaces : List AddressSpace} {strayed : Set AddressSpace} {memory next : Memory}
      {kernel space : AddressSpace} (earlier : Assembled start spaces strayed memory)
      (member : kernel ∈ spaces) (pid : Pid)
      (ran : AddressSpace.ofTemplate kernel pid memory = .ok space next) :
      Assembled start (space :: spaces)
        {other | other ∈ strayed ∨ other = space ∧ kernel ∈ strayed} next
  | templateRefused {spaces : List AddressSpace} {strayed : Set AddressSpace}
      {memory next : Memory} {kernel : AddressSpace} {cause : AddressSpaceError}
      (earlier : Assembled start spaces strayed memory) (member : kernel ∈ spaces) (pid : Pid)
      (ran : AddressSpace.ofTemplate kernel pid memory = .error (.refused cause) next) :
      Assembled start spaces strayed next
  | mapped {spaces : List AddressSpace} {strayed : Set AddressSpace} {memory : Memory}
      {space : AddressSpace} (earlier : Assembled start spaces strayed memory)
      (member : space ∈ spaces) (va : VirtAddr) (pa : PhysAddr) (len : Nat) (flags : PageFlags) :
      Assembled start spaces
        {other | other ∈ strayed ∨ other = space ∧ space.Strays va pa len flags memory}
        ((space.map va pa len flags).after memory)
  | mappedFresh {spaces : List AddressSpace} {strayed : Set AddressSpace} {memory : Memory}
      {space : AddressSpace} (earlier : Assembled start spaces strayed memory)
      (member : space ∈ spaces) (va : VirtAddr) (flags : PageFlags) :
      Assembled start spaces strayed ((space.mapFresh va flags).after memory)

/-- Say, the kernel's space and the first that is made from it. -/
theorem Kernel.FirstSpace.assembled {start before memory : Memory} {kernel : AddressSpace}
    {view : SpaceView} (first : FirstSpace start before kernel view memory) :
    Assembled start [view.space (.process (.ofIndex 1)), kernel] ∅ memory := by
  have both := (Assembled.start.kernel first.built).template List.mem_cons_self _ first.made
  rw [show {other | other ∈ (∅ : Set AddressSpace) ∨ other = view.space (.process (.ofIndex 1)) ∧
    kernel ∈ (∅ : Set AddressSpace)} = ∅ by simp] at both
  exact both

/-- A forest whose trees map nothing but physical memory, except for some that have strayed. -/
structure StrictForest (tree : AddressSpace → PageTree) (spaces : List AddressSpace)
    (strayed : Set AddressSpace) (memory : Memory) : Prop
    extends Forest tree spaces memory where
  confined : ∀ space ∈ spaces, space ∉ strayed → (tree space).Confined memory.ram

namespace StrictForest

open PageTree

variable {tree : AddressSpace → PageTree} {spaces : List AddressSpace}
  {strayed more : Set AddressSpace} {memory next : Memory} {space : AddressSpace}
  {grown : PageTree} {owner : Owner}

theorem spare (strict : StrictForest tree spaces strayed memory) (spares : memory.Spares next) :
    StrictForest tree spaces strayed next where
  toForest := strict.toForest.spare spares
  confined space member straight := (strict.confined space member straight).congr
    ((strict.stands space member).translate_spare spares)

/-- A new space maps nothing but physical memory unless it strays from the first. -/
theorem add (strict : StrictForest tree spaces strayed memory)
    (planted : grown.Planted owner memory next) (larger : strayed ⊆ more)
    (confined : grown.space owner ∉ more → grown.Confined next.ram) :
    StrictForest (Function.update tree (grown.space owner) grown) (grown.space owner :: spaces)
      more next where
  toForest := strict.toForest.add planted
  confined space member straight := by
    obtain rfl | member := List.mem_cons.mp member
    · rw [Function.update_self]
      exact confined straight
    · have apart : space ≠ grown.space owner := by
        rintro rfl
        exact strict.notMem_of_planted planted member
      rw [Function.update_of_ne apart]
      exact (strict.spare planted.spares).confined space member fun old => straight (larger old)

/-- A space that grows maps nothing but physical memory unless it strays. -/
theorem grow {held : Set (Fin pageCount)} (strict : StrictForest tree spaces strayed memory)
    (member : space ∈ spaces) (grows : (tree space).Grows grown owner held memory next)
    (larger : strayed ⊆ more)
    (confined : space ∉ more → (tree space).Confined memory.ram → grown.Confined next.ram) :
    StrictForest (Function.update tree space grown) spaces more next where
  toForest := strict.toForest.grow member grows
  confined other isOther straight := by
    have before := strict.confined other isOther fun old => straight (larger old)
    by_cases same : other = space
    · rw [same, Function.update_self]
      exact confined (same ▸ straight) (same ▸ before)
    · rw [Function.update_of_ne same]
      exact before.congr (strict.translate_other member grows isOther same)

end StrictForest

open PageTree in
/-- Spaces with a history are a forest, and those that have not strayed map physical memory. -/
theorem Assembled.exists_forest {start memory : Memory} {spaces : List AddressSpace}
    {strayed : Set AddressSpace} (assembled : Assembled start spaces strayed memory) :
    ∃ tree, StrictForest tree spaces strayed memory := by
  induction assembled with
  | start =>
      exact ⟨fun _ => bare 0, .nil _ _, fun _ impossible => by cases impossible⟩
  | kernel earlier ran ih =>
      obtain ⟨tree, strict⟩ := ih
      obtain ⟨new, rfl, planted, confined⟩ := (PageTree.ensures_buildKernel _).done ran
      exact ⟨_, strict.add planted subset_rfl fun _ => confined⟩
  | kernelRefused earlier ran ih =>
      obtain ⟨tree, strict⟩ := ih
      exact ⟨tree, strict.spare ((PageTree.ensures_buildKernel _).refused ran)⟩
  | @template _ strayed _ _ kernel _ earlier member pid ran ih =>
      obtain ⟨tree, strict⟩ := ih
      obtain ⟨new, rfl, templated⟩ := (PageTree.ends_ofTemplate _ kernel pid).done ran
      refine ⟨_, strict.add templated.toPlanted (fun _ old => .inl old) fun straight => ?_⟩
      have templateStraight : kernel ∉ strayed := fun old => straight (.inr ⟨rfl, old⟩)
      rw [← strict.space_eq kernel member] at templated
      exact templated.confined (strict.stands kernel member)
        (strict.confined kernel member templateStraight)
  | templateRefused earlier member pid ran ih =>
      obtain ⟨tree, strict⟩ := ih
      exact ⟨tree, strict.spare ((PageTree.ends_ofTemplate _ _ pid).refused ran).toSpares⟩
  | @mapped _ _ memory space earlier member va pa len flags ih =>
      obtain ⟨tree, strict⟩ := ih
      rcases (strict.ensures_map member va pa len flags).cases with
        ⟨_, next, ran, grown, mapped⟩ | ⟨cause, next, ran, refusal⟩
      · rw [after_of_eq_ok ran]
        refine ⟨_, strict.grow member mapped.toGrows (fun _ old => .inl old)
          fun straight before => ?_⟩
        refine confined_of_remapped mapped.bounds (fun present positive => ?_) before
          mapped.translate_eq
        by_contra beyond
        exact straight (.inr ⟨rfl, present, positive, Nat.lt_of_not_le beyond, next, ran⟩)
      · rw [after_of_eq_error ran]
        obtain ⟨grown, prepares⟩ := refusal.exists_prepares (strict.stands space member)
        exact ⟨_, strict.grow member prepares.toGrows (fun _ old => .inl old)
          fun _ => prepares.confined⟩
  | @mappedFresh _ _ memory space earlier member va flags ih =>
      obtain ⟨tree, strict⟩ := ih
      rcases (strict.ensures_mapFresh member va flags).cases with
        ⟨_, next, ran, page, grown, -, mapped⟩ | ⟨cause, next, ran, grown, prepares⟩
      · rw [after_of_eq_ok ran]
        have covered : page * pageSize + pageSize ≤ physicalSize := Ram.covers_ofPage page
        exact ⟨_, strict.grow member mapped.toGrows subset_rfl fun _ before =>
          confined_of_remapped mapped.bounds (fun _ _ => covered) before mapped.translate_eq⟩
      · rw [after_of_eq_error ran]
        exact ⟨_, strict.grow member prepares.toGrows subset_rfl fun _ => prepares.confined⟩

end PagingKernel
