import PagingKernel.Proofs.AddressSpace.Planting

/-!
# Spaces side by side

Several spaces in one memory, whatever they map.  A `Forest` gives every space its
tree; the trees stand, and no two of them share a part.  A change that grows one of
them, adds one to them or spares them all leaves the rest as they are.
-/

namespace PagingKernel

open PageTable PagingKernel.Action

/-- Every one of the spaces is a tree that stands, and no two of the trees share a part. -/
structure Forest (tree : AddressSpace → PageTree) (spaces : List AddressSpace)
    (memory : Memory) : Prop where
  space_eq : ∀ space ∈ spaces, (tree space).space space.owner = space
  stands : ∀ space ∈ spaces, (tree space).Stands memory
  apart : ∀ first ∈ spaces, ∀ second ∈ spaces, first ≠ second →
    ∀ page ∈ (tree first).parts, page ∉ (tree second).parts

namespace PageTree

variable {tree : PageTree} {before after memory : Memory} {va : VirtAddr}

theorem Stands.spare (stands : tree.Stands before) (spares : before.Spares after) :
    tree.Stands after :=
  stands.congr fun page part =>
    ⟨spares.taken page (stands.taken page part), spares.same page (stands.taken page part)⟩

theorem Stands.translate_spare (stands : tree.Stands before) (spares : before.Spares after)
    (va : VirtAddr) : tree.translate after.ram va = tree.translate before.ram va :=
  translate_congr (fun page part => spares.same page (stands.taken page part)) va

theorem Confined.congr {ram next : Ram} (confined : tree.Confined ram)
    (same : ∀ place, tree.translate next place = tree.translate ram place) :
    tree.Confined next := by
  intro place mapping low found
  rw [same place] at found
  exact confined place mapping low found

/-- The root tells trees apart. -/
theorem root_eq_of_space {other : PageTree} {owner otherOwner : Owner}
    (same : tree.space owner = other.space otherOwner) : tree.root = other.root := by
  have roots : PhysAddr.ofPage tree.root = PhysAddr.ofPage other.root :=
    congrArg (fun space : AddressSpace => space.dir.root) same
  exact PhysAddr.ofPage_inj.mp roots

/-- Addresses on a page are translated alike. -/
theorem translate_page (tree : PageTree) (ram : Ram) (va : VirtAddr) :
    tree.translate ram va = tree.translate ram (.ofPage (va.raw / pageSize)) := by
  have sameSlot : dirIndex va = dirIndex (.ofPage (va.raw / pageSize)) := by
    simp only [dirIndex, VirtAddr.raw_ofPage, regionSize, pageSize, entryCount]
    omega
  have sameIndex : tableIndex va = tableIndex (.ofPage (va.raw / pageSize)) := by
    simp only [tableIndex, VirtAddr.raw_ofPage, pageSize, entryCount]
    omega
  unfold translate entry?
  rw [sameSlot, sameIndex]

/-- A space made from pages of physical memory maps nothing else. -/
theorem Templated.confined {template : PageTree} {owner kernelOwner : Owner}
    (templated : tree.Templated owner (template.space kernelOwner) firstProcessPage before after)
    (stands : template.Stands before) (confined : template.Confined before.ram) :
    tree.Confined after.ram := by
  intro place mapping low found
  have number_lt : place.raw / pageSize < virtualPageCount := by
    simp only [pageSize, addressLimit, virtualPageCount] at *
    omega
  rw [translate_page] at found
  by_cases below : place.raw / pageSize < firstProcessPage
  · obtain ⟨ram, same, read⟩ := templated.low _ below
    have kept : ∀ page ∈ template.parts, Ram.SamePage before.ram ram page :=
      fun page part => same page (stands.taken page part)
    have translated : template.translate before.ram (.ofPage (place.raw / pageSize)) =
        some mapping := by
      rw [← translate_congr kept, ← found]
      exact Except.ok.inj (((stands.bears.congr kept).lookup_eq _).symm.trans read)
    rw [← translate_page] at translated
    exact confined place mapping low translated
  · rw [templated.high _ (by omega) number_lt] at found
    cases found

end PageTree

namespace Forest

open PageTree

variable {tree : AddressSpace → PageTree} {spaces : List AddressSpace} {memory next : Memory}
  {space : AddressSpace} {grown : PageTree} {owner : Owner}

theorem nil (tree : AddressSpace → PageTree) (memory : Memory) : Forest tree [] memory where
  space_eq _ impossible := by cases impossible
  stands _ impossible := by cases impossible
  apart _ impossible := by cases impossible

theorem dir_eq (forest : Forest tree spaces memory) (member : space ∈ spaces) :
    (tree space).dir = space.dir :=
  congrArg AddressSpace.dir (forest.space_eq space member)

/-- A tree that grows is still the directory of its space. -/
theorem space_eq_of_extends (forest : Forest tree spaces memory) (member : space ∈ spaces)
    (larger : (tree space).Extends grown) : grown.space space.owner = space :=
  (larger.space_eq space.owner).trans (forest.space_eq space member)

theorem lookup_eq (forest : Forest tree spaces memory) (member : space ∈ spaces)
    (va : VirtAddr) : space.lookup memory va = .ok ((tree space).translate memory.ram va) := by
  have seen := (forest.stands space member).lookup_eq space.owner va
  rw [forest.space_eq space member] at seen
  exact seen

theorem ensures_map (forest : Forest tree spaces memory) (member : space ∈ spaces)
    (va : VirtAddr) (pa : PhysAddr) (len : Nat) (flags : PageFlags) :
    (space.map va pa len flags).Ensures memory
      (fun _ after => ∃ grown, (tree space).Mapped grown space.owner va pa len flags memory after)
      (MapRefusal (tree space) space.owner va pa len memory) := by
  have ensured := PageTree.ensures_map (forest.stands space member) space.owner va pa len flags
  rw [forest.space_eq space member] at ensured
  exact ensured

theorem ensures_mapFresh (forest : Forest tree spaces memory) (member : space ∈ spaces)
    (va : VirtAddr) (flags : PageFlags) :
    (space.mapFresh va flags).Ensures memory
      (fun pa after => ∃ (page : Fin pageCount) (grown : PageTree), pa = .ofPage page ∧
        (tree space).MappedFresh grown space.owner va page flags memory after)
      fun _ after => ∃ grown, (tree space).Prepares grown space.owner memory after := by
  have ensured := PageTree.ensures_mapFresh (forest.stands space member) space.owner va flags
  rw [forest.space_eq space member] at ensured
  exact ensured

/-! ## Changes to a forest -/

theorem spare (forest : Forest tree spaces memory) (spares : memory.Spares next) :
    Forest tree spaces next :=
  ⟨forest.space_eq, fun space member => (forest.stands space member).spare spares, forest.apart⟩

/-- A new tree is none of those that stand. -/
theorem notMem_of_planted (forest : Forest tree spaces memory)
    (planted : grown.Planted owner memory next) : grown.space owner ∉ spaces := by
  intro member
  have root_eq := root_eq_of_space (forest.space_eq _ member)
  have taken := (forest.stands _ member).taken _ (tree _).root_mem_parts
  rw [root_eq] at taken
  exact planted.grants.untaken grown.root_mem_parts taken

theorem add (forest : Forest tree spaces memory) (planted : grown.Planted owner memory next) :
    Forest (Function.update tree (grown.space owner) grown) (grown.space owner :: spaces) next := by
  have new := forest.notMem_of_planted planted
  have elsewhere {space : AddressSpace} (member : space ∈ spaces) :
      Function.update tree (grown.space owner) grown space = tree space :=
    Function.update_of_ne (by rintro rfl; exact new member) ..
  have kept := forest.spare planted.spares
  have fresh {space : AddressSpace} (member : space ∈ spaces) {page : Fin pageCount}
      (old : page ∈ (tree space).parts) : page ∉ grown.parts := fun part =>
    planted.grants.untaken part ((forest.stands space member).taken page old)
  refine ⟨fun space member => ?_, fun space member => ?_, fun first isFirst second isSecond => ?_⟩
  · obtain rfl | member := List.mem_cons.mp member
    · rw [Function.update_self]
      rfl
    · rw [elsewhere member]
      exact kept.space_eq space member
  · obtain rfl | member := List.mem_cons.mp member
    · rw [Function.update_self]
      exact planted.stands
    · rw [elsewhere member]
      exact kept.stands space member
  · obtain rfl | isFirst := List.mem_cons.mp isFirst
    · obtain rfl | isSecond := List.mem_cons.mp isSecond
      · exact fun apart => absurd rfl apart
      · rw [Function.update_self, elsewhere isSecond]
        exact fun _ page part old => fresh isSecond old part
    · obtain rfl | isSecond := List.mem_cons.mp isSecond
      · rw [Function.update_self, elsewhere isFirst]
        exact fun _ page old => fresh isFirst old
      · rw [elsewhere isFirst, elsewhere isSecond]
        exact kept.apart first isFirst second isSecond

section Grow

variable {held : Set (Fin pageCount)} (forest : Forest tree spaces memory)
  (member : space ∈ spaces) (grows : (tree space).Grows grown owner held memory next)

include forest member grows

/-- The other trees are spared by the growth of one. -/
theorem spared_by {other : AddressSpace} (isOther : other ∈ spaces) (apart : other ≠ space)
    {page : Fin pageCount} (part : page ∈ (tree other).parts) :
    next.ledger.Taken page ∧ Ram.SamePage memory.ram next.ram page :=
  grows.spares ((forest.stands other isOther).taken page part)
    (forest.apart other isOther space member apart page part)

theorem translate_other {other : AddressSpace} (isOther : other ∈ spaces) (apart : other ≠ space)
    (va : VirtAddr) : (tree other).translate next.ram va = (tree other).translate memory.ram va :=
  translate_congr (fun _ part => (forest.spared_by member grows isOther apart part).2) va

theorem grow : Forest (Function.update tree space grown) spaces next := by
  have elsewhere {other : AddressSpace} (apart : other ≠ space) :
      Function.update tree space grown other = tree other := Function.update_of_ne apart ..
  have fresh {other : AddressSpace} (isOther : other ∈ spaces) (apart : other ≠ space)
      {page : Fin pageCount} (part : page ∈ (tree other).parts) : page ∉ grown.parts := by
    intro new
    rcases grows.parts_held page new with old | granted
    · exact forest.apart other isOther space member apart page part old
    · exact grows.grants.untaken granted ((forest.stands other isOther).taken page part)
  refine ⟨fun other isOther => ?_, fun other isOther => ?_, fun first isFirst second isSecond => ?_⟩
  · by_cases same : other = space
    · rw [same, Function.update_self]
      exact forest.space_eq_of_extends member grows.larger
    · rw [elsewhere same]
      exact forest.space_eq other isOther
  · by_cases same : other = space
    · rw [same, Function.update_self]
      exact grows.stands (forest.stands space member)
    · rw [elsewhere same]
      exact (forest.stands other isOther).congr fun page part =>
        forest.spared_by member grows isOther same part
  · intro differ
    by_cases firstHere : first = space
    · have secondApart : second ≠ space := fun same => differ (firstHere.trans same.symm)
      rw [firstHere, Function.update_self, elsewhere secondApart]
      exact fun page new old => fresh isSecond secondApart old new
    · by_cases secondHere : second = space
      · rw [secondHere, Function.update_self, elsewhere firstHere]
        exact fun page old => fresh isFirst firstHere old
      · rw [elsewhere firstHere, elsewhere secondHere]
        exact forest.apart first isFirst second isSecond differ

end Grow

end Forest

end PagingKernel
