import Mathlib.Logic.Function.Iterate
import PagingKernel.Proofs.Mapping.Assembly

/-!
# Mapping a range is exact

What mapping a range comes to, for any spaces with a history and for any request.  If
the range is mapped, the space translates its pages as was asked and all other
addresses as before, and so do the other spaces.  If it is refused, for whatever
reason, no space translates any address otherwise than before.  In both cases the books
change by new page tables of the space and by nothing else.

The regions that page tables are installed for are those that a cursor visits which is
moved from region to region until it has left the range.  It takes finitely many steps,
also at the upper end of the addresses that a machine word holds.
-/

namespace PagingKernel

open PageTable PagingKernel.Action

/-! ## Walking from region to region -/

/-- Where the cursor is moved to: the start of the next region, as far as a word reaches. -/
def nextRegion (cursor : Nat) : Nat :=
  min ((cursor / regionSize + 1) * regionSize) (wordLimit - 1)

/-- The cursor visits `count` regions, one after another, until it is not below `stop`. -/
structure WalksRegions (start stop count : Nat) : Prop where
  visits : ∀ k < count, nextRegion^[k] start < stop ∧
    nextRegion^[k] start / regionSize = start / regionSize + k
  ends : stop ≤ nextRegion^[count] start

theorem walksRegions {start stop : Nat} (inWord : stop < wordLimit) :
    WalksRegions start stop (AddressSpace.regionSpan start stop) := by
  have reached : ∀ k, 0 < k → nextRegion^[k] start =
      min ((start / regionSize + k) * regionSize) (wordLimit - 1) := by
    intro k positive
    induction k with
    | zero => omega
    | succ k ih =>
        rw [Function.iterate_succ_apply']
        obtain rfl | later := Nat.eq_zero_or_pos k
        · rfl
        · rw [ih later, nextRegion]
          simp only [regionSize, wordLimit]
          omega
  unfold AddressSpace.regionSpan
  split
  · rename_i below
    refine ⟨fun k inside => ?_, ?_⟩
    · obtain rfl | later := Nat.eq_zero_or_pos k
      · exact ⟨below, rfl⟩
      · rw [reached k later]
        simp only [regionSize, wordLimit] at *
        omega
    · rw [reached _ (Nat.succ_pos _)]
      simp only [regionSize, wordLimit] at *
      omega
  · rename_i above
    exact ⟨fun k impossible => absurd impossible (Nat.not_lt_zero k), Nat.le_of_not_lt above⟩

/-! ## What mapping a range comes to -/

/-- A page of the range maps a page that is not the one it is to be mapped to. -/
def AddressSpace.OccupiedAt (space : AddressSpace) (memory : Memory) (va : VirtAddr)
    (pa : PhysAddr) (i : Nat) : Prop :=
  ∃ existing : Mapping, space.lookup memory (va.advance i) = .ok (some existing) ∧
    existing.pa ≠ pa.advance i

/-- The books differ by new page tables of a space and by nothing else.  A new table is in a slot
of the directory that had none, and it is cleared except for entries that were written since. -/
def TablesAdded (space : AddressSpace) (written : Nat → Nat → Prop) (before after : Memory) :
    Prop :=
  ∀ page : Fin pageCount, after.ledger.entry page = before.ledger.entry page ∨
    (before.ledger.entry page = .unowned ∧ after.ledger.entry page = ⟨space.owner, 1⟩ ∧
      ∃ slot < entryCount, space.dir.table? before.ram slot = .ok none ∧
        space.dir.table? after.ram slot = .ok (some (.ofPage page)) ∧
          ∀ index < entryCount, ¬written slot index → after.ram.entry page index = 0)

/-- A range was mapped, and nothing else. -/
structure HasMapped (spaces : List AddressSpace) (space : AddressSpace) (va : VirtAddr)
    (pa : PhysAddr) (len : Nat) (flags : PageFlags) (before after : Memory) : Prop where
  va_multiple : va.raw % pageSize = 0
  len_multiple : len % pageSize = 0
  bounds : 0 < len → va.raw + len ≤ addressLimit ∧ pa.raw + len ≤ addressLimit
  inside : ∀ i < len / pageSize, ∀ offset < pageSize,
    space.lookup after ⟨va.raw + i * pageSize + offset⟩ =
      .ok (if flags.present then some ⟨⟨pa.raw + i * pageSize⟩, flags⟩ else none)
  outside : ∀ place : VirtAddr, place.raw < addressLimit →
    place.raw < va.raw ∨ va.raw + len ≤ place.raw →
      space.lookup after place = space.lookup before place
  others : ∀ other ∈ spaces, other ≠ space → ∀ place : VirtAddr, place.raw < addressLimit →
    other.lookup after place = other.lookup before place
  books : TablesAdded space (PageTree.InRange va len) before after

/-- Nothing was mapped, although cleared page tables may have been installed. -/
structure HasRefused (spaces : List AddressSpace) (space : AddressSpace) (before after : Memory) :
    Prop where
  lookups : ∀ other ∈ spaces, ∀ place : VirtAddr, place.raw < addressLimit →
    other.lookup after place = other.lookup before place
  books : TablesAdded space (fun _ _ => False) before after

/-- What mapping a range in one of a number of spaces comes to. -/
structure MapsExactly (spaces : List AddressSpace) (space : AddressSpace) (va : VirtAddr)
    (pa : PhysAddr) (len : Nat) (flags : PageFlags) (memory : Memory) : Prop where
  walks : ∀ stop, va.add? len = some stop →
    WalksRegions va.raw stop.raw (AddressSpace.regionSpan va.raw stop.raw)
  not_faulted : ∀ fault after, space.map va pa len flags memory ≠ .error (.faulted fault) after
  mapped : ∀ after, space.map va pa len flags memory = .ok () after →
    HasMapped spaces space va pa len flags memory after
  occupied : va.raw % pageSize = 0 → len % pageSize = 0 → va.raw + len ≤ addressLimit →
    (∃ i < len / pageSize, space.OccupiedAt memory va pa i) →
      ∃ i < len / pageSize, space.OccupiedAt memory va pa i ∧
        space.map va pa len flags memory =
          .error (.refused (.mapping (.occupied (va.advance i)))) memory
  refused : ∀ cause after, space.map va pa len flags memory = .error (.refused cause) after →
    HasRefused spaces space memory after

namespace Forest

open PageTree

variable {tree : AddressSpace → PageTree} {spaces : List AddressSpace} {memory after : Memory}
  {space : AddressSpace} {grown : PageTree} {va : VirtAddr} {pa : PhysAddr} {len : Nat}
  {flags : PageFlags} (forest : Forest tree spaces memory) (member : space ∈ spaces)

include forest member

/-- A page that is occupied is one that conflicts with the range. -/
theorem occupiedAt_iff (i : Nat) :
    space.OccupiedAt memory va pa i ↔ (tree space).Conflicts memory.ram va pa i := by
  unfold AddressSpace.OccupiedAt Conflicts
  rw [forest.lookup_eq member]
  refine exists_congr fun existing => ?_
  rw [Except.ok.injEq]
  refine and_congr_right fun found => ?_
  have low : existing.pa.raw < addressLimit := by
    obtain ⟨entry, -, decoded⟩ := Option.bind_eq_some_iff.mp found
    exact (decodeEntry_eq_some decoded).2.2
  rw [ne_eq, ne_eq, not_iff_not, PhysAddr.add?_eq_some_iff]
  constructor
  · intro same
    have limit : addressLimit < wordLimit := by decide
    exact ⟨(congrArg PhysAddr.raw same).symm, Nat.lt_trans low limit⟩
  · exact fun same => (congrArg PhysAddr.mk same.1).symm

theorem tablesAdded
    (grows : (tree space).Grows grown space.owner (grown.parts \ (tree space).parts) memory after)
    {written : Nat → Nat → Prop}
    (cleared : ∀ slot page, grown.table slot = some page → (tree space).table slot = none →
      ∀ index < entryCount, ¬written slot index → after.ram.entry page index = 0) :
    TablesAdded space written memory after := by
  intro page
  by_cases new : page ∈ grown.parts \ (tree space).parts
  · obtain ⟨unowned, granted⟩ := grows.grants.granted page new
    obtain ⟨isRoot | ⟨slot, found⟩, notOld⟩ := new
    · exact absurd (.inl (isRoot.trans grows.larger.root_eq)) notOld
    · have within := grown.inside slot page found
      have absent : (tree space).table slot = none := by
        by_contra present
        obtain ⟨old, wasFound⟩ := Option.ne_none_iff_exists'.mp present
        have same := (grows.larger.table_eq slot old wasFound).symm.trans found
        exact notOld (Option.some.inj same ▸ table_mem_parts wasFound)
      have sameDir : space.dir = (tree space).dir := (forest.dir_eq member).symm
      have grownDir : space.dir = grown.dir :=
        (congrArg AddressSpace.dir (forest.space_eq_of_extends member grows.larger)).symm
      refine .inr ⟨unowned, granted, slot, within, ?_, ?_, cleared slot page found absent⟩
      · rw [sameDir, (forest.stands space member).bears.table?_eq within, absent]
        rfl
      · rw [grownDir, grows.bears.table?_eq within, found]
        rfl
  · exact .inl (grows.grants.kept page new)

/-- What the other spaces translate is as before. -/
theorem lookup_other {held : Set (Fin pageCount)}
    (grows : (tree space).Grows grown space.owner held memory after) {other : AddressSpace}
    (isOther : other ∈ spaces) (apart : other ≠ space) (place : VirtAddr) :
    other.lookup after place = other.lookup memory place := by
  have later := (forest.grow member grows).lookup_eq isOther place
  rw [Function.update_of_ne apart, forest.translate_other member grows isOther apart] at later
  rw [later, forest.lookup_eq isOther]

theorem hasMapped
    (mapped : (tree space).Mapped grown space.owner va pa len flags memory after) :
    HasMapped spaces space va pa len flags memory after := by
  have vaMultiple := VirtAddr.isAligned_iff.mp mapped.bounds.va_aligned
  have lenMultiple := isPageMultiple_iff.mp mapped.bounds.len_multiple
  have vaEnd := mapped.bounds.va_end
  have later (place : VirtAddr) (low : place.raw < addressLimit) : space.lookup after place =
      .ok (remapped va pa len flags ((tree space).translate memory.ram place) place) := by
    have seen := (forest.grow member mapped.toGrows).lookup_eq member place
    rw [Function.update_self, mapped.translate_eq place low] at seen
    exact seen
  refine ⟨vaMultiple, lenMultiple, fun _ => ⟨vaEnd, mapped.bounds.pa_end⟩,
    fun i inside offset within => ?_, fun place low beyond => ?_, fun other isOther apart place _ =>
      forest.lookup_other member mapped.toGrows isOther apart place,
    forest.tablesAdded member mapped.toGrows mapped.cleared⟩
  · have covered : i * pageSize + offset < len := by
      simp only [pageSize] at *
      omega
    have base : pageFloor (va.raw + i * pageSize + offset) - va.raw = i * pageSize := by
      simp only [pageFloor, pageSize] at *
      omega
    rw [later ⟨va.raw + i * pageSize + offset⟩ (show _ + _ + _ < _ by omega), remapped,
      if_pos ⟨show _ ≤ _ + _ + _ by omega, show _ + _ + _ < _ by omega⟩, base]
  · rw [later place low, remapped, if_neg (by omega), forest.lookup_eq member]

/-- When a range is refused, no space translates an address otherwise than before. -/
theorem hasRefused (prepares : (tree space).Prepares grown space.owner memory after) :
    HasRefused spaces space memory after where
  lookups other isOther place _ := by
    by_cases same : other = space
    · have later := (forest.grow member prepares.toGrows).lookup_eq member place
      rw [Function.update_self, prepares.translate_eq place] at later
      rw [same, later, forest.lookup_eq member]
    · exact forest.lookup_other member prepares.toGrows isOther same place
  books := forest.tablesAdded member prepares.toGrows fun slot page found absent index within _ =>
    prepares.cleared slot page found absent index within

/-- Of the pages that are occupied, the first is to be blamed. -/
theorem map_eq_occupied (vaMultiple : va.raw % pageSize = 0) (lenMultiple : len % pageSize = 0)
    (low : va.raw + len ≤ addressLimit)
    (occupied : ∃ i < len / pageSize, space.OccupiedAt memory va pa i) :
    ∃ i < len / pageSize, space.OccupiedAt memory va pa i ∧
      space.map va pa len flags memory =
        .error (.refused (.mapping (.occupied (va.advance i)))) memory := by
  simp only [forest.occupiedAt_iff member] at occupied ⊢
  obtain ⟨i, inside, conflict⟩ := occupied
  rcases (forest.ensures_map member va pa len flags).cases with
    ⟨_, after, ran, grown, mapped⟩ | ⟨cause, after, ran, refusal⟩
  · exact absurd conflict (mapped.vacant i inside)
  · cases refusal with
    | unaligned broken =>
        exact absurd ⟨VirtAddr.isAligned_iff.mpr vaMultiple, isPageMultiple_iff.mpr lenMultiple⟩
          broken
    | beyond overflow =>
        have limit : addressLimit < wordLimit := by decide
        omega
    | occupied inside conflict first => exact ⟨_, inside, conflict, ran⟩
    | late vacant _ _ => exact absurd conflict (vacant i inside)

end Forest

/-- Mapping a range in a space with a history is exact, and leaves nothing behind but tables. -/
theorem Assembled.maps_are_exact {start memory : Memory} {spaces : List AddressSpace}
    {strayed : Set AddressSpace} (assembled : Assembled start spaces strayed memory)
    {space : AddressSpace} (member : space ∈ spaces) (va : VirtAddr) (pa : PhysAddr) (len : Nat)
    (flags : PageFlags) : MapsExactly spaces space va pa len flags memory := by
  obtain ⟨tree, strict⟩ := assembled.exists_forest
  have forest := strict.toForest
  have outcome := forest.ensures_map member va pa len flags
  refine ⟨fun stop sum => walksRegions (VirtAddr.add?_eq_some_iff.mp sum).2,
    fun fault after => outcome.not_faulted, fun after ran => ?_,
    forest.map_eq_occupied member, fun cause after ran => ?_⟩
  · obtain ⟨grown, mapped⟩ := outcome.done ran
    exact forest.hasMapped member mapped
  · obtain ⟨grown, prepares⟩ := (outcome.refused ran).exists_prepares (forest.stands space member)
    exact forest.hasRefused member prepares

/-- So a range that reaches into a second region is mapped in a space made from the kernel's. -/
theorem Assembled.first_space_maps_exactly :
    ∃ (start memory : Memory) (kernel space : AddressSpace),
      Assembled start [space, kernel] ∅ memory ∧
      MapsExactly [space, kernel] space ⟨0x3ff000⟩ ⟨0x100000⟩ 0x2000 .userRW memory := by
  obtain ⟨start, before, kernel, view, memory, first⟩ := Kernel.exists_firstSpace
  exact ⟨start, memory, kernel, _, first.assembled,
    first.assembled.maps_are_exact List.mem_cons_self _ _ _ _⟩

end PagingKernel
