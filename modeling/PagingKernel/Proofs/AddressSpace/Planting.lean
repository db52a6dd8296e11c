import PagingKernel.Proofs.Action.Ends
import PagingKernel.Proofs.AddressSpace.Growth

/-!
# New spaces

How a space comes into being, whatever memory it is made in.  A tree that was
planted (`PageTree.Planted`) is made of pages that nobody had, and nothing that was
taken before has changed.

The kernel's space maps every page of physical memory but the first to itself.  A
space made from a template reads the entries of another space, of which nothing is
assumed: the space may not even be one, and then reading it may fault.  What was
read, and from which memory, is part of what is ensured.
-/

namespace PagingKernel

open PageTable PagingKernel.Action

/-- Whatever was taken is still taken and holds what it held. -/
structure Memory.Spares (before after : Memory) : Prop where
  taken : ∀ page, before.ledger.Taken page → after.ledger.Taken page
  same : ∀ page, before.ledger.Taken page → Ram.SamePage before.ram after.ram page

theorem Memory.Spares.refl (memory : Memory) : memory.Spares memory :=
  ⟨fun _ taken => taken, fun page _ => Ram.SamePage.refl _ page⟩

/-- The books are as they were, and whatever was taken holds what it held. -/
structure Memory.Restored (before after : Memory) : Prop extends before.Spares after where
  entry_eq : ∀ page, after.ledger.entry page = before.ledger.entry page

theorem Memory.Restored.refl (memory : Memory) : memory.Restored memory :=
  ⟨.refl memory, fun _ => rfl⟩

/-- A page that nobody had may be granted and written to. -/
theorem Memory.spares_granted {memory : Memory} {page : Fin pageCount} {next : Ram}
    (unowned : memory.ledger.entry page = .unowned) (owner : Owner)
    (same : ∀ other, other ≠ page → Ram.SamePage memory.ram next other) :
    memory.Spares ⟨memory.ledger.setEntry page ⟨owner, 1⟩, next⟩ where
  taken _ taken := (Ledger.grants_setEntry unowned owner).taken_of_taken taken
  same other taken := by
    refine same other ?_
    rintro rfl
    rw [Ledger.Taken, unowned] at taken
    exact taken rfl

theorem Memory.spares_claimed {memory : Memory} {page : Fin pageCount}
    (unowned : memory.ledger.entry page = .unowned) (owner : Owner) :
    memory.Spares (memory.claimed page owner) :=
  Memory.spares_granted unowned owner fun _ apart => Ram.samePage_clear_of_ne apart

theorem Memory.onRam_eq_ok {ε α : Type} {action : Action Ram ε α} {memory : Memory} {next : Ram}
    {value : α} (ran : action memory.ram = .ok value next) :
    Memory.onRam action memory = .ok value ⟨memory.ledger, next⟩ := by
  unfold Memory.onRam
  simp only [ran]

namespace PageTree

variable {tree grown : PageTree} {owner : Owner} {before middle after memory : Memory}
  {page : Fin pageCount}

/-- A tree was made of pages that nobody had, and whatever was taken is as it was. -/
structure Planted (tree : PageTree) (owner : Owner) (before after : Memory) : Prop where
  bears : after.ram.Bears tree
  grants : before.ledger.Grants owner tree.parts after.ledger
  same : ∀ page, before.ledger.Taken page → Ram.SamePage before.ram after.ram page

theorem Planted.stands (planted : tree.Planted owner before after) : tree.Stands after :=
  ⟨planted.bears, fun _ part => planted.grants.taken part⟩

theorem Planted.spares (planted : tree.Planted owner before after) : before.Spares after :=
  ⟨fun _ taken => planted.grants.taken_of_taken taken, planted.same⟩

/-- A cleared page is a root. -/
theorem planted_bare (unowned : memory.ledger.entry page = .unowned) (owner : Owner) :
    (bare page).Planted owner memory (memory.claimed page owner) where
  bears := by
    rw [Memory.ram_claimed]
    exact .clear memory.ram page
  grants := by
    rw [parts_bare]
    exact Memory.grants_claimed unowned owner
  same := (Memory.spares_claimed unowned owner).same

/-- Growing a new tree makes a larger new tree. -/
theorem Planted.grow (planted : tree.Planted owner before middle)
    (grows : tree.Grows grown owner (grown.parts \ tree.parts) middle after) :
    grown.Planted owner before after where
  bears := grows.bears
  grants := by
    have granted := planted.grants.trans grows.grants
    rw [Set.union_sdiff_cancel grows.larger.parts_subset] at granted
    exact granted
  same page taken := by
    have notPart : page ∉ tree.parts := fun part => planted.grants.untaken part taken
    exact (planted.same page taken).trans
      (grows.spares (planted.grants.taken_of_taken taken) notPart).2

/-! ## Pages of physical memory -/

/-- Whatever is mapped is a page of physical memory. -/
def Confined (tree : PageTree) (ram : Ram) : Prop :=
  ∀ (place : VirtAddr) (mapping : Mapping), place.raw < addressLimit →
    tree.translate ram place = some mapping → ∃ page : Fin pageCount, mapping.pa = .ofPage page

theorem confined_bare (page : Fin pageCount) (ram : Ram) : (bare page).Confined ram := by
  intro place mapping _ found
  rw [translate_of_no_table rfl] at found
  cases found

theorem Prepares.confined (prepares : tree.Prepares grown owner before after)
    (confined : tree.Confined before.ram) : grown.Confined after.ram := by
  intro place mapping low found
  rw [prepares.translate_eq place] at found
  exact confined place mapping low found

/-- A range of physical memory is mapped page by page to pages of physical memory. -/
theorem confined_of_remapped {va : VirtAddr} {pa : PhysAddr} {len : Nat} {flags : PageFlags}
    {next : Ram} (bounds : Directory.InBounds va pa len)
    (inside : flags.present = true → 0 < len → pa.raw + len ≤ physicalSize)
    (confined : tree.Confined before.ram)
    (translate_eq : ∀ place : VirtAddr, place.raw < addressLimit → grown.translate next place =
      remapped va pa len flags (tree.translate before.ram place) place) : grown.Confined next := by
  intro place mapping low found
  rw [translate_eq place low, remapped] at found
  split at found
  · rename_i within
    split at found
    · rename_i present
      cases found
      have top := inside present (by omega)
      have vaAligned := VirtAddr.isAligned_iff.mp bounds.va_aligned
      have paAligned := PhysAddr.isAligned_iff.mp bounds.pa_aligned
      have multiple := isPageMultiple_iff.mp bounds.len_multiple
      have offset_lt : pageFloor place.raw - va.raw < len := by
        have := pageFloor_le place.raw
        omega
      have aligned : (pa.raw + (pageFloor place.raw - va.raw)) % pageSize = 0 := by
        simp only [pageFloor, pageSize] at *
        omega
      refine ⟨⟨(pa.raw + (pageFloor place.raw - va.raw)) / pageSize, ?_⟩, ?_⟩
      · simp only [pageSize, physicalSize, pageCount] at *
        omega
      · exact congrArg PhysAddr.mk (Nat.div_mul_cancel (Nat.dvd_of_mod_eq_zero aligned)).symm
    · cases found
  · exact confined place mapping low found

/-! ## The kernel's own space -/

/-- The kernel's space is made, or the attempt leaves whatever was taken as it was. -/
theorem ensures_buildKernel (memory : Memory) :
    AddressSpace.buildKernel.Ensures memory
      (fun space after => ∃ tree : PageTree, space = tree.space .kernel ∧
        tree.Planted .kernel memory after ∧ tree.Confined after.ram)
      fun _ after => memory.Spares after := by
  unfold AddressSpace.buildKernel
  rw [ensures_bind, ensures_mapCause]
  refine (Memory.ensures_allocZeroed_unowned memory .kernel).mono ?_ ?_
  · rintro _ _ ⟨root, rfl, unowned, rfl⟩
    dsimp only
    rw [ensures_bind]
    refine (ensures_forRange (fun _ state => ∃ tree : PageTree, tree.root = root ∧
      tree.Planted .kernel memory state ∧ tree.Confined state.ram) ?_ ?_).mono ?_
        fun _ _ held => held
    · exact ⟨bare root, rfl, planted_bare unowned .kernel, confined_bare root _⟩
    · rintro number state positive inside ⟨tree, rfl, planted, confined⟩
      refine (ensures_map planted.stands .kernel _ _ _ _).mono ?_ ?_
      · rintro _ after ⟨grown, mapped⟩
        refine ⟨grown, mapped.larger.root_eq, planted.grow mapped.toGrows, ?_⟩
        refine confined_of_remapped mapped.bounds (fun _ _ => ?_) confined mapped.translate_eq
        simp only [PhysAddr.raw_ofPage, pageSize, physicalSize, pageCount] at *
        omega
      · intro cause after refusal
        obtain ⟨grown, prepares⟩ := refusal.exists_prepares planted.stands
        exact (planted.grow prepares.toGrows).spares
    · rintro _ after ⟨tree, rfl, planted, confined⟩
      exact ensures_pure.mpr ⟨tree, rfl, planted, confined⟩
  · rintro _ _ rfl
    exact .refl _

/-! ## Spaces made from a template -/

/-- What the kernel's space maps page `number` to, read while whatever was taken is as it was. -/
def Reads (before : Memory) (kernel : AddressSpace) (number : Nat) (found : Option Mapping) :
    Prop :=
  ∃ ram, (∀ page, before.ledger.Taken page → Ram.SamePage before.ram ram page) ∧
    kernel.dir.lookup ram (.ofPage number) = .ok found

/-- The kernel's space cannot be read, although whatever was taken is as it was. -/
def Unreadable (before : Memory) (kernel : AddressSpace) : Prop :=
  ∃ ram, (∀ page, before.ledger.Taken page → Ram.SamePage before.ram ram page) ∧
    ∃ number fault, kernel.dir.entry? ram (.ofPage number) = .error fault

/-- What a space that was made from a template maps, once `count` entries were copied. -/
structure Templated (tree : PageTree) (owner : Owner) (kernel : AddressSpace) (count : Nat)
    (before after : Memory) : Prop extends tree.Planted owner before after where
  covered : ∃ table, tree.table 0 = some table
  low : ∀ number < count,
    Reads before kernel number (tree.translate after.ram (.ofPage number))
  high : ∀ number, count ≤ number → number < virtualPageCount →
    tree.translate after.ram (.ofPage number) = none

/-- One more entry is copied, or the template cannot be read. -/
theorem Templated.ends_copyKernelEntry {kernel : AddressSpace} {number : Nat}
    {table : Fin pageCount} (templated : tree.Templated owner kernel number before after)
    (found : tree.table 0 = some table) (inside : number < firstProcessPage) :
    ((tree.space owner).copyKernelEntry kernel number).Ends after
      (fun _ next => tree.Templated owner kernel (number + 1) before next) (fun _ _ => False)
      fun _ _ => Unreadable before kernel := by
  have below : number < entryCount := Nat.lt_trans inside (by decide)
  unfold AddressSpace.copyKernelEntry
  rw [ends_bind, ends_peek]
  constructor
  · intro entry read
    refine ends_of_ensures ?_
    have covered : tree.table (dirIndex (.ofPage number)) = some table := by
      rw [dirIndex_ofPage_of_lt below, found]
    obtain ⟨ledger, ram⟩ := after
    rw [ensures_mapCause, Memory.ensures_onRam, space,
      ensures_of_eq_ok (templated.bears.dirSetEntry_eq_ok covered _)]
    have others {other : Nat} (apart : other ≠ number) (low : other < virtualPageCount) :
        tree.translate (ram.setEntry table (tableIndex (.ofPage number)) (entry.getD 0))
          (.ofPage other) = tree.translate ram (.ofPage other) := by
      rw [translate_setEntry covered (tableIndex_lt _), if_neg]
      rw [index_eq_iff, VirtAddr.page_ofPage, VirtAddr.page_ofPage]
      · exact apart
      · simp only [VirtAddr.raw_ofPage, pageSize, addressLimit, virtualPageCount] at *
        omega
      · simp only [VirtAddr.raw_ofPage, pageSize, addressLimit, entryCount] at *
        omega
    refine ⟨⟨templated.bears.setEntry covered (tableIndex_lt _) _, templated.grants,
      fun page taken => ?_⟩, ⟨table, found⟩, fun other below => ?_, fun other above low => ?_⟩
    · refine (templated.same page taken).trans (Ram.samePage_setEntry_of_ne (tableIndex_lt _) ?_ _)
      rintro rfl
      exact templated.grants.untaken (table_mem_parts found) taken
    · obtain earlier | rfl := Nat.lt_succ_iff_lt_or_eq.mp below
      · rw [others (by omega) (by simp only [firstProcessPage, virtualPageCount] at *; omega)]
        exact templated.low other earlier
      · refine ⟨ram, templated.same, ?_⟩
        rw [translate_setEntry covered (tableIndex_lt _), if_pos ⟨rfl, rfl⟩, Directory.lookup, read]
        cases entry <;> rfl
    · rw [others (by omega) low]
      exact templated.high other (by omega) low
  · exact fun fault failed => ⟨after.ram, templated.same, number, fault, failed⟩

/-- The root of a space is a cleared page, unless none can be claimed. -/
theorem ensures_claimRoot (memory : Memory) (owner : Owner) :
    ((Memory.allocZeroed owner).mapCause AddressSpaceError.alloc).Ensures memory
      (fun pa after => ∃ root : Fin pageCount, pa = .ofPage root ∧
        (bare root).Planted owner memory after)
      fun _ after => memory.Restored after := by
  rw [ensures_mapCause]
  refine (Memory.ensures_allocZeroed_unowned memory owner).mono ?_ ?_
  · rintro _ _ ⟨root, rfl, unowned, rfl⟩
    exact ⟨root, rfl, planted_bare unowned owner⟩
  · rintro _ _ rfl
    exact .refl _

/-- A root whose page table cannot be claimed is given back. -/
theorem Planted.ensures_dropRoot {root : Fin pageCount}
    (planted : (bare root).Planted owner before after) :
    (AddressSpace.dropPage (.ofPage root)).Ensures after (fun _ final => before.Restored final)
      fun _ _ => False := by
  obtain ⟨ledger, ram⟩ := after
  have member : root ∈ (bare root).parts := (bare root).root_mem_parts
  rw [ensures_of_eq_ok (AddressSpace.dropPage_single (planted.grants.granted root member).2)]
  have given := planted.grants.setEntry_unowned member
  rw [parts_bare, Set.sdiff_self] at given
  exact ⟨⟨fun _ taken => given.taken_of_taken taken, planted.same⟩,
    fun page => given.kept page (Set.notMem_empty page)⟩

/-- The first page table of a space is a cleared page, too, or nothing is left of the root. -/
theorem Planted.ensures_claimTable {root : Fin pageCount}
    (planted : (bare root).Planted owner before after) :
    (((Memory.allocZeroed owner).mapCause AddressSpaceError.alloc).onRefusal
      (AddressSpace.dropPage (.ofPage root))).Ensures after
        (fun pa final => ∃ table : Fin pageCount, pa = .ofPage table ∧
          after.ledger.entry table = .unowned ∧ final = after.claimed table owner)
        fun _ final => before.Restored final := by
  rw [ensures_onRefusal, ensures_mapCause]
  refine (Memory.ensures_allocZeroed_unowned after owner).mono (fun _ _ held => held) ?_
  rintro _ _ rfl
  exact planted.ensures_dropRoot.mono (fun _ _ held => held) fun _ _ => False.elim

/-- Referring to its first page table, a space has everything that copying entries takes. -/
theorem Planted.templated_zero {root table : Fin pageCount}
    (planted : (bare root).Planted owner before after)
    (unowned : after.ledger.entry table = .unowned) (kernel : AddressSpace) :
    ∃ tree : PageTree, tree.root = root ∧ tree.table 0 = some table ∧
      tree.Templated owner kernel 0 before ⟨(after.claimed table owner).ledger,
        (after.claimed table owner).ram.setEntry root 0 (encodeEntry (.ofPage table) .userRW)⟩ := by
  have prepares := prepares_install planted.stands (show 0 < entryCount by decide) rfl unowned owner
  rw [Memory.ram_claimed]
  refine ⟨_, rfl, table_install_self, planted.grow prepares.toGrows, ⟨table, table_install_self⟩,
    fun number impossible => absurd impossible (Nat.not_lt_zero number), fun number _ _ => ?_⟩
  exact (prepares.translate_eq _).trans (translate_of_no_table rfl)

/-- A space is made from a template if the template can be read and two pages are free. -/
theorem ends_ofTemplate (memory : Memory) (kernel : AddressSpace) (pid : Pid) :
    (AddressSpace.ofTemplate kernel pid).Ends memory
      (fun space after => ∃ tree : PageTree, space = tree.space (.process pid) ∧
        tree.Templated (.process pid) kernel firstProcessPage memory after)
      (fun _ after => memory.Restored after) fun _ _ => Unreadable memory kernel := by
  unfold AddressSpace.ofTemplate
  dsimp only
  rw [ends_bind]
  refine (ends_of_ensures (ensures_claimRoot memory (.process pid))).mono ?_
    (fun _ _ held => held) fun _ _ => False.elim
  rintro _ middle ⟨root, rfl, planted⟩
  rw [ends_bind]
  refine (ends_of_ensures planted.ensures_claimTable).mono ?_
    (fun _ _ held => held) fun _ _ => False.elim
  rintro _ _ ⟨table, rfl, unowned, rfl⟩
  obtain ⟨tree, rfl, found, templated⟩ := planted.templated_zero unowned kernel
  rw [ends_bind, ends_of_eq_ok (Memory.onRam_eq_ok
    (Directory.setDirEntry_eq_ok (show 0 < entryCount by decide) _)), ends_bind]
  refine (ends_forRange (fun number state =>
    tree.Templated (.process pid) kernel number memory state) templated ?_).mono ?_
      (fun _ _ => False.elim) fun _ _ held => held
  · exact fun number state _ inside copied =>
      copied.ends_copyKernelEntry found (by omega)
  · intro _ after copied
    rw [Nat.zero_add] at copied
    exact ends_pure.mpr ⟨tree, rfl, copied⟩

end PageTree

end PagingKernel
