import PagingKernel.Proofs.PageTable.Tree

/-!
# Mapping a range

What `Directory.map` does to a tree that has all the page tables it needs.  The
bounds of a range are checked before anything is written, the loop that asks for
the page tables finds them all, and the loop that writes the entries changes the
translations of the range, page after page, and no others.  `remapped` says what
they are changed to.
-/

namespace PagingKernel

open PageTable

namespace Directory

/-- The bounds of a range that is mapped: whole pages below four gigabytes, on both sides. -/
structure InBounds (va : VirtAddr) (pa : PhysAddr) (len : Nat) : Prop where
  va_aligned : va.isAligned = true
  pa_aligned : pa.isAligned = true
  len_multiple : isPageMultiple len = true
  va_end : va.raw + len ≤ addressLimit
  pa_end : pa.raw + len ≤ addressLimit

/-- The bounds of a range are checked for what they are. -/
theorem checkRange_cases (va : VirtAddr) (pa : PhysAddr) (len : Nat) :
    InBounds va pa len ∧ checkRange va pa len = .ok () ∨
      ¬InBounds va pa len ∧ ∃ cause, checkRange va pa len = .error cause := by
  have limit : addressLimit < wordLimit := by decide
  unfold checkRange VirtAddr.add? PhysAddr.add?
  by_cases aligned : (va.isAligned && pa.isAligned && isPageMultiple len) = true
  · obtain ⟨⟨vaAligned, paAligned⟩, multiple⟩ := by
      rw [Bool.and_eq_true, Bool.and_eq_true] at aligned
      exact aligned
    simp only [aligned, Bool.not_true, Bool.false_eq_true, if_false]
    cases vaSum : wordAdd? va.raw len with
    | none =>
        have overflow := wordAdd?_eq_none_iff.mp vaSum
        exact .inr ⟨fun bounds => by have := bounds.va_end; omega, _, rfl⟩
    | some vaEnd =>
        obtain ⟨rfl, -⟩ := wordAdd?_eq_some_iff.mp vaSum
        cases paSum : wordAdd? pa.raw len with
        | none =>
            have overflow := wordAdd?_eq_none_iff.mp paSum
            exact .inr ⟨fun bounds => by have := bounds.pa_end; omega, _, rfl⟩
        | some paEnd =>
            obtain ⟨rfl, -⟩ := wordAdd?_eq_some_iff.mp paSum
            simp only [Option.map_some, Bool.or_eq_true, decide_eq_true_eq]
            split
            · rename_i beyond
              refine .inr ⟨fun bounds => ?_, _, rfl⟩
              have := bounds.va_end
              have := bounds.pa_end
              omega
            · rename_i within
              exact .inl ⟨⟨vaAligned, paAligned, multiple, by omega, by omega⟩, rfl⟩
  · simp only [aligned, Bool.not_false, if_true]
    refine .inr ⟨fun bounds => aligned ?_, _, rfl⟩
    rw [bounds.va_aligned, bounds.pa_aligned, bounds.len_multiple]
    rfl

end Directory

/-! ## Pages of a range -/

/-- The entries that cover two addresses of 32 bits are the same exactly within a page. -/
theorem index_eq_iff {first second : VirtAddr} (firstLow : first.raw < addressLimit)
    (secondLow : second.raw < addressLimit) :
    dirIndex first = dirIndex second ∧ tableIndex first = tableIndex second ↔
      first.raw / pageSize = second.raw / pageSize := by
  simp only [dirIndex, tableIndex, regionSize, pageSize, entryCount, addressLimit] at *
  omega

/-- What the page of `place` is mapped to after the `len` bytes at `va` are mapped to those at
`pa`, if it was mapped as `earlier` says. -/
def remapped (va : VirtAddr) (pa : PhysAddr) (len : Nat) (flags : PageFlags)
    (earlier : Option Mapping) (place : VirtAddr) : Option Mapping :=
  if va.raw ≤ place.raw ∧ place.raw < va.raw + len then
    if flags.present then some ⟨⟨pa.raw + (pageFloor place.raw - va.raw)⟩, flags⟩ else none
  else earlier

theorem remapped_zero (va : VirtAddr) (pa : PhysAddr) (flags : PageFlags)
    (earlier : Option Mapping) (place : VirtAddr) :
    remapped va pa 0 flags earlier place = earlier := by
  rw [remapped, if_neg (by omega)]

/-- An entry for a page of a range in bounds refers to that page. -/
theorem decodeEntry_advance {va : VirtAddr} {pa : PhysAddr} {len i : Nat} (flags : PageFlags)
    (bounds : Directory.InBounds va pa len) (inside : i < len / pageSize) :
    decodeEntry (encodeEntry (pa.advance i) flags) =
      if flags.present then some ⟨pa.advance i, flags⟩ else none := by
  have aligned := PhysAddr.isAligned_iff.mp bounds.pa_aligned
  have low := bounds.pa_end
  have same : pageFloor ((pa.advance i).raw % addressLimit) = (pa.advance i).raw := by
    simp only [PhysAddr.advance, pageFloor, pageSize, addressLimit] at *
    omega
  rw [decodeEntry_encodeEntry, same]

theorem remapped_succ {va : VirtAddr} {pa : PhysAddr} {len i : Nat} {flags : PageFlags}
    (bounds : Directory.InBounds va pa len) (inside : i < len / pageSize)
    (earlier : Option Mapping) {place : VirtAddr} (low : place.raw < addressLimit) :
    remapped va pa ((i + 1) * pageSize) flags earlier place =
      if dirIndex place = dirIndex (va.advance i) ∧ tableIndex place = tableIndex (va.advance i)
      then decodeEntry (encodeEntry (pa.advance i) flags)
      else remapped va pa (i * pageSize) flags earlier place := by
  have aligned := VirtAddr.isAligned_iff.mp bounds.va_aligned
  have vaEnd := bounds.va_end
  have pageLow : (va.advance i).raw < addressLimit := by
    simp only [VirtAddr.advance, pageSize, addressLimit] at *
    omega
  have advanced : (va.advance i).raw = va.raw + i * pageSize := rfl
  by_cases here : place.raw / pageSize = (va.advance i).raw / pageSize
  · have within : va.raw ≤ place.raw ∧ place.raw < va.raw + (i + 1) * pageSize := by
      simp only [pageSize] at *
      omega
    have offset : pageFloor place.raw - va.raw = i * pageSize := by
      simp only [pageFloor, pageSize] at *
      omega
    rw [if_pos ((index_eq_iff low pageLow).mpr here), decodeEntry_advance flags bounds inside,
      remapped, if_pos within, offset]
    rfl
  · rw [if_neg (mt (index_eq_iff low pageLow).mp here), remapped, remapped]
    refine if_congr ?_ rfl rfl
    simp only [pageSize] at *
    omega

namespace PageTree

open PagingKernel.Action

variable {tree : PageTree} {ram : Ram} {va : VirtAddr} {pa : PhysAddr} {len : Nat}

/-- The tree has page tables for all pages of a range. -/
def Covers (tree : PageTree) (va : VirtAddr) (len : Nat) : Prop :=
  ∀ i < len / pageSize, ∃ table, tree.table (dirIndex (va.advance i)) = some table

/-- An entry of the page table in a slot is about a page of the range. -/
def InRange (va : VirtAddr) (len slot index : Nat) : Prop :=
  ∃ i < len / pageSize, dirIndex (va.advance i) = slot ∧ tableIndex (va.advance i) = index

/-- What memory holds once the `len` bytes at `va` are mapped to those at `pa`. -/
structure Remaps (tree : PageTree) (ram next : Ram) (va : VirtAddr) (pa : PhysAddr) (len : Nat)
    (flags : PageFlags) : Prop where
  bears : next.Bears tree
  untouched : ∀ page ∉ tree.parts, Ram.SamePage ram next page
  translate_eq : ∀ place : VirtAddr, place.raw < addressLimit →
    tree.translate next place = remapped va pa len flags (tree.translate ram place) place
  entries : ∀ slot page, tree.table slot = some page → ∀ index < entryCount,
    ¬InRange va len slot index → next.entry page index = ram.entry page index

/-- Writing the entry of one more page of a range. -/
theorem Remaps.setEntry {next : Ram} {flags : PageFlags} {i : Nat} {table : Fin pageCount}
    (bounds : Directory.InBounds va pa len) (inside : i < len / pageSize)
    (found : tree.table (dirIndex (va.advance i)) = some table)
    (remaps : tree.Remaps ram next va pa (i * pageSize) flags) :
    tree.Remaps ram
      (next.setEntry table (tableIndex (va.advance i)) (encodeEntry (pa.advance i) flags))
      va pa ((i + 1) * pageSize) flags where
  bears := remaps.bears.setEntry found (tableIndex_lt _) _
  untouched page apart := by
    have notTable : page ≠ table := fun same => apart (same ▸ table_mem_parts found)
    exact (remaps.untouched page apart).trans
      (Ram.samePage_setEntry_of_ne (tableIndex_lt _) notTable _)
  translate_eq place low := by
    rw [translate_setEntry found (tableIndex_lt _), remapped_succ bounds inside _ low,
      remaps.translate_eq place low]
  entries slot page isTable index within outside := by
    have pages (count : Nat) : count * pageSize / pageSize = count :=
      Nat.mul_div_cancel count (by decide)
    have earlier : ¬InRange va (i * pageSize) slot index := by
      rintro ⟨j, below, same⟩
      rw [pages] at below
      exact outside ⟨j, by rw [pages]; omega, same⟩
    rw [← remaps.entries slot page isTable index within earlier]
    by_cases same : page = table
    · obtain rfl := same
      have sameSlot := tree.table_injective _ _ page found isTable
      refine Ram.entry_setEntry_of_ne (tableIndex_lt _) (fun sameIndex => outside ?_) _
      exact ⟨i, by rw [pages]; omega, sameSlot, sameIndex.symm⟩
    · exact ((Ram.samePage_setEntry_of_ne (tableIndex_lt _) same _).entry_eq within).symm

/-- A range is mapped if it keeps the bounds, and otherwise nothing is written. -/
theorem ensures_dirMap (bears : ram.Bears tree) (covers : tree.Covers va len)
    (flags : PageFlags) :
    (tree.dir.map va pa len flags).Ensures ram
      (fun _ next => Directory.InBounds va pa len ∧ tree.Remaps ram next va pa len flags)
      fun _ next => ¬Directory.InBounds va pa len ∧ next = ram := by
  unfold Directory.map
  simp only [ensures_bind]
  rcases Directory.checkRange_cases va pa len with ⟨bounds, checked⟩ | ⟨beyond, cause, checked⟩
  · rw [checked, ensures_ofExcept_ok]
    have tablesFound : (forRange 0 (len / pageSize) fun i => do
        let _ ← tree.dir.requireTable (va.advance i)).Ensures ram (fun _ next => next = ram)
        fun _ next => ¬Directory.InBounds va pa len ∧ next = ram := by
      refine ensures_forRange (fun _ next => next = ram) rfl ?_
      rintro i _ - inside rfl
      obtain ⟨table, found⟩ := covers i (by omega)
      rw [ensures_bind, ensures_of_eq_ok (bears.requireTable_eq_ok found), ensures_pure]
    refine tablesFound.mono ?_ fun _ _ held => held
    intro _ stop same
    rw [same]
    have whole : len / pageSize * pageSize = len := by
      have multiple := isPageMultiple_iff.mp bounds.len_multiple
      simp only [pageSize] at *
      omega
    refine (ensures_forRange
      (fun i next => tree.Remaps ram next va pa (i * pageSize) flags) ?start ?step).mono ?_
        fun _ _ held => held
    case start =>
      refine ⟨bears, fun page _ => Ram.SamePage.refl _ page, fun place _ => ?_,
        fun _ _ _ _ _ _ => rfl⟩
      rw [Nat.zero_mul, remapped_zero]
    case step =>
      intro i next _ inside remaps
      obtain ⟨table, found⟩ := covers i (by omega)
      rw [ensures_of_eq_ok (remaps.bears.dirSetEntry_eq_ok found _)]
      exact remaps.setEntry bounds (by omega) found
    intro _ next remaps
    rw [Nat.zero_add, whole] at remaps
    exact ⟨bounds, remaps⟩
  · rw [checked, ensures_ofExcept_error]
    exact ⟨beyond, rfl⟩

end PageTree

end PagingKernel
