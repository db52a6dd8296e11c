import PagingKernel.AddressSpace.UserString
import PagingKernel.Proofs.AddressSpace.Translation

/-!
# Reading user memory

A space that stands in memory maps pages of physical memory only, so that
following a pointer of its process never leaves memory.  The same holds of the
kernel's own space, in which the pointers of a process without one are followed.
-/

namespace PagingKernel

open PageTable

/-- The words of a page table map nothing but pages of physical memory. -/
def MapsPages (words : Nat → UInt32) : Prop :=
  ∀ va mapping, translation words va = some mapping →
    ∃ page : Fin pageCount, mapping.pa = .ofPage page

theorem exists_page_of_kernelWord {number : Nat} {mapping : Mapping}
    (found : decodeEntry (kernelWord number) = some mapping) :
    ∃ page : Fin pageCount, mapping.pa = .ofPage page := by
  rw [decodeEntry_kernelWord] at found
  split at found
  · rename_i bounds
    cases found
    exact ⟨⟨_, bounds.2⟩, rfl⟩
  · cases found

theorem mapsPages_kernelWord : MapsPages kernelWord := by
  intro va mapping found
  unfold translation at found
  split at found
  · exact exists_page_of_kernelWord found
  · cases found

theorem SpaceView.mapsPages (view : SpaceView) : MapsPages view.word := by
  intro va mapping found
  unfold translation at found
  split at found
  · rcases number_cases (tableIndex va) with below | ⟨place, number⟩ | above
    · rw [word_of_lt view below] at found
      exact exists_page_of_kernelWord found
    · rw [number, decodeEntry_word_placeNumber] at found
      obtain ⟨leaf, -, rfl⟩ := Option.map_eq_some_iff.mp found
      exact ⟨leaf.page, rfl⟩
    · rw [word_of_ge view above, decodeEntry_zero] at found
      cases found
  · cases found

/-- The byte of a mapped address is a byte of its page. -/
theorem readByte_mapping {mapping : Mapping} {page : Fin pageCount}
    (onPage : mapping.pa = .ofPage page) (ram : Ram) (va : VirtAddr) :
    ram.readByte ⟨mapping.pa.raw + va.pageOffset⟩ = .ok (ram.pageByte page va.pageOffset) := by
  have inside : va.pageOffset < pageSize := Nat.mod_lt _ (by decide)
  rw [onPage]
  exact Ram.readByte_inside inside

namespace AddressSpace

variable {space : AddressSpace} {ram : Ram}

/-- What user code reads at an address, if it may, where pages of physical memory are mapped. -/
theorem userByte?_eq_of_lookup {va : VirtAddr} {found : Option Mapping}
    (seen : space.dir.lookup ram va = .ok found)
    (pages : ∀ mapping ∈ found, ∃ page : Fin pageCount, mapping.pa = .ofPage page) :
    space.userByte? ram va = .ok (found.bind fun mapping =>
      if mapping.flags.user then some (ram.byte (mapping.pa.raw + va.pageOffset)) else none) := by
  rw [userByte?, seen]
  cases found with
  | none => rfl
  | some mapping =>
      obtain ⟨page, onPage⟩ := pages mapping rfl
      have read := readByte_mapping onPage ram va
      simp only [bind, Except.bind, Option.bind_some, read]
      split
      · rw [onPage]
        rfl
      · rfl

/-- Whether there is a byte to be read is known where a page of physical memory is mapped. -/
theorem exists_userByte? {va : VirtAddr} {found : Option Mapping}
    (seen : space.dir.lookup ram va = .ok found)
    (pages : ∀ mapping ∈ found, ∃ page : Fin pageCount, mapping.pa = .ofPage page) :
    ∃ byte, space.userByte? ram va = .ok byte :=
  ⟨_, userByte?_eq_of_lookup seen pages⟩

/-- Where every byte can be read, reading a string does not fault. -/
theorem readStringFrom_ne_faulted (reads : ∀ pos, ∃ byte, space.userByte? ram pos = .ok byte)
    (va : VirtAddr) (index limit : Nat) (fault : Fault) :
    space.readStringFrom ram va index limit ≠ .error (.faulted fault) := by
  induction limit generalizing index with
  | zero => exact fun impossible => by cases impossible
  | succ limit ih =>
      rw [readStringFrom]
      cases va.add? index with
      | none => exact fun impossible => by cases impossible
      | some pos =>
          obtain ⟨seen, read⟩ := reads pos
          dsimp only
          rw [read]
          simp only [Action.mapError_ok, bind, Except.bind]
          split
          · exact fun impossible => by cases impossible
          · rename_i byte
            split
            · exact fun impossible => by cases impossible
            · intro faulted
              cases later : space.readStringFrom ram va (index + 1) limit with
              | ok bytes =>
                  rw [later] at faulted
                  cases faulted
              | error failure =>
                  rw [later] at faulted
                  cases faulted
                  exact ih (index + 1) later

end AddressSpace

namespace Ram.Spans

variable {ram : Ram} {root table : Fin pageCount} {words : Nat → UInt32} {owner : Owner}

/-- What user code reads at an address, if it may. -/
theorem userByte?_eq (spans : ram.Spans root table words) (pages : MapsPages words)
    (va : VirtAddr) :
    (⟨⟨.ofPage root⟩, owner⟩ : AddressSpace).userByte? ram va =
      .ok ((translation words va).bind fun mapping =>
        if mapping.flags.user then some (ram.byte (mapping.pa.raw + va.pageOffset)) else none) :=
  AddressSpace.userByte?_eq_of_lookup (Ram.Spans.lookup_eq spans va) (pages va)

/-- Following a pointer never leaves memory. -/
theorem readStringFrom_ne_faulted (spans : ram.Spans root table words) (pages : MapsPages words)
    (va : VirtAddr) (index limit : Nat) (fault : Fault) :
    (⟨⟨.ofPage root⟩, owner⟩ : AddressSpace).readStringFrom ram va index limit ≠
      .error (.faulted fault) :=
  AddressSpace.readStringFrom_ne_faulted (fun pos => ⟨_, spans.userByte?_eq pages pos⟩) va index
    limit fault

end Ram.Spans

namespace SpaceView

variable {view : SpaceView} {ram other : Ram} {owner : Owner} {va : VirtAddr}

theorem Stands.lookup_eq (stands : view.Stands ram) (va : VirtAddr) :
    (⟨.ofPage view.root⟩ : Directory).lookup ram va = .ok (translation view.word va) :=
  Ram.Spans.lookup_eq stands va

theorem Stands.userByte?_eq (stands : view.Stands ram) (va : VirtAddr) :
    (view.space owner).userByte? ram va = .ok ((translation view.word va).bind fun mapping =>
      if mapping.flags.user then some (ram.byte (mapping.pa.raw + va.pageOffset)) else none) :=
  Ram.Spans.userByte?_eq stands view.mapsPages va

/-- What user code reads in the process range is decided by its directory and its own pages. -/
theorem Stands.userByte?_congr (stands : view.Stands ram) {place : Fin processPageCount}
    (number : va.raw / pageSize = placeNumber place)
    (sameRoot : Ram.SamePage ram other view.root) (sameTable : Ram.SamePage ram other view.table)
    (sameLeaf : ∀ leaf, view.leaf place = some leaf → Ram.SamePage ram other leaf.page) :
    (view.space owner).userByte? other va = (view.space owner).userByte? ram va := by
  have still : view.Stands other := stands.congr sameRoot sameTable
  rw [stands.userByte?_eq, still.userByte?_eq, translation_word_of_place view number]
  cases mapped : view.leaf place with
  | none => rfl
  | some leaf =>
      have inside : va.pageOffset < pageSize := Nat.mod_lt _ (by decide)
      have same := sameLeaf leaf mapped va.pageOffset inside
      rw [Ram.pageByte, Ram.pageByte] at same
      simp only [Option.map_some, Option.bind_some, Leaf.mapping_pa, PhysAddr.raw_ofPage, same]

end SpaceView

end PagingKernel
