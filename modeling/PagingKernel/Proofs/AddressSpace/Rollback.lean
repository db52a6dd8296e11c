import PagingKernel.Proofs.AddressSpace.Duplicate
import PagingKernel.Proofs.AddressSpace.History

/-!
# Copies that are refused

A space is copied beside any other space that takes the kernel's part, as long
as both are made of pages that are taken.  The copy is refused exactly if there
are too few free pages for it or if some page would be shared too often, and a
copy that is refused, at whichever step, leaves nothing behind: neither in the
ledger nor in any page that was taken before.
-/

namespace PagingKernel

open PageTable PagingKernel.Action

namespace AddressSpace

/-! ## Spaces made of taken pages -/

/-- The directory of a space and its page tables lie on pages that are taken. -/
structure Grounded (space : AddressSpace) (memory : Memory) : Prop where
  root : ∃ page : Fin pageCount, space.root = .ofPage page ∧ memory.ledger.Taken page
  tables : ∀ slot < entryCount, ∀ table, space.dir.table? memory.ram slot = .ok (some table) →
    ∃ page : Fin pageCount, table = .ofPage page ∧ memory.ledger.Taken page

/-- What a space maps in the process range are pages that are taken. -/
def Backed (space : AddressSpace) (memory : Memory) : Prop :=
  ∀ place mapping, space.lookup memory (.ofPage (placeNumber place)) = .ok (some mapping) →
    ∃ page : Fin pageCount, mapping.pa = .ofPage page ∧ memory.ledger.Taken page

/-- Whether a space maps a place of the process range in a certain way. -/
def mapsAt (space : AddressSpace) (memory : Memory) (accepts : Mapping → Bool)
    (place : Fin processPageCount) : Bool :=
  match space.lookup memory (.ofPage (placeNumber place)) with
  | .ok (some mapping) => accepts mapping
  | _ => false

/-- The places of the process range that a space maps for user code to write. -/
def writablePlaces (space : AddressSpace) (memory : Memory) : Finset (Fin processPageCount) :=
  Finset.univ.filter fun place => space.mapsAt memory (·.flags.isUserWritable) place

/-- The places of the process range where a space maps a page for user code to read only. -/
def readOnlyPlaces (space : AddressSpace) (memory : Memory) (page : Fin pageCount) :
    Finset (Fin processPageCount) :=
  Finset.univ.filter fun place =>
    space.mapsAt memory (fun mapping => mapping.flags.isUserReadOnly && mapping.pa = .ofPage page)
      place

variable {space parent kernel : AddressSpace} {memory : Memory} {layout : Layout}

theorem mapsAt_eq {accepts : Mapping → Bool} {place : Fin processPageCount}
    {found : Option Mapping}
    (seen : space.lookup memory (.ofPage (placeNumber place)) = .ok found) :
    space.mapsAt memory accepts place = found.any accepts := by
  rw [mapsAt, seen]
  cases found <;> rfl

section Places

variable {source : Fin processPageCount → Option Mapping}

/-- A child gets copies at the places that its parent maps for user code to write. -/
theorem writablePlaces_eq
    (seen : ∀ place, space.lookup memory (.ofPage (placeNumber place)) = .ok (source place)) :
    space.writablePlaces memory = copiedPlaces source := by
  ext place
  simp only [copiedPlaces, writablePlaces, Finset.mem_filter, Finset.mem_univ, true_and,
    mapsAt_eq (seen place), Option.any_eq_true, Option.mem_def]

/-- A child shares a page at the places where its parent maps it for user code to read only. -/
theorem readOnlyPlaces_eq
    (seen : ∀ place, space.lookup memory (.ofPage (placeNumber place)) = .ok (source place))
    (page : Fin pageCount) : space.readOnlyPlaces memory page = sharedPlaces source page := by
  ext place
  simp only [sharedPlaces, readOnlyPlaces, Finset.mem_filter, Finset.mem_univ, true_and,
    mapsAt_eq (seen place), Option.any_eq_true, Option.mem_def, Bool.and_eq_true,
    decide_eq_true_eq]
  constructor
  · rintro ⟨mapping, found, readOnly, atPage⟩
    have notWritable : mapping.flags.isUserWritable = false := by
      by_contra writable
      rw [PageFlags.isUserReadOnly_eq_false_of_isUserWritable (Bool.not_eq_false _ ▸ writable)]
        at readOnly
      cases readOnly
    exact ⟨mapping, found, notWritable, readOnly, atPage⟩
  · rintro ⟨mapping, found, -, readOnly, atPage⟩
    exact ⟨mapping, found, readOnly, atPage⟩

end Places

/-- Entries of a space on taken pages are read, and stay what they are while those are kept. -/
theorem Grounded.entry? (grounded : space.Grounded memory) (va : VirtAddr) :
    ∃ entry, ∀ next, (∀ page, memory.ledger.Taken page → Ram.SamePage memory.ram next page) →
      space.dir.entry? next va = .ok entry := by
  obtain ⟨⟨_⟩, owner⟩ := space
  obtain ⟨root, rfl, rootTaken⟩ := grounded.root
  have inside := dirIndex_lt va
  have sameSlot (next : Ram) (kept : ∀ page, memory.ledger.Taken page →
      Ram.SamePage memory.ram next page) :
      next.entry root (dirIndex va) = memory.ram.entry root (dirIndex va) :=
    ((kept root rootTaken).entry_eq inside).symm
  cases decoded : decodeEntry (memory.ram.entry root (dirIndex va)) with
  | none =>
      refine ⟨none, fun next kept => Directory.entry?_eq_none ?_⟩
      rw [sameSlot next kept, decoded]
  | some mapping =>
      have found : (⟨.ofPage root⟩ : Directory).table? memory.ram (dirIndex va) =
          .ok (some mapping.pa) := by
        rw [Directory.table?_eq inside, decoded]
        rfl
      obtain ⟨table, atTable, tableTaken⟩ := grounded.tables _ inside _ found
      refine ⟨some (memory.ram.entry table (tableIndex va)), fun next kept => ?_⟩
      have refers : next.RefersTo root (dirIndex va) table := by
        rw [Ram.RefersTo, sameSlot next kept, decoded, Option.map_some, atTable]
      rw [Directory.entry?_eq_some refers, (kept table tableTaken).entry_eq (tableIndex_lt va)]

/-- A space on taken pages can be read everywhere. -/
theorem Grounded.lookup (grounded : space.Grounded memory) (va : VirtAddr) :
    ∃ found, ∀ next, (∀ page, memory.ledger.Taken page → Ram.SamePage memory.ram next page) →
      space.dir.lookup next va = .ok found := by
  obtain ⟨entry, reads⟩ := grounded.entry? va
  refine ⟨entry.bind decodeEntry, fun next kept => ?_⟩
  rw [Directory.lookup, reads next kept]
  rfl

/-- A space on taken pages can take the kernel's part. -/
theorem Grounded.exists_lends (grounded : kernel.Grounded memory) :
    ∃ low, Lends memory.ledger memory.ram kernel low := by
  choose entry reads using fun number => grounded.entry? (.ofPage number)
  exact ⟨fun number => (entry number).getD 0, fun next kept number _ =>
    ⟨entry number, reads number next kept, rfl⟩⟩

/-- A space on taken pages that maps taken pages can be inherited. -/
theorem Grounded.exists_inheritable (grounded : parent.Grounded memory)
    (backed : parent.Backed memory) :
    ∃ source, Inheritable memory.ledger memory.ram parent source ∧
      parent.writablePlaces memory = copiedPlaces source ∧
      ∀ page, parent.readOnlyPlaces memory page = sharedPlaces source page := by
  choose source reads using fun place : Fin processPageCount =>
    grounded.lookup (.ofPage (placeNumber place))
  have seen (place : Fin processPageCount) :
      parent.lookup memory (.ofPage (placeNumber place)) = .ok (source place) :=
    reads place memory.ram fun page _ => Ram.SamePage.refl memory.ram page
  refine ⟨source, ⟨fun next kept place => reads place next kept, fun place mapping found => ?_⟩,
    writablePlaces_eq seen, readOnlyPlaces_eq seen⟩
  exact backed place mapping ((seen place).trans (congrArg _ found))

/-! ## Spaces that are seen from above -/

section Views

variable {low : Nat → UInt32} {view : SpaceView} {owner : Owner}

theorem lookup_of_stands (stands : view.StandsOver low memory.ram)
    (place : Fin processPageCount) :
    (view.space owner).lookup memory (.ofPage (placeNumber place)) =
      .ok ((view.leaf place).map Leaf.mapping) :=
  stands.lookup_placeNumber place

/-- A directory with one page table, both on taken pages, is a space on taken pages. -/
theorem grounded_of_spans {ledger : Ledger} {ram : Ram} {root table : Fin pageCount}
    {words : Nat → UInt32} (spans : ram.Spans root table words) (rootTaken : ledger.Taken root)
    (tableTaken : ledger.Taken table) (owner : Owner) :
    Grounded ⟨⟨.ofPage root⟩, owner⟩ ⟨ledger, ram⟩ where
  root := ⟨root, rfl, rootTaken⟩
  tables slot inside found isFound := by
    have seen : (⟨.ofPage root⟩ : Directory).table? ram slot = .ok (some found) := isFound
    rw [Directory.table?_eq inside] at seen
    obtain rfl | positive := Nat.eq_zero_or_pos slot
    · rw [spans.refersTo] at seen
      exact ⟨table, (Option.some.inj (Except.ok.inj seen)).symm, tableTaken⟩
    · rw [spans.decodeEntry_slot positive inside] at seen
      cases seen

theorem backed_of_stands (stands : view.StandsOver low memory.ram)
    (taken : ∀ place leaf, view.leaf place = some leaf → memory.ledger.Taken leaf.page) :
    (view.space owner).Backed memory := by
  intro place mapping found
  have seen := (lookup_of_stands stands place).symm.trans found
  obtain ⟨leaf, mapped, rfl⟩ := Option.map_eq_some_iff.mp (Except.ok.inj seen)
  exact ⟨leaf.page, rfl, taken place leaf mapped⟩

end Views

/-! ## When a copy is refused, and what is left of it -/

/-- Too few pages are free for a copy of the space, or some page would be shared too often. -/
def TooLarge (parent : AddressSpace) (memory : Memory) : Prop :=
  memory.ledger.freePages < 2 + (parent.writablePlaces memory).card ∨
    ∃ page, 0 < (parent.readOnlyPlaces memory page).card ∧
      refcountLimit < (memory.ledger.entry page).refcount +
        (parent.readOnlyPlaces memory page).card

/-- A refused copy left the ledger and the pages that were taken as they were. -/
structure Untouched (before after : Memory) : Prop where
  entries : ∀ page, after.ledger.entry page = before.ledger.entry page
  bytes : ∀ page, before.ledger.Taken page → ∀ offset < pageSize,
    after.ram.pageByte page offset = before.ram.pageByte page offset

/-- What copying a space comes to. -/
structure CopiesOrUnwinds (parent kernel : AddressSpace) (child : Pid) (memory : Memory) :
    Prop where
  not_faulted : ∀ fault after, parent.duplicate kernel child memory ≠ .error (.faulted fault) after
  refused_iff : (∃ cause after, parent.duplicate kernel child memory =
    .error (.refused cause) after) ↔ parent.TooLarge memory
  untouched : ∀ cause after, parent.duplicate kernel child memory = .error (.refused cause) after →
    Untouched memory after

/-- A space is copied unless it is too large, and a refused copy leaves everything as it was. -/
theorem copies_are_unwound (history : Ledger.Reached layout memory.ledger)
    (kernelGrounded : kernel.Grounded memory) (parentGrounded : parent.Grounded memory)
    (parentBacked : parent.Backed memory) (child : Pid) :
    CopiesOrUnwinds parent kernel child memory := by
  obtain ⟨low, lends⟩ := kernelGrounded.exists_lends
  obtain ⟨source, inheritable, copied, shared⟩ :=
    parentGrounded.exists_inheritable parentBacked
  have tooLarge_iff : Unaffordable memory.ledger source ↔ parent.TooLarge memory := by
    simp only [Unaffordable, TooLarge, copied, shared, Finset.card_pos]
  have outcome := ensures_duplicate_over history.proper.tidy lends inheritable child
  refine ⟨fun fault after => outcome.not_faulted, ⟨?_, fun tooLarge => ?_⟩, ?_⟩
  · rintro ⟨cause, after, refused⟩
    obtain ⟨-, unaffordable, -⟩ := outcome.refused refused
    exact tooLarge_iff.mp unaffordable
  · rcases outcome.cases with ⟨space, after, ran, view, next, rfl, rfl, inherited⟩ |
      ⟨cause, after, refused, -⟩
    · have moved := parent.carries_duplicate kernel child memory
      rw [after_of_eq_ok ran] at moved
      have counted := (history.trans moved).proper
      exact absurd (tooLarge_iff.mpr tooLarge)
        (inherited.affordable inheritable.backed fun page => (counted page).refcount_le)
    · exact ⟨cause, after, refused⟩
  · intro cause after refused
    obtain ⟨-, -, next, rfl, kept⟩ := outcome.refused refused
    exact ⟨fun _ => rfl, fun page taken offset inside => (kept page taken offset inside).symm⟩

/-- A ledger with a history in which one page is referenced as often as can be counted. -/
private theorem exists_overshared : ∃ ledger : Ledger, Ledger.Reached {} ledger ∧
    ledger.Taken 300 ∧ ledger.Taken 301 ∧ (ledger.entry 302).refcount = refcountLimit := by
  obtain ⟨boot, laidOut⟩ :=
    Ledger.exists_ofLayout (show pageSize ≤ ({} : Layout).stackTop by decide)
  have free (page : Fin pageCount) (above : firstProcessPage ≤ page.val) : ¬boot.Taken page := by
    rw [Ledger.Taken, Ledger.entry_of_above laidOut (by decide) (by decide) (by decide) above]
    decide
  let withRoot := boot.charge .kernel (Pi.single 300 1)
  let withTable := withRoot.charge .kernel (Pi.single 301 1)
  have tableFree : ¬withRoot.Taken 301 := by
    rw [Ledger.taken_charge_iff, not_or]
    exact ⟨free 301 (by decide), by decide⟩
  have pageFree : ¬withTable.Taken 302 := by
    rw [Ledger.taken_charge_iff, Ledger.taken_charge_iff, not_or, not_or]
    exact ⟨⟨free 302 (by decide), by decide⟩, by decide⟩
  have first := Ledger.leads_allocate (free 300 (by decide)) (show Owner.kernel ≠ .free by decide)
  have second := Ledger.leads_allocate tableFree (show Owner.kernel ≠ .free by decide)
  have third := Ledger.leads_charge_single pageFree (show Owner.kernel ≠ .free by decide)
    (show 254 + 1 ≤ refcountLimit by decide)
  refine ⟨_, ⟨boot, laidOut, (first.trans second).trans third⟩, ?_, ?_, ?_⟩
  · exact ((Ledger.taken_charge_single boot .kernel 300).charge _ _).charge _ _
  · exact (Ledger.taken_charge_single withRoot .kernel 301).charge _ _
  · have unreferenced : (withTable.entry 302).refcount = 0 := not_not.mp pageFree
    rw [Ledger.entry_charge, PageInfo.charge, Pi.single_eq_same, unreferenced]

/-- A space that maps a page which is referenced as often as can be counted is not copied. -/
theorem overshared_copy_is_unwound :
    ∃ (memory : Memory) (parent : AddressSpace), Ledger.Reached {} memory.ledger ∧
      parent.Grounded memory ∧ parent.Backed memory ∧ parent.TooLarge memory ∧
      CopiesOrUnwinds parent parent (.ofIndex 1) memory := by
  obtain ⟨ledger, history, rootTaken, tableTaken, full⟩ := exists_overshared
  let bare : SpaceView := ⟨300, 301, fun _ => none⟩
  have bareStands : bare.StandsOver (fun _ => 0)
      (((Ram.blank.clear 300).clear 301).setEntry 300 0 (encodeEntry (.ofPage 301) .userRW)) := by
    have nothing : firstWords (fun _ => 0) firstProcessPage = fun _ => 0 := by
      funext number
      simp [firstWords]
    rw [SpaceView.StandsOver, SpaceView.wordOver_eq_of_vacant _ fun _ => rfl, nothing]
    exact Ram.spans_clear_clear (by decide)
  obtain ⟨ram, stands⟩ : ∃ ram, (bare.setLeaf 0 ⟨302, false⟩).StandsOver (fun _ => 0) ram :=
    ⟨_, bareStands.setLeaf (by decide) 0 ⟨302, false⟩⟩
  let memory : Memory := ⟨ledger, ram⟩
  let parent := (bare.setLeaf 0 ⟨302, false⟩).space .kernel
  have grounded : parent.Grounded memory :=
    grounded_of_spans stands rootTaken tableTaken .kernel
  have backed : parent.Backed memory := by
    refine backed_of_stands stands fun place leaf mapped => ?_
    rw [SpaceView.leaf_setLeaf] at mapped
    split at mapped
    · obtain rfl := Option.some.inj mapped
      rw [Ledger.Taken, full]
      decide
    · cases mapped
  have positive : 0 < (parent.readOnlyPlaces memory 302).card := by
    rw [readOnlyPlaces_eq (lookup_of_stands stands)]
    refine Finset.card_pos.mpr ⟨0, Finset.mem_filter.mpr ⟨Finset.mem_univ _,
      Leaf.mapping ⟨302, false⟩, ?_, rfl, rfl, rfl⟩⟩
    exact congrArg (Option.map Leaf.mapping) SpaceView.leaf_setLeaf_self
  have tooLarge : parent.TooLarge memory :=
    .inr ⟨302, positive, by rw [show memory.ledger.entry 302 = ledger.entry 302 from rfl]; omega⟩
  exact ⟨memory, parent, history, grounded, backed, tooLarge,
    copies_are_unwound history grounded grounded backed (.ofIndex 1)⟩

end AddressSpace

end PagingKernel
