import PagingKernel.Proofs.Memory.Claims
import PagingKernel.Proofs.Run.References
import PagingKernel.Proofs.Run.Underway

/-!
# What boot sets aside

The layout names bytes, and the ledger at boot sets pages aside.  It decides about
a page by the page's first byte alone, so two things that lie on a page escape
it: the image, on the page that it starts inside of, and the stack, when its top
is not the end of a page.  `Overlooks` names these two exactly: the pages that
are free at boot are those on which everything is overlooked.

What is free later in a run was free at boot, so no page that is handed to a
process holds anything else of the kernel.
-/

namespace PagingKernel

/-- What lies in memory before the kernel takes its first page. -/
inductive Occupant where
  /-- The page at address 0. -/
  | firstPage
  /-- The memory-mapped devices. -/
  | devices
  /-- The kernel's image. -/
  | image
  /-- The page's worth of bytes just below the top of the kernel's stack. -/
  | stack
deriving DecidableEq, Repr

namespace Layout

/-- The occupant has the byte at an address. -/
def Holds (layout : Layout) : Occupant → Nat → Prop
  | .firstPage, address => address < pageSize
  | .devices, address => deviceStart ≤ address ∧ address < deviceEnd
  | .image, address => layout.imageStart ≤ address ∧ address < layout.imageEnd
  | .stack, address => layout.stackTop - pageSize ≤ address ∧ address < layout.stackTop

/-- The first byte of the page does not tell that the occupant has the byte at an address. -/
def Overlooks (layout : Layout) : Occupant → Nat → Prop
  | .firstPage, _ => False
  | .devices, _ => False
  | .image, address => pageFloor address < layout.imageStart
  | .stack, _ => layout.stackTop % pageSize ≠ 0

/-- Whatever has a byte of the page is overlooked there. -/
def Spares (layout : Layout) (page : Fin pageCount) : Prop :=
  ∀ occupant address, address / pageSize = page.val → layout.Holds occupant address →
    layout.Overlooks occupant address

/-- Nothing has a byte of the page. -/
def Vacates (layout : Layout) (page : Fin pageCount) : Prop :=
  ∀ occupant address, address / pageSize = page.val → ¬layout.Holds occupant address

instance (layout : Layout) (occupant : Occupant) (address : Nat) :
    Decidable (layout.Holds occupant address) :=
  match occupant with
  | .firstPage => inferInstanceAs (Decidable (_ < _))
  | .devices | .image | .stack => inferInstanceAs (Decidable (_ ∧ _))

variable {layout : Layout} {page : Fin pageCount}

theorem setsAside_iff (room : pageSize ≤ layout.stackTop) :
    layout.setsAside page = true ↔
      layout.Holds .firstPage (page * pageSize) ∨ layout.Holds .devices (page * pageSize) ∨
      layout.Holds .image (page * pageSize) ∨ page * pageSize = layout.stackTop - pageSize := by
  rw [setsAside, isKernel_eq_ok room]
  simp only [Bool.or_eq_true, isReserved_iff, inImage, Bool.and_eq_true, decide_eq_true_eq,
    Holds, or_assoc]
  rfl

theorem not_spares_of_setsAside (room : pageSize ≤ layout.stackTop)
    (aside : layout.setsAside page = true) : ¬layout.Spares page := by
  intro spares
  have onPage : page.val * pageSize / pageSize = page.val := Nat.mul_div_cancel _ (by decide)
  rcases (setsAside_iff room).mp aside with first | device | image | stack
  · exact spares .firstPage _ onPage first
  · exact spares .devices _ onPage device
  · have missed := spares .image _ onPage image
    rw [Overlooks, pageFloor, onPage] at missed
    exact Nat.not_lt.mpr image.1 missed
  · have top : layout.stackTop = (page.val + 1) * pageSize := by
      rw [Nat.add_mul, Nat.one_mul]
      omega
    have held : layout.Holds .stack (page * pageSize) := by
      refine ⟨Nat.le_of_eq stack.symm, ?_⟩
      rw [top]
      exact Nat.mul_lt_mul_of_pos_right (Nat.lt_succ_self _) (by decide)
    exact spares .stack _ onPage held (by rw [top, Nat.mul_mod_left])

/-- The bounds of page 0 and of the devices lie between pages, so no page is split by them. -/
theorem spares_of_not_setsAside (room : pageSize ≤ layout.stackTop)
    (left : ¬layout.setsAside page = true) : layout.Spares page := by
  rw [setsAside_iff room] at left
  intro occupant address onPage holds
  cases occupant with
  | firstPage | devices =>
      simp only [Holds, pageSize, deviceStart, deviceEnd] at *
      omega
  | image | stack =>
      simp only [Holds, Overlooks, pageFloor, pageSize] at *
      omega

theorem untaken_iff_spares {boot : Ledger} (laidOut : Ledger.ofLayout layout = .ok boot)
    (room : pageSize ≤ layout.stackTop) : ¬boot.Taken page ↔ layout.Spares page := by
  rw [Ledger.Taken, Ledger.refcount_ofLayout laidOut]
  by_cases aside : layout.setsAside page = true
  · simp [aside, not_spares_of_setsAside room aside]
  · simp [aside, spares_of_not_setsAside room aside]

/-- Nothing is overlooked if the image starts, and the stack ends, between pages. -/
theorem Spares.vacates (spares : layout.Spares page) (image : layout.imageStart % pageSize = 0)
    (stack : layout.stackTop % pageSize = 0) : layout.Vacates page := by
  intro occupant address onPage holds
  have missed := spares occupant address onPage holds
  cases occupant with
  | firstPage | devices => exact missed
  | stack => exact missed stack
  | image =>
      simp only [Holds, Overlooks, pageFloor, pageSize] at *
      omega

theorem spares_of_straddled (starts : layout.imageStart / pageSize = page.val)
    (inside : layout.imageStart % pageSize ≠ 0)
    (alone : ∀ occupant address, address / pageSize = page.val → layout.Holds occupant address →
      occupant = .image) : layout.Spares page := by
  intro occupant address onPage holds
  obtain rfl := alone occupant address onPage holds
  rw [Overlooks, pageFloor, onPage, ← starts]
  exact Nat.lt_of_le_of_ne (Nat.div_mul_le_self ..) fun same =>
    inside (by rw [← same, Nat.mul_mod_left])

/-! ## What processes get -/

/-- No page that a process has, or would be given next, holds more than boot overlooks. -/
structure Protects (layout : Layout) (memory : Memory) : Prop where
  owned : ∀ page pid, (memory.ledger.entry page).owner = .process pid → layout.Spares page
  found : ∀ pa, memory.ledger.findFree = some pa →
    ∃ page : Fin pageCount, pa = .ofPage page ∧ layout.Spares page
  handed : ∀ pid pa after, Memory.allocZeroed (.process pid) memory = .ok pa after →
    ∃ page : Fin pageCount, pa = .ofPage page ∧ layout.Spares page

/-- What is not set aside at boot may be in use by anyone later, and nothing else may. -/
theorem protects_of_balanced {boot ledger : Ledger} {books : Books} {ram : Ram}
    (laidOut : Ledger.ofLayout layout = .ok boot) (room : pageSize ≤ layout.stackTop)
    (balanced : books.Balanced boot ledger) : layout.Protects ⟨ledger, ram⟩ := by
  have spared {page : Fin pageCount} (untaken : ¬ledger.Taken page) : layout.Spares page :=
    (untaken_iff_spares laidOut room).mp (balanced.untaken_iff.mp untaken).1
  exact {
    owned := by
      intro page pid owned
      refine (untaken_iff_spares laidOut room).mp fun taken => ?_
      rw [balanced.bootEntry page taken] at owned
      exact balanced.atBoot.owner_ne_process page pid owned
    found := by
      intro pa found
      obtain ⟨page, rfl, untaken, -⟩ := Ledger.findFree_eq_some balanced.tidy found
      exact ⟨page, rfl, spared untaken⟩
    handed := by
      intro pid pa after handed
      obtain ⟨page, rfl, next, -⟩ :=
        (Memory.ensures_allocZeroed balanced.tidy (by simp)).done handed
      exact ⟨page, rfl, spared next.untaken⟩ }

end Layout

/-- The pages that are free at boot are those on which everything is overlooked, which is nothing
if image and stack are bounded by pages, and in no run does a process get another page. -/
theorem Run.noticed_occupants_are_protected {layout : Layout} (room : pageSize ≤ layout.stackTop) :
    ∃ boot, Ledger.ofLayout layout = .ok boot ∧
      (∀ page, boot.entry page = .unowned ↔ layout.Spares page) ∧
      (layout.imageStart % pageSize = 0 → layout.stackTop % pageSize = 0 →
        ∀ page, layout.Spares page → layout.Vacates page) ∧
      ∀ setting state, setting.layout = layout → Run.Reached setting state →
        layout.Protects state.kernel.resources.memory := by
  obtain ⟨boot, laidOut⟩ := Ledger.exists_ofLayout room
  refine ⟨boot, laidOut, fun page => ?_, fun image stack page spares => spares.vacates image stack,
    ?_⟩
  · rw [← Layout.untaken_iff_spares laidOut room]
    rcases Ledger.atBoot_of_ofLayout laidOut page with free | reserved | kernel
    · simp [Ledger.Taken, free, PageInfo.unowned]
    · simp [Ledger.Taken, reserved, PageInfo.unowned]
    · simp [Ledger.Taken, kernel, PageInfo.unowned]
  · rintro setting state rfl reached
    obtain ⟨also, books, alsoLaidOut, regular⟩ := Run.regular_of_reached reached
    exact Layout.protects_of_balanced alsoLaidOut room regular.coherent.sound.balanced

/-- A run from blank memory keeps its processes off the kernel. -/
theorem Run.small_kernel_is_protected :
    pageSize ≤ Setting.small.layout.stackTop ∧ ∃ (kernel : Kernel) (slot : Fin slotCount),
      Run.Reached .small ⟨kernel, .user (.ofIndex slot)⟩ ∧
      Setting.small.layout.Protects kernel.resources.memory := by
  have room : pageSize ≤ Setting.small.layout.stackTop := by decide
  obtain ⟨kernel, slot, reached, -⟩ := Run.Setting.suitable_small.exists_running
  obtain ⟨boot, -, -, -, always⟩ := Run.noticed_occupants_are_protected room
  exact ⟨room, kernel, slot, reached, always .small _ rfl reached⟩

/-! ## An image that starts inside a page -/

/-- A layout whose image starts in the middle of page 1. -/
def Layout.straddling : Layout where
  imageStart := 0x1800

/-- The image has a byte on page 1, and boot leaves the page free. -/
theorem Layout.spares_straddling : Layout.straddling.Spares 1 := by
  refine spares_of_straddled rfl (by decide) fun occupant address onPage holds => ?_
  have first : (1 : Fin pageCount).val = 1 := rfl
  rw [first] at onPage
  cases occupant with
  | image => rfl
  | firstPage | devices | stack =>
      simp only [Holds, straddling, pageSize, deviceStart] at *
      omega

/-- The first page that such a kernel gives to a process is one of its own, and it is cleared. -/
theorem Layout.straddling_image_is_handed_out :
    pageSize ≤ Layout.straddling.stackTop ∧ Layout.straddling.Holds .image 0x1800 ∧
    ∃ boot, Ledger.ofLayout .straddling = .ok boot ∧
      ∀ ram, ∃ after, Memory.allocZeroed (.process ⟨1⟩) ⟨boot, ram⟩ = .ok (.ofPage 1) after ∧
        after.ram.byte 0x1800 = 0 := by
  have room : pageSize ≤ Layout.straddling.stackTop := by decide
  obtain ⟨boot, laidOut⟩ := Ledger.exists_ofLayout room
  have atBoot := Ledger.atBoot_of_ofLayout laidOut
  have free : ¬boot.Taken 1 := (untaken_iff_spares laidOut room).mpr spares_straddling
  have taken : boot.Taken 0 := by
    rw [Ledger.Taken, Ledger.entry_of_isReserved laidOut (by decide)]
    decide
  refine ⟨room, by decide, boot, laidOut, fun ram => ?_⟩
  have allocated : (Memory.allocZeroed (.process ⟨1⟩)).Ensures ⟨boot, ram⟩ _ _ :=
    Memory.ensures_allocZeroed atBoot.tidy (by simp)
  rcases allocated.cases with
    ⟨pa, after, ran, page, rfl, next, rfl⟩ | ⟨cause, after, -, exhausted, -⟩
  · obtain ⟨lowest, same, -, below⟩ := Ledger.findFree_eq_some atBoot.tidy next.lowest
    obtain rfl := PhysAddr.ofPage_inj.mp same
    have positive : page ≠ 0 := fun isFirst => next.untaken (isFirst ▸ taken)
    have first : page = 1 := by
      refine le_antisymm (not_lt.mp fun above => free (below 1 above)) ?_
      exact Fin.one_le_of_ne_zero positive
    subst first
    have cleared : (ram.clear 1).pageByte 1 0x800 = 0 := Ram.pageByte_clear (by decide)
    have address : (1 : Fin pageCount).val * pageSize + 0x800 = 0x1800 := rfl
    rw [Ram.pageByte, address] at cleared
    refine ⟨_, ran, ?_⟩
    dsimp only
    exact cleared
  · have half := Ledger.half_le_freePages laidOut room (by decide) (by decide)
    rw [exhausted.freePages_eq] at half
    exact absurd half (by decide)

end PagingKernel
