import PagingKernel.AddressSpace.Basic
import PagingKernel.Proofs.PageTable.Span

/-!
# Spaces seen from above

A `SpaceView` is what the directory of a process amounts to: the page of the
directory, the page of its page table, and the page that each place of the
process range is mapped to, if it is mapped.  `SpaceView.Stands view ram` says
that RAM holds exactly such a directory, which below the process range agrees
with the kernel's; `StandsOver view low ram` leaves open with what it agrees
there.
-/

namespace PagingKernel

open PageTable

/-- The word with which a directory maps page number `number` as the kernel's own does. -/
def kernelWord (number : Nat) : UInt32 :=
  if 0 < number ∧ number < pageCount then
    encodeEntry (.ofPage number) (Layout.kernelMappingFlags (.ofPage number))
  else 0

theorem kernelMappingFlags_present (pa : PhysAddr) :
    (Layout.kernelMappingFlags pa).present = true := by
  unfold Layout.kernelMappingFlags
  split <;> rfl

theorem decodeEntry_kernelWord (number : Nat) :
    decodeEntry (kernelWord number) =
      if 0 < number ∧ number < pageCount then
        some ⟨.ofPage number, Layout.kernelMappingFlags (.ofPage number)⟩
      else none := by
  unfold kernelWord
  split
  · rename_i inside
    exact decodeEntry_encodeEntry_ofPage ⟨number, inside.2⟩ (kernelMappingFlags_present _)
  · rfl

/-- The permissions of user code in a page of its own. -/
def userFlags (writable : Bool) : PageFlags :=
  if writable then .userRW else .userRO

/-- A page that is mapped in the process range. -/
structure Leaf where
  page : Fin pageCount
  writable : Bool
deriving DecidableEq

namespace Leaf

/-- The permissions of user code in the page. -/
def flags (leaf : Leaf) : PageFlags :=
  userFlags leaf.writable

/-- What a directory answers where the page is mapped. -/
def mapping (leaf : Leaf) : Mapping :=
  ⟨.ofPage leaf.page, leaf.flags⟩

/-- The word that maps the page. -/
def word (leaf : Leaf) : UInt32 :=
  encodeEntry (.ofPage leaf.page) leaf.flags

@[simp]
theorem mapping_pa (leaf : Leaf) : leaf.mapping.pa = .ofPage leaf.page :=
  rfl

@[simp]
theorem mapping_flags (leaf : Leaf) : leaf.mapping.flags = leaf.flags :=
  rfl

@[simp]
theorem flags_present (leaf : Leaf) : leaf.flags.present = true := by
  unfold flags userFlags
  split <;> rfl

@[simp]
theorem flags_user (leaf : Leaf) : leaf.flags.user = true := by
  unfold flags userFlags
  split <;> rfl

@[simp]
theorem flags_writable (leaf : Leaf) : leaf.flags.writable = leaf.writable := by
  unfold flags userFlags
  cases leaf.writable <;> rfl

@[simp]
theorem isUserWritable_flags (leaf : Leaf) : leaf.flags.isUserWritable = leaf.writable := by
  simp [PageFlags.isUserWritable]

@[simp]
theorem isUserReadOnly_flags (leaf : Leaf) : leaf.flags.isUserReadOnly = !leaf.writable := by
  simp [PageFlags.isUserReadOnly]

@[simp]
theorem decodeEntry_word (leaf : Leaf) : decodeEntry leaf.word = some leaf.mapping :=
  decodeEntry_encodeEntry_ofPage leaf.page leaf.flags_present

end Leaf

/-- The number of the virtual page at a place of the process range. -/
def placeNumber (place : Fin processPageCount) : Nat :=
  firstProcessPage + place

theorem placeNumber_lt (place : Fin processPageCount) : placeNumber place < entryCount := by
  have bound := place.isLt
  simp only [placeNumber, firstProcessPage, processPageCount, entryCount] at *
  omega

theorem placeNumber_injective {first second : Fin processPageCount}
    (same : placeNumber first = placeNumber second) : first = second :=
  Fin.ext (Nat.add_left_cancel same)

/-- The space of a process: what its directory is made of, and what it maps. -/
structure SpaceView where
  /-- The page of the directory. -/
  root : Fin pageCount
  /-- The page of the page table. -/
  table : Fin pageCount
  /-- What each place of the process range is mapped to. -/
  leaf : Fin processPageCount → Option Leaf

/-- The process range is gone through with an invariant that holds before each of its places. -/
theorem Action.ensures_forPlaces {σ ε : Type} {act : Nat → Action σ ε Unit}
    {refused : ε → σ → Prop} (invariant : Nat → σ → Prop) {start : σ}
    (initial : invariant 0 start)
    (step : ∀ (place : Fin processPageCount) state, invariant place.val state →
      (act (placeNumber place)).Ensures state (fun _ next => invariant (place.val + 1) next)
        refused) :
    (forRange firstProcessPage processPageCount act).Ensures start
      (fun _ stop => invariant processPageCount stop) refused := by
  have start_eq : invariant (firstProcessPage - firstProcessPage) start := by
    rw [Nat.sub_self]
    exact initial
  refine (ensures_forRange (fun number => invariant (number - firstProcessPage)) start_eq ?_).mono
    ?_ fun _ _ held => held
  · intro number state above below held
    obtain ⟨place, rfl⟩ := Nat.exists_eq_add_of_le above
    have inside : place < processPageCount := by omega
    have advanced := step ⟨place, inside⟩ state
      (by simpa only [Nat.add_sub_cancel_left] using held)
    rw [show firstProcessPage + place + 1 - firstProcessPage = place + 1 by omega]
    exact advanced
  · intro _ stop held
    simpa only [Nat.add_sub_cancel_left] using held

namespace SpaceView

/-- The space of an owner with this view. -/
def space (view : SpaceView) (owner : Owner) : AddressSpace :=
  ⟨⟨.ofPage view.root⟩, owner⟩

/-- The words of the page table, of which those below the process range are `low`. -/
def wordOver (view : SpaceView) (low : Nat → UInt32) (number : Nat) : UInt32 :=
  if number < firstProcessPage then low number
  else if inside : number - firstProcessPage < processPageCount then
    (view.leaf ⟨number - firstProcessPage, inside⟩).elim 0 Leaf.word
  else 0

/-- The words of the page table where it agrees with the kernel's below the process range. -/
abbrev word (view : SpaceView) : Nat → UInt32 :=
  view.wordOver kernelWord

/-- RAM holds the directory and the page table of the view over the words `low`. -/
def StandsOver (view : SpaceView) (low : Nat → UInt32) (ram : Ram) : Prop :=
  ram.Spans view.root view.table (view.wordOver low)

/-- RAM holds the directory and the page table of the view. -/
abbrev Stands (view : SpaceView) (ram : Ram) : Prop :=
  view.StandsOver kernelWord ram

/-- The view with a leaf at a place. -/
def setLeaf (view : SpaceView) (place : Fin processPageCount) (leaf : Leaf) : SpaceView :=
  { view with leaf := Function.update view.leaf place (some leaf) }

variable {view : SpaceView} {place : Fin processPageCount} {leaf : Leaf}

@[simp]
theorem setLeaf_root : (view.setLeaf place leaf).root = view.root :=
  rfl

@[simp]
theorem setLeaf_table : (view.setLeaf place leaf).table = view.table :=
  rfl

@[simp]
theorem leaf_setLeaf_self : (view.setLeaf place leaf).leaf place = some leaf :=
  Function.update_self ..

theorem leaf_setLeaf_of_ne {other : Fin processPageCount} (apart : other ≠ place) :
    (view.setLeaf place leaf).leaf other = view.leaf other :=
  Function.update_of_ne apart ..

theorem leaf_setLeaf {other : Fin processPageCount} :
    (view.setLeaf place leaf).leaf other = if other = place then some leaf else view.leaf other :=
  Function.update_apply ..

/-! ## The words of the page table -/

variable {low : Nat → UInt32}

theorem wordOver_placeNumber (view : SpaceView) (low : Nat → UInt32)
    (place : Fin processPageCount) :
    view.wordOver low (placeNumber place) = (view.leaf place).elim 0 Leaf.word := by
  have above : ¬placeNumber place < firstProcessPage := by
    simp [placeNumber]
  have offset : placeNumber place - firstProcessPage = place := by
    simp [placeNumber]
  simp only [wordOver, above, if_false, offset, place.isLt, dite_true]

theorem wordOver_of_lt (view : SpaceView) (low : Nat → UInt32) {number : Nat}
    (below : number < firstProcessPage) : view.wordOver low number = low number := by
  rw [wordOver, if_pos below]

theorem wordOver_of_ge (view : SpaceView) (low : Nat → UInt32) {number : Nat}
    (above : firstProcessPage + processPageCount ≤ number) : view.wordOver low number = 0 := by
  have outside : ¬number - firstProcessPage < processPageCount := by omega
  rw [wordOver, if_neg (by omega), dif_neg outside]

theorem word_of_lt (view : SpaceView) {number : Nat} (below : number < firstProcessPage) :
    view.word number = kernelWord number :=
  view.wordOver_of_lt kernelWord below

theorem word_of_ge (view : SpaceView) {number : Nat}
    (above : firstProcessPage + processPageCount ≤ number) : view.word number = 0 :=
  view.wordOver_of_ge kernelWord above

/-- Every number is below the process range, in it or above it. -/
theorem number_cases (number : Nat) :
    number < firstProcessPage ∨ (∃ place, number = placeNumber place) ∨
      firstProcessPage + processPageCount ≤ number := by
  by_cases below : number < firstProcessPage
  · exact .inl below
  · by_cases inside : number - firstProcessPage < processPageCount
    · refine .inr (.inl ⟨⟨number - firstProcessPage, inside⟩, ?_⟩)
      simp only [placeNumber]
      omega
    · exact .inr (.inr (by omega))

theorem wordOver_setLeaf :
    (view.setLeaf place leaf).wordOver low =
      Function.update (view.wordOver low) (placeNumber place) leaf.word := by
  funext number
  rcases number_cases number with below | ⟨other, rfl⟩ | above
  · have apart : number ≠ placeNumber place := by
      simp only [placeNumber]
      omega
    rw [Function.update_of_ne apart, wordOver_of_lt _ _ below, wordOver_of_lt _ _ below]
  · rw [wordOver_placeNumber]
    by_cases same : other = place
    · rw [same, leaf_setLeaf_self, Function.update_self]
      rfl
    · rw [leaf_setLeaf_of_ne same, Function.update_of_ne fun equal =>
        same (placeNumber_injective equal), wordOver_placeNumber]
  · have apart : number ≠ placeNumber place := by
      simp only [placeNumber]
      omega
    rw [Function.update_of_ne apart, wordOver_of_ge _ _ above, wordOver_of_ge _ _ above]

theorem decodeEntry_wordOver_placeNumber (view : SpaceView) (low : Nat → UInt32)
    (place : Fin processPageCount) :
    decodeEntry (view.wordOver low (placeNumber place)) = (view.leaf place).map Leaf.mapping := by
  rw [wordOver_placeNumber]
  cases view.leaf place with
  | none => rfl
  | some leaf => exact leaf.decodeEntry_word

theorem decodeEntry_word_placeNumber (view : SpaceView) (place : Fin processPageCount) :
    decodeEntry (view.word (placeNumber place)) = (view.leaf place).map Leaf.mapping :=
  view.decodeEntry_wordOver_placeNumber kernelWord place

/-! ## Directories that stand in memory -/

variable {ram other : Ram}

theorem StandsOver.congr (stands : view.StandsOver low ram)
    (sameRoot : Ram.SamePage ram other view.root) (sameTable : Ram.SamePage ram other view.table) :
    view.StandsOver low other :=
  Ram.Spans.congr stands sameRoot sameTable

theorem StandsOver.setLeaf (stands : view.StandsOver low ram) (apart : view.root ≠ view.table)
    (place : Fin processPageCount) (leaf : Leaf) :
    (view.setLeaf place leaf).StandsOver low
      (ram.setEntry view.table (placeNumber place) leaf.word) := by
  unfold StandsOver
  rw [wordOver_setLeaf]
  exact Ram.Spans.setEntry stands apart (placeNumber_lt place) leaf.word

/-- The directory answers at every place of the process range what the view says. -/
theorem StandsOver.lookup_placeNumber (stands : view.StandsOver low ram)
    (place : Fin processPageCount) :
    (⟨.ofPage view.root⟩ : Directory).lookup ram (.ofPage (placeNumber place)) =
      .ok ((view.leaf place).map Leaf.mapping) := by
  rw [Ram.Spans.lookup_ofPage stands (placeNumber_lt place), decodeEntry_wordOver_placeNumber]

end SpaceView

end PagingKernel
