import PagingKernel.Proofs.AddressSpace.References
import PagingKernel.Proofs.Memory.Claims

/-!
# Taking a space apart

Releasing a space walks the process range, then the page tables, then drops the
root.  Since the ledger was charged with exactly what the walk finds, nothing is
left behind: the ledger is the one from before the space was built.
-/

namespace PagingKernel

open PageTable PagingKernel.Action

variable {low : Nat → UInt32} {base : Ledger} {ram : Ram} {view : SpaceView} {owner : Owner}

/-- Dropping a page undoes one reference that an address space was charged with. -/
theorem AddressSpace.dropPage_eq_ok (tidy : base.Tidy) (rest : Fin pageCount → Nat)
    (page : Fin pageCount) :
    dropPage (.ofPage page) ⟨base.charge owner (rest + Pi.single page 1), ram⟩ =
      .ok () ⟨base.charge owner rest, ram⟩ := by
  apply eq_ok_of_ensures
  rw [dropPage, ensures_bind, ensures_mapCause, ensures_of_eq_ok (Memory.release_eq_ok tidy rest)]
  exact ensures_pure.mpr ⟨rfl, rfl⟩

namespace SpaceView

/-- The view without the leaves at the first places. -/
def dropBelow (view : SpaceView) (bound : Nat) : SpaceView :=
  { view with leaf := fun place => if place < bound then none else view.leaf place }

theorem dropBelow_zero (view : SpaceView) : view.dropBelow 0 = view := by
  simp [dropBelow]

theorem dropBelow_succ_of_vacant {place : Fin processPageCount} (vacant : view.leaf place = none) :
    view.dropBelow (place + 1) = view.dropBelow place := by
  have same (other : Fin processPageCount) :
      (view.dropBelow (place + 1)).leaf other = (view.dropBelow place).leaf other := by
    simp only [dropBelow]
    by_cases here : other = place
    · simp [here, vacant]
    · have apart : other.val ≠ place.val := fun equal => here (Fin.ext equal)
      by_cases below : other.val < place.val
      · rw [if_pos below, if_pos (by omega)]
      · rw [if_neg below, if_neg (by omega)]
  exact congrArg (SpaceView.mk view.root view.table) (funext same)

theorem dropBelow_eq_setLeaf {place : Fin processPageCount} {leaf : Leaf}
    (mapped : view.leaf place = some leaf) :
    view.dropBelow place = (view.dropBelow (place + 1)).setLeaf place leaf := by
  have same (other : Fin processPageCount) : (view.dropBelow place).leaf other =
      ((view.dropBelow (place + 1)).setLeaf place leaf).leaf other := by
    rw [leaf_setLeaf]
    simp only [dropBelow]
    by_cases here : other = place
    · simp [here, mapped]
    · have apart : other.val ≠ place.val := fun equal => here (Fin.ext equal)
      rw [if_neg here]
      by_cases below : other.val < place.val
      · rw [if_pos below, if_pos (by omega)]
      · rw [if_neg below, if_neg (by omega)]
  exact congrArg (SpaceView.mk view.root view.table) (funext same)

/-- A space without leaves refers to its root and its page table alone. -/
theorem refs_eq_of_vacant (vacant : ∀ place, view.leaf place = none) :
    view.refs = Pi.single view.root 1 + Pi.single view.table 1 := by
  funext page
  have nowhere : view.placesOf page = ∅ := by
    ext place
    simp [mem_placesOf, vacant place]
  rw [refs_apply, nowhere, Finset.card_empty, Nat.add_zero, Pi.add_apply, Pi.single_apply,
    Pi.single_apply]

/-- Dropping the mapping at a place takes the reference of its leaf back. -/
theorem StandsOver.dropMapping_eq_ok (stands : view.StandsOver low ram) (tidy : base.Tidy)
    (place : Fin processPageCount) :
    (view.space owner).dropMapping (placeNumber place)
        ⟨base.charge owner (view.dropBelow place).refs, ram⟩ =
      .ok () ⟨base.charge owner (view.dropBelow (place + 1)).refs, ram⟩ := by
  have seen : (view.space owner).lookup ⟨base.charge owner (view.dropBelow place).refs, ram⟩
      (.ofPage (placeNumber place)) = .ok ((view.leaf place).map Leaf.mapping) :=
    stands.lookup_placeNumber place
  apply eq_ok_of_ensures
  rw [AddressSpace.dropMapping, ensures_bind, ensures_peek]
  refine ⟨_, seen, ?_⟩
  cases mapped : view.leaf place with
  | none =>
      rw [dropBelow_succ_of_vacant mapped]
      exact ensures_pure.mpr ⟨rfl, rfl⟩
  | some leaf =>
      have dropped : (view.dropBelow (place + 1)).leaf place = none := by
        simp [dropBelow]
      rw [dropBelow_eq_setLeaf mapped, refs_setLeaf dropped]
      exact (ensures_of_eq_ok (AddressSpace.dropPage_eq_ok tidy _ leaf.page)).mpr ⟨rfl, rfl⟩

/-- Releasing a space restores the ledger that was charged with it. -/
theorem StandsOver.release_eq_ok (stands : view.StandsOver low ram) (tidy : base.Tidy) :
    (view.space owner).release ⟨base.charge owner view.refs, ram⟩ = .ok () ⟨base, ram⟩ := by
  have bare : (view.dropBelow processPageCount).refs =
      Pi.single view.root 1 + Pi.single view.table 1 :=
    refs_eq_of_vacant fun place => if_pos place.isLt
  have rootAlone : (Pi.single view.root 1 : Fin pageCount → Nat) = 0 + Pi.single view.root 1 :=
    (zero_add _).symm
  apply eq_ok_of_ensures
  rw [AddressSpace.release, ensures_bind]
  refine (ensures_forPlaces
    (fun bound memory => memory = ⟨base.charge owner (view.dropBelow bound).refs, ram⟩)
    (by rw [dropBelow_zero]) ?_).mono ?_ fun _ _ impossible => impossible
  · rintro place _ rfl
    exact (ensures_of_eq_ok (stands.dropMapping_eq_ok tidy place)).mpr rfl
  · rintro _ _ rfl
    rw [bare, ensures_bind, ensures_peek]
    refine ⟨_, Ram.Spans.tables_eq stands, ?_⟩
    rw [ensures_bind, forEach_cons, forEach_nil, ensures_bind]
    apply (ensures_of_eq_ok (AddressSpace.dropPage_eq_ok tidy _ view.table)).mpr
    rw [ensures_pure, rootAlone]
    refine (ensures_of_eq_ok (AddressSpace.dropPage_eq_ok tidy _ view.root)).mpr ⟨rfl, ?_⟩
    rw [Ledger.charge_zero]

end SpaceView

end PagingKernel
