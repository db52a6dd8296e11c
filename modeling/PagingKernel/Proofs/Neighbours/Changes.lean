import PagingKernel.Proofs.AddressSpace.MapPage
import PagingKernel.Proofs.AddressSpace.Translation
import PagingKernel.Proofs.Neighbours.Plot

/-!
# Single changes by a space in use

A fresh page may be asked for at any address of the process range, aligned or
not, mapped already or not, and with any flags.  Whatever comes of it, the space
does no more to memory than it may.
-/

namespace PagingKernel

open PageTable PagingKernel.Action

namespace Plot

variable {plot : Plot} {memory : Memory} {ledger : Ledger} {ram next : Ram}
  {place : Fin processPageCount} {page : Fin pageCount}

/-! ## Changes -/

/-- What is done at one place, if the pages that are taken keep what they hold. -/
theorem Rooted.alters_at (rooted : plot.Rooted ⟨ledger, ram⟩) (place : Fin processPageCount)
    {later : Ledger} (tidy : ledger.Tidy → later.Tidy)
    (entry_eq : ∀ page, ledger.Taken page → later.entry page = ledger.entry page)
    (kept : ∀ page, ledger.Taken page → page ≠ plot.table → Ram.SamePage ram next page)
    (others : ∀ other, other ≠ place → plot.leaf? next other = plot.leaf? ram other)
    (mapped : ∀ mapping, plot.leaf? ram place = some mapping → ∃ flags,
      plot.leaf? next place = some ⟨mapping.pa, flags⟩ ∧
        (mapping.flags.writable = true → flags.writable = true))
    (vacant : plot.leaf? ram place = none → ∀ mapping, plot.leaf? next place = some mapping →
      ∃ page : Fin pageCount, mapping.pa = .ofPage page ∧ ¬ledger.Taken page ∧
        later.entry page = ⟨plot.owner, 1⟩) :
    plot.Alters keep ⟨ledger, ram⟩ ⟨later, next⟩ := by
  have onlyHere {other : Fin processPageCount} {mapping : Mapping}
      (was : plot.leaf? ram other = none) (found : plot.leaf? next other = some mapping) :
      other = place := by
    by_contra apart
    cases was.symm.trans ((others other apart).symm.trans found)
  refine ⟨tidy, entry_eq, fun page taken notTable _ => kept page taken notTable, ?bytes, ?leaves,
    ?newLeaf, ?newApart⟩
  case bytes =>
    intro other page maps offset inside
    exact (kept page (rooted.taken_of_maps maps) (rooted.ne_table_of_maps maps) offset inside).symm
  case leaves =>
    intro other mapping found
    by_cases here : other = place
    · obtain rfl := here
      exact mapped mapping found
    · exact ⟨mapping.flags, (others other here).trans found, id⟩
  case newLeaf =>
    intro other mapping was found
    obtain rfl := onlyHere was found
    exact vacant was mapping found
  case newApart =>
    rintro first second page wasFirst wasSecond ⟨_, foundFirst⟩ ⟨_, foundSecond⟩
    exact (onlyHere wasFirst foundFirst).trans (onlyHere wasSecond foundSecond).symm

/-- What is done to pages other than the page table changes nothing at any place. -/
theorem alters_of_table {write : Nat → UInt8 → UInt8}
    (sameTable : Ram.SamePage ram next plot.table)
    (kept : ∀ page, ledger.Taken page → page ≠ plot.table →
      (∀ place, ¬plot.Maps ram place page) → Ram.SamePage ram next page)
    (bytes : ∀ place page, plot.Maps ram place page → ∀ offset < pageSize,
      next.pageByte page offset =
        write (placeNumber place * pageSize + offset) (ram.pageByte page offset)) :
    plot.Alters write ⟨ledger, ram⟩ ⟨ledger, next⟩ := by
  have sameLeaf (place : Fin processPageCount) : plot.leaf? next place = plot.leaf? ram place :=
    leaf?_congr sameTable place
  refine ⟨id, fun _ _ => rfl, kept, bytes, fun place mapping found => ?_,
    fun place mapping vacant found => ?_, ?_⟩
  · exact ⟨mapping.flags, (sameLeaf place).trans found, id⟩
  · cases vacant.symm.trans ((sameLeaf place).symm.trans found)
  · rintro place other page vacant - ⟨flags, found⟩ -
    cases vacant.symm.trans ((sameLeaf place).symm.trans found)

theorem Rooted.alters_of_kept (rooted : plot.Rooted ⟨ledger, ram⟩)
    (kept : ∀ page, ledger.Taken page → Ram.SamePage ram next page) :
    plot.Alters keep ⟨ledger, ram⟩ ⟨ledger, next⟩ :=
  alters_of_table (kept _ rooted.tableTaken) (fun page taken _ _ => kept page taken)
    fun _ page maps offset inside => (kept page (rooted.taken_of_maps maps) offset inside).symm

theorem Rooted.alters_refl (rooted : plot.Rooted memory) : plot.Alters keep memory memory :=
  rooted.alters_of_kept fun page _ => Ram.SamePage.refl memory.ram page

/-- A new page is cleared and mapped at a vacant place. -/
theorem Rooted.alters_mapNew (rooted : plot.Rooted ⟨ledger, ram⟩) (untaken : ¬ledger.Taken page)
    (vacant : plot.leaf? ram place = none) (flags : PageFlags) :
    plot.Alters keep ⟨ledger, ram⟩ ⟨ledger.charge plot.owner (Pi.single page 1),
      (ram.clear page).setEntry plot.table (placeNumber place)
        (encodeEntry (.ofPage page) flags)⟩ := by
  have notNew {other : Fin pageCount} (taken : ledger.Taken other) : other ≠ page :=
    fun isNew => untaken (isNew ▸ taken)
  have cleared : Ram.SamePage ram (ram.clear page) plot.table :=
    Ram.samePage_clear_of_ne (notNew rooted.tableTaken)
  refine rooted.alters_at place (fun tidy => tidy.charge rooted.owned _) (fun other taken => ?_)
    (fun other taken notTable => ?_) (fun other apart => ?_) (fun mapping found => ?_)
    fun _ mapping found => ?_
  · rw [Ledger.entry_charge, Pi.single_eq_of_ne (notNew taken), PageInfo.charge_zero]
  · exact (Ram.samePage_clear_of_ne (notNew taken)).trans
      (Ram.samePage_setEntry_of_ne (placeNumber_lt place) notTable _)
  · rw [leaf?_setEntry, if_neg apart, leaf?_congr cleared]
  · cases vacant.symm.trans found
  · rw [leaf?_setEntry, if_pos rfl] at found
    refine ⟨page, ?_, untaken, Ledger.entry_charge_of_untaken untaken _ (Pi.single_eq_same page 1)⟩
    cases present : flags.present with
    | true =>
        rw [decodeEntry_encodeEntry_ofPage page present] at found
        rw [← Option.some.inj found]
    | false =>
        rw [decodeEntry_encodeEntry, present] at found
        cases found

/-- A page that is mapped already is mapped again at its place, for writing. -/
theorem Rooted.alters_open (rooted : plot.Rooted ⟨ledger, ram⟩) (maps : plot.Maps ram place page) :
    plot.Alters keep ⟨ledger, ram⟩ ⟨ledger, ram.setEntry plot.table (placeNumber place)
      (encodeEntry (.ofPage page) .userRW)⟩ := by
  obtain ⟨flags, was⟩ := maps
  refine rooted.alters_at place id (fun _ _ => rfl) (fun other _ notTable => ?_)
    (fun other apart => ?_) (fun mapping found => ?_) fun vacant _ _ => ?_
  · exact Ram.samePage_setEntry_of_ne (placeNumber_lt place) notTable _
  · rw [leaf?_setEntry, if_neg apart]
  · obtain rfl := Option.some.inj (was.symm.trans found)
    refine ⟨.userRW, ?_, fun _ => rfl⟩
    rw [leaf?_setEntry, if_pos rfl, decodeEntry_encodeEntry_ofPage page rfl]
  · cases vacant.symm.trans was

/-! ## Asking for a fresh page -/

/-- A page that another page is mapped in place of is not vacant for it. -/
theorem Rooted.ensures_requireVacant (rooted : plot.Rooted ⟨ledger, ram⟩) {mapping : Mapping}
    (found : plot.leaf? ram place = some mapping) (untaken : ¬ledger.Taken page) {later : Ledger} :
    (plot.space.requireVacant (.ofPage (placeNumber place)) (.ofPage page) 0).Ensures
      ⟨later, ram.clear page⟩ (fun _ _ => False)
      fun _ memory => memory = ⟨later, ram.clear page⟩ := by
  obtain ⟨backing, atBacking, taken, -⟩ := rooted.backed place mapping found
  have notNew {other : Fin pageCount} (taken : ledger.Taken other) : other ≠ page :=
    fun isNew => untaken (isNew ▸ taken)
  have refers : (ram.clear page).RefersTo plot.root 0 plot.table := by
    rw [Ram.RefersTo,
      ← (Ram.samePage_clear_of_ne (notNew rooted.rootTaken)).entry_eq (by decide)]
    exact rooted.refers
  have seen := lookup_eq refers (VirtAddr.page_ofPage (placeNumber place))
  rw [leaf?_congr (Ram.samePage_clear_of_ne (notNew rooted.tableTaken)), found] at seen
  rw [AddressSpace.requireVacant, VirtAddr.advance_zero, ensures_bind, ensures_peek]
  refine ⟨_, AddressSpace.lookup_eq seen, ?_⟩
  have apart : (PhysAddr.ofPage page).add? (0 * pageSize) ≠ some mapping.pa := by
    rw [Ne, PhysAddr.add?_eq_some_iff, atBacking]
    rintro ⟨sameRaw, -⟩
    refine notNew taken (PhysAddr.ofPage_inj.mp ?_)
    rw [Nat.zero_mul, Nat.add_zero] at sameRaw
    exact (congrArg PhysAddr.mk sameRaw).symm
  dsimp only
  rw [if_pos apart]
  exact ensures_refuse.mpr rfl

/-- Whatever address of the process range a fresh page is asked for at, and whatever the flags. -/
theorem Rooted.alters_mapFresh (rooted : plot.Rooted memory) (tidy : memory.ledger.Tidy)
    {va : VirtAddr} (start : processStart ≤ va.raw) (stop : va.raw < virtualSize)
    (flags : PageFlags) :
    plot.Alters keep memory ((plot.space.mapFresh va flags).after memory) := by
  obtain ⟨ledger, ram⟩ := memory
  have givenBack (refuses : ∀ page, ¬ledger.Taken page →
      (plot.space.map va (.ofPage page) pageSize flags).Ensures
        ⟨ledger.charge plot.owner (Pi.single page 1), ram.clear page⟩ (fun _ _ => False)
        fun _ later =>
          later = ⟨ledger.charge plot.owner (Pi.single page 1), ram.clear page⟩) :
      (plot.space.mapFresh va flags).Ensures ⟨ledger, ram⟩
        (fun _ => plot.Alters keep ⟨ledger, ram⟩) fun _ => plot.Alters keep ⟨ledger, ram⟩ := by
    simp only [AddressSpace.mapFresh, ensures_bind, ensures_mapCause, ensures_onRefusal]
    apply (Memory.ensures_allocZeroed tidy rooted.owned).mono
    · rintro _ _ ⟨page, rfl, nextFree, rfl⟩
      refine (refuses page nextFree.untaken).mono (fun _ _ impossible => impossible.elim) ?_
      rintro _ _ rfl
      rw [← zero_add (Pi.single page 1 : Fin pageCount → Nat)]
      refine (ensures_of_eq_ok (AddressSpace.dropPage_eq_ok tidy 0 page)).mpr ?_
      rw [Ledger.charge_zero]
      exact rooted.alters_of_kept fun other taken =>
        Ram.samePage_clear_of_ne fun isNew => nextFree.untaken (isNew ▸ taken)
    · rintro _ _ ⟨-, rfl⟩
      exact rooted.alters_refl
  refine Ensures.after ?_
  cases aligned : va.isAligned with
  | false =>
      refine givenBack fun page _ => ?_
      simp only [AddressSpace.map, aligned, Bool.false_and, Bool.not_false, if_true, ensures_bind,
        ensures_refuse]
  | true =>
      obtain ⟨place, rfl⟩ := VirtAddr.exists_place aligned start stop
      have below := placeNumber_lt place
      cases found : plot.leaf? ram place with
      | none =>
          refine (AddressSpace.ensures_mapFresh_lowPage tidy rooted.owned below rooted.refers
            rooted.rootTaken rooted.tableTaken found flags).mono ?_ ?_
          · rintro _ _ ⟨page, rfl, nextFree, rfl⟩
            exact rooted.alters_mapNew nextFree.untaken found flags
          · rintro _ _ ⟨reason, rfl, -, rfl⟩
            exact rooted.alters_refl
      | some mapping =>
          refine givenBack fun page untaken => ?_
          have inside : placeNumber place < virtualPageCount := Nat.lt_trans below (by decide)
          simp only [AddressSpace.map, VirtAddr.isAligned_ofPage,
            isPageMultiple_iff.mpr (Nat.mod_self pageSize), Bool.and_self, Bool.not_true,
            Bool.false_eq_true, if_false, AddressSpace.add?_page inside,
            Nat.div_self (show 0 < pageSize by decide), forRange_one, ensures_bind,
            ensures_require_some]
          exact (rooted.ensures_requireVacant found untaken).mono
            (fun _ _ impossible => impossible.elim) fun _ _ held => held

end Plot

end PagingKernel
