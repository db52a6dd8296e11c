import PagingKernel.Proofs.Ledger.Charge

/-!
# The ledger at boot

At boot every page is free or has been set aside with one reference.  This is
read off the layout page by page, without regard to where the layout puts the
kernel.
-/

namespace PagingKernel.Ledger

/-- Every page is free, or set aside for the hardware or the kernel with one reference. -/
def AtBoot (ledger : Ledger) : Prop :=
  ∀ page, ledger.entry page = .unowned ∨ ledger.entry page = ⟨.reserved, 1⟩ ∨
    ledger.entry page = ⟨.kernel, 1⟩

variable {layout : Layout} {ledger : Ledger} {page : Fin pageCount}

theorem bootEntry_cases {pa : PhysAddr} {info : PageInfo}
    (decided : bootEntry layout pa = .ok info) :
    info = .unowned ∨ info = ⟨.reserved, 1⟩ ∨ info = ⟨.kernel, 1⟩ := by
  unfold bootEntry at decided
  split at decided
  · cases decided
    exact .inr (.inl rfl)
  · cases kernel : layout.isKernel pa with
    | error fault =>
        rw [kernel] at decided
        cases decided
    | ok isKernel =>
        rw [kernel] at decided
        cases isKernel with
        | true =>
            cases decided
            exact .inr (.inr rfl)
        | false =>
            cases decided
            exact .inl rfl

private theorem ofFnM_eq_ok {ε α : Type} {n : Nat} {f : Fin n → Except ε α} {values : Vector α n}
    (ran : Vector.ofFnM f = .ok values) (index : Fin n) : f index = .ok (values.get index) := by
  induction n with
  | zero => exact index.elim0
  | succ n ih =>
      rw [Vector.ofFnM_succ] at ran
      cases early : Vector.ofFnM fun i => f i.castSucc with
      | error cause =>
          rw [early] at ran
          cases ran
      | ok earlier =>
          cases late : f (Fin.last n) with
          | error cause =>
              rw [early, late] at ran
              cases ran
          | ok last =>
              rw [early, late] at ran
              cases ran
              refine Fin.lastCases ?_ (fun index => ?_) index
              · rw [late]
                exact congrArg Except.ok Vector.getElem_push_eq.symm
              · rw [ih early index]
                exact congrArg Except.ok (Vector.getElem_push_lt index.isLt).symm

private theorem exists_ofFnM {ε α : Type} {n : Nat} {f : Fin n → Except ε α}
    (ran : ∀ index, ∃ value, f index = .ok value) : ∃ values, Vector.ofFnM f = .ok values := by
  induction n with
  | zero => exact ⟨#v[], Vector.ofFnM_zero⟩
  | succ n ih =>
      obtain ⟨earlier, early⟩ := ih (f := fun i => f i.castSucc) fun index => ran index.castSucc
      obtain ⟨last, late⟩ := ran (Fin.last n)
      rw [Vector.ofFnM_succ, early, late]
      exact ⟨_, rfl⟩

/-- The ledger at boot has the entry that the layout decides for each page. -/
theorem bootEntry_eq_ok (laidOut : ofLayout layout = .ok ledger) (page : Fin pageCount) :
    bootEntry layout (.ofPage page) = .ok (ledger.entry page) := by
  unfold ofLayout at laidOut
  cases decided : Vector.ofFnM fun page : Fin pageCount => bootEntry layout (.ofPage page) with
  | error fault =>
      rw [decided] at laidOut
      cases laidOut
  | ok pages =>
      rw [decided] at laidOut
      cases laidOut
      exact ofFnM_eq_ok decided page

/-- With room for a stack page every page is decided. -/
theorem exists_ofLayout (room : pageSize ≤ layout.stackTop) :
    ∃ ledger, ofLayout layout = .ok ledger := by
  have decided (page : Fin pageCount) : ∃ info, bootEntry layout (.ofPage page) = .ok info := by
    rw [bootEntry, Layout.isKernel_eq_ok room]
    split
    · exact ⟨_, rfl⟩
    · simp only [bind, Except.bind]
      split
      · exact ⟨_, rfl⟩
      · exact ⟨_, rfl⟩
  obtain ⟨pages, all⟩ := exists_ofFnM decided
  exact ⟨⟨pages⟩, by rw [ofLayout, all]; rfl⟩

theorem atBoot_of_ofLayout (laidOut : ofLayout layout = .ok ledger) : ledger.AtBoot :=
  fun page => bootEntry_cases (bootEntry_eq_ok laidOut page)

/-- The pages of the hardware are set aside wherever the layout puts the kernel. -/
theorem entry_of_isReserved (laidOut : ofLayout layout = .ok ledger)
    (reserved : Layout.isReserved (.ofPage page) = true) : ledger.entry page = ⟨.reserved, 1⟩ := by
  have decided := bootEntry_eq_ok laidOut page
  rw [bootEntry, if_pos reserved] at decided
  exact (Except.ok.inj decided).symm

/-- If the kernel lies below the end of the device hole, all pages above it are free. -/
theorem entry_of_above (laidOut : ofLayout layout = .ok ledger) (room : pageSize ≤ layout.stackTop)
    (image : layout.imageEnd ≤ deviceEnd) (stack : layout.stackTop ≤ deviceEnd)
    (above : firstProcessPage ≤ page.val) : ledger.entry page = .unowned := by
  have decided := bootEntry_eq_ok laidOut page
  have high : deviceEnd ≤ (PhysAddr.ofPage page).raw := by
    simp only [PhysAddr.raw_ofPage, firstProcessPage, deviceEnd, pageSize] at *
    omega
  have notReserved : ¬Layout.isReserved (.ofPage page) = true := by
    rw [Layout.isReserved_iff]
    simp only [deviceStart, deviceEnd, pageSize] at *
    omega
  have notImage : layout.inImage (.ofPage page) = false := by
    simp only [Layout.inImage, Bool.and_eq_false_iff, decide_eq_false_iff_not]
    omega
  have notStack : (PhysAddr.ofPage page).raw ≠ layout.stackTop - pageSize := by
    simp only [deviceEnd, pageSize] at *
    omega
  rw [bootEntry, if_neg notReserved, Layout.isKernel_eq_ok room, notImage,
    decide_eq_false notStack] at decided
  exact (Except.ok.inj decided).symm

/-- A kernel below the end of the device hole leaves half of memory free. -/
theorem half_le_freePages (laidOut : ofLayout layout = .ok ledger)
    (room : pageSize ≤ layout.stackTop) (image : layout.imageEnd ≤ deviceEnd)
    (stack : layout.stackTop ≤ deviceEnd) : firstProcessPage ≤ ledger.freePages := by
  have inside (index : Fin firstProcessPage) : firstProcessPage + index.val < pageCount := by
    have bound := index.isLt
    simp only [firstProcessPage, pageCount] at *
    omega
  let above (index : Fin firstProcessPage) : Fin pageCount :=
    ⟨firstProcessPage + index, inside index⟩
  have injective : Function.Injective above := fun first second same =>
    Fin.ext (Nat.add_left_cancel (congrArg Fin.val same))
  have free : Finset.univ.image above ⊆ Finset.univ.filter fun page => ¬ledger.Taken page := by
    intro page listed
    obtain ⟨index, -, rfl⟩ := Finset.mem_image.mp listed
    have entry := entry_of_above laidOut room image stack
      (show firstProcessPage ≤ (above index).val from Nat.le_add_right ..)
    rw [Finset.mem_filter]
    exact ⟨Finset.mem_univ _, by simp [Taken, entry, PageInfo.unowned]⟩
  have counted := Finset.card_le_card free
  rw [Finset.card_image_of_injective _ injective, Finset.card_univ, Fintype.card_fin] at counted
  rw [freePages_eq_card]
  exact counted

theorem AtBoot.tidy (atBoot : ledger.AtBoot) : ledger.Tidy := by
  intro page
  rcases atBoot page with free | reserved | kernel
  · simp [Taken, free, PageInfo.unowned]
  · simp [Taken, reserved]
  · simp [Taken, kernel]

theorem AtBoot.owner_ne_process (atBoot : ledger.AtBoot) (page : Fin pageCount) (pid : Pid) :
    (ledger.entry page).owner ≠ .process pid := by
  rcases atBoot page with free | reserved | kernel
  · simp [free, PageInfo.unowned]
  · simp [reserved]
  · simp [kernel]

end PagingKernel.Ledger
