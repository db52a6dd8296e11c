import PagingKernel.AddressSpace.Fork
import PagingKernel.Proofs.Mapping.Assembly

/-!
# Copies and releases beside other spaces

Copying a space and taking one apart, for spaces that map whatever they like.  Nothing
is known of the books but that the parts of the trees are taken, so any step may be
refused, and a page that is dropped may be anybody's.  Still no step faults as long
as what is copied maps nothing but physical memory: dropping and sharing a page do not
write to memory, a page that is written to had nobody, and so the trees stand until
a refusal, and their directories can be read even after that.
-/

namespace PagingKernel

open PageTable PagingKernel.Action

/-! ## Sharing and dropping a page -/

namespace Ledger

variable {ledger : Ledger}

theorem pageNumber_cases (pa : PhysAddr) : (∃ page : Fin pageCount, pa = .ofPage page) ∨
    ∃ cause, pageNumber pa = .error cause ∧ ∀ page : Fin pageCount, pa ≠ .ofPage page := by
  cases number : pageNumber pa with
  | ok page => exact .inl ⟨page, pageNumber_eq_ok_iff.mp number⟩
  | error cause =>
      refine .inr ⟨cause, rfl, fun page same => ?_⟩
      rw [pageNumber_eq_ok_iff.mpr same] at number
      cases number

theorem taken_of_share {pa : PhysAddr} {count : Nat} {next : Ledger} {page : Fin pageCount}
    (shared : ledger.share pa = .ok (count, next)) (taken : ledger.Taken page) :
    next.Taken page := by
  rcases pageNumber_cases pa with ⟨other, rfl⟩ | ⟨cause, denied, -⟩
  · simp only [share, pageNumber_ofPage, bind, Except.bind] at shared
    split at shared
    · cases shared
    · split at shared
      · cases shared
      · cases shared
        rw [Taken, entry_setEntry]
        split
        · exact Nat.succ_ne_zero _
        · exact taken
  · rw [share, denied] at shared
    cases shared

theorem release_ne_outOfRange (ledger : Ledger) (page : Fin pageCount) :
    ledger.release (.ofPage page) ≠ .error .outOfRange := by
  simp only [release, pageNumber_ofPage, bind, Except.bind]
  split <;> exact fun impossible => by cases impossible

end Ledger

theorem Memory.ensures_share_spares (memory : Memory) (pa : PhysAddr) :
    (Memory.share pa).Ensures memory (fun _ after => memory.Spares after)
      fun _ after => after = memory := by
  obtain ⟨ledger, ram⟩ := memory
  rw [share]
  cases shared : ledger.share pa with
  | ok result =>
      obtain ⟨count, next⟩ := result
      rw [ensures_onLedger_ok shared]
      exact ⟨fun page taken => Ledger.taken_of_share shared taken,
        fun page _ => Ram.SamePage.refl ram page⟩
  | error cause => rw [ensures_onLedger_error shared]

/-- Dropping a page does not write to memory, whosever page it is. -/
theorem AddressSpace.ensures_dropPage_ram (memory : Memory) (pa : PhysAddr) :
    (AddressSpace.dropPage pa).Ensures memory (fun _ after => after.ram = memory.ram)
      fun cause after => after.ram = memory.ram ∧
        ((∃ page : Fin pageCount, pa = .ofPage page) → cause ≠ .alloc .outOfRange) := by
  obtain ⟨ledger, ram⟩ := memory
  rw [dropPage, ensures_bind, ensures_mapCause, Memory.release]
  cases dropped : ledger.release pa with
  | ok result =>
      obtain ⟨count, next⟩ := result
      rw [Memory.ensures_onLedger_ok dropped, ensures_pure]
  | error cause =>
      rw [Memory.ensures_onLedger_error dropped]
      refine ⟨rfl, ?_⟩
      rintro ⟨page, rfl⟩ isRange
      cases isRange
      exact ledger.release_ne_outOfRange page dropped

/-! ## Taking a space apart -/

/-- The directory of a space can be read, whoever has its pages. -/
def AddressSpace.Readable (space : AddressSpace) (ram : Ram) : Prop :=
  ∃ tree : PageTree, tree.space space.owner = space ∧ ram.Bears tree

namespace PageTree

variable {tree : PageTree} {owner : Owner} {memory : Memory} {ledger : Ledger} {ram : Ram}

theorem ensures_dropMapping (bears : ram.Bears tree) (owner : Owner) (number : Nat)
    {done : Unit → Memory → Prop} {refused : AddressSpaceError → Memory → Prop} :
    ((tree.space owner).dropMapping number).Ensures ⟨ledger, ram⟩ done refused ↔
      match tree.translate ram (.ofPage number) with
      | none => done () ⟨ledger, ram⟩
      | some mapping => (AddressSpace.dropPage mapping.pa).Ensures ⟨ledger, ram⟩ done refused := by
  have seen : (tree.space owner).lookup ⟨ledger, ram⟩ (.ofPage number) =
      .ok (tree.translate ram (.ofPage number)) := bears.lookup_eq _
  rw [AddressSpace.dropMapping, ensures_bind, ensures_peek]
  constructor
  · rintro ⟨found, read, held⟩
    obtain rfl := Except.ok.inj (seen.symm.trans read)
    cases found : tree.translate ram (.ofPage number) <;>
      simpa only [found, ensures_pure] using held
  · intro held
    refine ⟨_, seen, ?_⟩
    cases found : tree.translate ram (.ofPage number) <;>
      simpa only [found, ensures_pure] using held

/-- Whatever the books say, taking a space apart does not fault and writes nothing. -/
theorem ensures_release (bears : ram.Bears tree) (owner : Owner) (ledger : Ledger) :
    (tree.space owner).release.Ensures ⟨ledger, ram⟩ (fun _ after => after.ram = ram)
      fun cause _ => tree.Confined ram → cause ≠ .alloc .outOfRange := by
  have drops (memory : Memory) (unwritten : memory.ram = ram) (pa : PhysAddr)
      (isPage : tree.Confined ram → ∃ page : Fin pageCount, pa = .ofPage page) :
      (AddressSpace.dropPage pa).Ensures memory (fun _ after => after.ram = ram)
        fun cause _ => tree.Confined ram → cause ≠ .alloc .outOfRange :=
    (AddressSpace.ensures_dropPage_ram memory pa).mono
      (fun _ _ same => same.trans unwritten)
      fun _ _ refused confined => refused.2 (isPage confined)
  rw [AddressSpace.release, ensures_bind]
  refine (ensures_forRange (fun _ state => state.ram = ram) rfl ?_).mono ?_ fun _ _ held => held
  · rintro number ⟨books, now⟩ - below rfl
    refine (ensures_dropMapping bears owner number).mpr ?_
    cases found : tree.translate now (.ofPage number) with
    | none => rfl
    | some mapping =>
        refine drops ⟨books, now⟩ rfl mapping.pa fun confined => ?_
        refine confined (.ofPage number) mapping ?_ found
        simp only [VirtAddr.raw_ofPage, pageSize, addressLimit, firstProcessPage,
          processPageCount] at *
        omega
  · rintro _ ⟨books, now⟩ rfl
    rw [ensures_bind, ensures_peek]
    refine ⟨_, bears.tables_eq, ?_⟩
    rw [ensures_bind]
    refine (ensures_forEach (fun _ state => state.ram = now) rfl ?_).mono ?_ fun _ _ held => held
    · rintro earlier ⟨slot, pa⟩ later state split unwritten
      refine drops state unwritten pa fun _ => ?_
      have listed : (slot, pa) ∈ tree.listed :=
        split ▸ List.mem_append_right earlier List.mem_cons_self
      obtain ⟨page, -, onPage⟩ := mem_listed_iff.mp listed
      exact ⟨page, onPage⟩
    · rintro _ state unwritten
      exact drops state unwritten _ fun _ => ⟨tree.root, rfl⟩

end PageTree

/-! ## Copying a space -/

namespace StrictForest

open PageTree

variable {tree : AddressSpace → PageTree} {spaces : List AddressSpace}
  {strayed : Set AddressSpace} {memory : Memory} {parent child kernel space : AddressSpace}

/-- A space that may stray maps a page, or else its directory can still be read. -/
theorem ensures_mapPage (strict : StrictForest tree spaces strayed memory)
    (isChild : child ∈ spaces) (mayStray : child ∈ strayed) (va : VirtAddr) (pa : PhysAddr)
    (flags : PageFlags) :
    ((child.map va pa pageSize flags).onRefusal (AddressSpace.dropPage pa)).Ensures memory
      (fun _ after => ∃ grown, StrictForest grown spaces strayed after)
      fun _ after => child.Readable after.ram := by
  rw [ensures_onRefusal]
  refine (strict.ensures_map isChild va pa pageSize flags).mono ?_ ?_
  · rintro _ after ⟨grown, mapped⟩
    exact ⟨_, strict.grow isChild mapped.toGrows subset_rfl fun straight =>
      absurd mayStray straight⟩
  · intro cause after refusal
    obtain ⟨grown, prepares⟩ := refusal.exists_prepares (strict.stands child isChild)
    have same := strict.space_eq_of_extends isChild prepares.larger
    refine (AddressSpace.ensures_dropPage_ram after pa).mono ?_ ?_
    · exact fun _ final unwritten => ⟨grown, same, unwritten ▸ prepares.bears⟩
    · exact fun _ final refused => ⟨grown, same, refused.1 ▸ prepares.bears⟩

theorem readable (strict : StrictForest tree spaces strayed memory) (member : space ∈ spaces) :
    space.Readable memory.ram :=
  ⟨tree space, strict.space_eq space member, (strict.stands space member).bears⟩

theorem ensures_copyWritable (strict : StrictForest tree spaces strayed memory)
    (isChild : child ∈ spaces) (mayStray : child ∈ strayed) (va : VirtAddr)
    (page : Fin pageCount) :
    (child.copyWritable va (.ofPage page)).Ensures memory
      (fun _ after => ∃ grown, StrictForest grown spaces strayed after)
      fun _ after => child.Readable after.ram := by
  rw [AddressSpace.copyWritable, ensures_bind, ensures_mapCause]
  refine (Memory.ensures_claimFree_unowned memory child.owner).mono ?_ ?_
  · rintro _ _ ⟨copy, rfl, unowned, rfl⟩
    rw [ensures_bind, Memory.ensures_onRam, ensures_of_eq_ok Ram.copyPage_ofPage]
    refine StrictForest.ensures_mapPage (strict.spare ?_) isChild mayStray va _ _
    exact Memory.spares_granted unowned child.owner fun _ => Ram.samePage_copied_of_ne
  · rintro _ _ rfl
    exact strict.readable isChild

/-- A page that is shared may be anybody's. -/
theorem ensures_shareReadOnly (strict : StrictForest tree spaces strayed memory)
    (isChild : child ∈ spaces) (mayStray : child ∈ strayed) (va : VirtAddr) (pa : PhysAddr) :
    (child.shareReadOnly va pa).Ensures memory
      (fun _ after => ∃ grown, StrictForest grown spaces strayed after)
      fun _ after => child.Readable after.ram := by
  rw [AddressSpace.shareReadOnly, ensures_bind, ensures_mapCause]
  refine (Memory.ensures_share_spares memory pa).mono ?_ ?_
  · intro _ after spares
    exact (strict.spare spares).ensures_mapPage isChild mayStray va pa _
  · rintro _ _ rfl
    exact strict.readable isChild

/-- What a space that has not strayed maps at a page number is inherited without a fault. -/
theorem ensures_inheritPage (strict : StrictForest tree spaces strayed memory)
    (isParent : parent ∈ spaces) (straight : parent ∉ strayed) (isChild : child ∈ spaces)
    (mayStray : child ∈ strayed) {number : Nat} (low : number < virtualPageCount) :
    (parent.inheritPage child number).Ensures memory
      (fun _ after => ∃ grown, StrictForest grown spaces strayed after)
      fun _ after => child.Readable after.ram := by
  rw [AddressSpace.inheritPage, ensures_bind, ensures_peek]
  refine ⟨_, strict.lookup_eq isParent _, ?_⟩
  cases found : (tree parent).translate memory.ram (.ofPage number) with
  | none => exact ensures_pure.mpr ⟨tree, strict⟩
  | some mapping =>
      have below : (VirtAddr.ofPage number).raw < addressLimit := by
        simp only [VirtAddr.raw_ofPage, pageSize, addressLimit, virtualPageCount] at *
        omega
      obtain ⟨page, onPage⟩ := strict.confined parent isParent straight _ mapping below found
      dsimp only
      split
      · rw [onPage]
        exact strict.ensures_copyWritable isChild mayStray _ page
      · split
        · exact strict.ensures_shareReadOnly isChild mayStray _ mapping.pa
        · exact ensures_pure.mpr ⟨tree, strict⟩

theorem ensures_inheritPages (strict : StrictForest tree spaces strayed memory)
    (isParent : parent ∈ spaces) (straight : parent ∉ strayed) (isChild : child ∈ spaces)
    (mayStray : child ∈ strayed) :
    (parent.inheritPages child).Ensures memory
      (fun _ after => ∃ grown, StrictForest grown spaces strayed after)
      fun _ after => child.Readable after.ram := by
  refine ensures_forRange (fun _ state => ∃ grown, StrictForest grown spaces strayed state)
    ⟨tree, strict⟩ ?_
  rintro number state - below ⟨now, held⟩
  refine held.ensures_inheritPage isParent straight isChild mayStray ?_
  simp only [virtualPageCount, firstProcessPage, processPageCount] at *
  omega

/-- A new space joins the others, whichever of them is its template. -/
theorem ensures_ofTemplate (strict : StrictForest tree spaces strayed memory)
    (isKernel : kernel ∈ spaces) (pid : Pid) :
    (AddressSpace.ofTemplate kernel pid).Ensures memory
      (fun child after => child ∉ spaces ∧
        ∃ grown, StrictForest grown (child :: spaces) (insert child strayed) after)
      fun _ after => memory.Restored after := by
  refine ensures_of_ends ((ends_ofTemplate memory kernel pid).mono ?_ (fun _ _ held => held) ?_)
    fun _ _ impossible => impossible
  · rintro _ after ⟨grown, rfl, templated⟩
    refine ⟨strict.notMem_of_planted templated.toPlanted, _, strict.add templated.toPlanted
      (Set.subset_insert _ _) fun straight => absurd (Set.mem_insert _ _) straight⟩
  · rintro _ _ ⟨ram, same, number, fault, unreadable⟩
    have kept : ∀ page ∈ (tree kernel).parts, Ram.SamePage memory.ram ram page :=
      fun page part => same page ((strict.stands kernel isKernel).taken page part)
    have read := ((strict.stands kernel isKernel).bears.congr kept).entry?_eq (.ofPage number)
    rw [strict.dir_eq isKernel, unreadable] at read
    cases read

/-- A space that has not strayed is copied without a fault, and the copy joins the others.  It
counts as strayed, so that nothing has to be known of its template. -/
theorem ensures_duplicate (strict : StrictForest tree spaces strayed memory)
    (isParent : parent ∈ spaces) (straight : parent ∉ strayed) (isKernel : kernel ∈ spaces)
    (pid : Pid) :
    (parent.duplicate kernel pid).Ensures memory
      (fun child after => child ∉ spaces ∧
        ∃ grown, StrictForest grown (child :: spaces) (insert child strayed) after)
      fun _ _ => True := by
  rw [AddressSpace.duplicate, ensures_bind]
  refine (strict.ensures_ofTemplate isKernel pid).mono ?_ fun _ _ _ => trivial
  rintro child middle ⟨new, grown, planted⟩
  have apart : parent ≠ child := fun same => new (same ▸ isParent)
  have parentStraight : parent ∉ insert child strayed := fun old =>
    straight (old.resolve_left apart)
  rw [ensures_bind, ensures_onRefusal]
  refine (planted.ensures_inheritPages (.tail _ isParent) parentStraight List.mem_cons_self
    (Set.mem_insert _ _)).mono ?_ ?_
  · exact fun _ after held => ensures_pure.mpr ⟨new, held⟩
  · rintro _ ⟨ledger, ram⟩ ⟨last, same, bears⟩
    have released := PageTree.ensures_release bears child.owner ledger
    rw [same] at released
    exact released.mono (fun _ _ _ => trivial) fun _ _ _ => trivial

end StrictForest

end PagingKernel
