import PagingKernel.Proofs.AddressSpace.UserString
import PagingKernel.Proofs.Mapping.Exact
import PagingKernel.Proofs.Mapping.Unwinding

/-!
# Spaces that keep to physical memory

Mapping a range asks whether it fits below the end of the addresses, and not whether
there is memory.  So a range that leaves physical memory is mapped like any other, and
what follows the mapping later leaves memory, too.

A space that has not strayed in its history keeps to physical memory whatever else
was mapped in it and in the spaces beside it: looking an address up, following a
pointer, copying the space and taking it apart stay inside.
-/

namespace PagingKernel

open PageTable PagingKernel.Action

/-- A space maps nothing but physical memory, and whatever relies on it can. -/
structure KeepsInside (spaces : List AddressSpace) (space : AddressSpace) (memory : Memory) :
    Prop where
  lookups : ∀ va, ∃ found, space.lookup memory va = .ok found ∧
    ∀ mapping ∈ found, ∃ page : Fin pageCount, mapping.pa = .ofPage page
  strings : ∀ va limit fault, space.readString memory.ram va limit ≠ .error (.faulted fault)
  copies : ∀ kernel ∈ spaces, ∀ pid fault after,
    space.duplicate kernel pid memory ≠ .error (.faulted fault) after
  releases : ∀ failure after, space.release memory = .error failure after →
    ∃ cause, failure = .refused cause ∧ cause ≠ .alloc .outOfRange
  /-- The bound that mapping does respect. -/
  maps : ∀ va pa len flags after, space.map va pa len flags memory = .ok () after → 0 < len →
    va.raw + len ≤ addressLimit ∧ pa.raw + len ≤ addressLimit

namespace PageTree

variable {tree : PageTree} {ram : Ram} {mapping : Mapping}

/-- Addresses beyond the end of the addresses are translated as if they had wrapped around. -/
theorem translate_wrapped (tree : PageTree) (ram : Ram) (va : VirtAddr) :
    tree.translate ram va = tree.translate ram ⟨va.raw % addressLimit⟩ := by
  have sameSlot : dirIndex va = dirIndex ⟨va.raw % addressLimit⟩ := by
    simp only [dirIndex, regionSize, entryCount, addressLimit]
    omega
  have sameIndex : tableIndex va = tableIndex ⟨va.raw % addressLimit⟩ := by
    simp only [tableIndex, pageSize, entryCount, addressLimit]
    omega
  unfold translate entry?
  rw [sameSlot, sameIndex]

theorem Confined.exists_page (confined : tree.Confined ram) {va : VirtAddr}
    (found : tree.translate ram va = some mapping) :
    ∃ page : Fin pageCount, mapping.pa = .ofPage page := by
  rw [translate_wrapped] at found
  exact confined _ mapping (Nat.mod_lt _ (by decide)) found

/-- Where the first page of the process range is none of memory, taking the space apart stops. -/
theorem release_of_outside {cause : AllocError} (bears : ram.Bears tree) (owner : Owner)
    (ledger : Ledger) (found : tree.translate ram (.ofPage firstProcessPage) = some mapping)
    (outside : Ledger.pageNumber mapping.pa = .error cause) :
    ∃ after, (tree.space owner).release ⟨ledger, ram⟩ =
      .error (.refused (.alloc cause)) after := by
  have dropped : ledger.release mapping.pa = .error cause := by
    rw [Ledger.release, outside]
    rfl
  have stops : (tree.space owner).release.Ensures ⟨ledger, ram⟩ (fun _ _ => False)
      fun reason _ => reason = .alloc cause := by
    rw [AddressSpace.release, ensures_bind,
      show processPageCount = (processPageCount - 1) + 1 from rfl, forRange_succ, ensures_bind,
      ensures_dropMapping bears owner, found]
    dsimp only
    rw [AddressSpace.dropPage, ensures_bind, ensures_mapCause, Memory.release,
      Memory.ensures_onLedger_error dropped]
  rcases stops.cases with ⟨_, _, -, impossible⟩ | ⟨_, after, ran, rfl⟩
  · exact impossible.elim
  · exact ⟨after, ran⟩

end PageTree

namespace Forest

open PageTree

variable {tree : AddressSpace → PageTree} {spaces : List AddressSpace} {memory : Memory}
  {space : AddressSpace} {va : VirtAddr} {pa : PhysAddr} {len : Nat}

theorem exists_map (forest : Forest tree spaces memory) (member : space ∈ spaces)
    (bounds : Directory.InBounds va pa len) (covers : (tree space).Covers va len)
    (vacant : ∀ i < len / pageSize, ¬(tree space).Conflicts memory.ram va pa i)
    (flags : PageFlags) : ∃ after, space.map va pa len flags memory = .ok () after := by
  rcases (forest.ensures_map member va pa len flags).cases with
    ⟨_, after, ran, -⟩ | ⟨cause, after, -, refusal⟩
  · exact ⟨after, ran⟩
  · cases refusal with
    | unaligned broken => exact absurd ⟨bounds.va_aligned, bounds.len_multiple⟩ broken
    | beyond overflow =>
        have limit : addressLimit < wordLimit := by decide
        have fits := bounds.va_end
        omega
    | occupied inside conflict _ => exact absurd conflict (vacant _ inside)
    | late _ unfit _ => exact absurd covers (unfit bounds).2

theorem lookup_fresh (forest : Forest tree spaces memory) (member : space ∈ spaces)
    {grown : PageTree} {page : Fin pageCount} {flags : PageFlags} {after : Memory}
    (mapped : (tree space).MappedFresh grown space.owner va page flags memory after)
    (present : flags.present = true) :
    space.lookup after va = .ok (some ⟨.ofPage page, flags⟩) := by
  have found := (forest.grow member mapped.toGrows).lookup_eq member va
  have aligned := VirtAddr.isAligned_iff.mp mapped.bounds.va_aligned
  have low := mapped.bounds.va_end
  have positive : 0 < pageSize := by decide
  have base : pageFloor va.raw - va.raw = 0 := by
    simp only [pageFloor, pageSize] at *
    omega
  rw [Function.update_self, mapped.translate_eq va (by omega), remapped, if_pos (by omega),
    if_pos present, base, Nat.add_zero] at found
  exact found

/-- A page of memory that is mapped stands in the way of one that is not of memory. -/
theorem map_beyond_eq_occupied (forest : Forest tree spaces memory) (member : space ∈ spaces)
    {page : Fin pageCount} {kept : PageFlags} (beyond : physicalSize ≤ pa.raw)
    (aligned : va.raw % pageSize = 0) (low : va.raw + pageSize ≤ addressLimit)
    (found : space.lookup memory va = .ok (some ⟨.ofPage page, kept⟩)) (flags : PageFlags) :
    space.map va pa pageSize flags memory = .error (.refused (.mapping (.occupied va))) memory := by
  have apart : PhysAddr.ofPage page ≠ pa.advance 0 := by
    intro same
    have covered : page * pageSize + pageSize ≤ physicalSize := Ram.covers_ofPage page
    have raw_eq : page * pageSize = pa.raw + 0 * pageSize := congrArg PhysAddr.raw same
    simp only [pageSize] at *
    omega
  obtain ⟨i, inside, -, refused⟩ := forest.map_eq_occupied member aligned (Nat.mod_self _) low
    ⟨0, by decide, _, found, apart⟩
  obtain rfl : i = 0 := Nat.lt_one_iff.mp inside
  exact refused

end Forest

namespace StrictForest

open PageTree

variable {tree : AddressSpace → PageTree} {spaces : List AddressSpace}
  {strayed : Set AddressSpace} {memory : Memory} {space : AddressSpace}

theorem exists_lookup (strict : StrictForest tree spaces strayed memory) (member : space ∈ spaces)
    (straight : space ∉ strayed) (va : VirtAddr) :
    ∃ found, space.lookup memory va = .ok found ∧
      ∀ mapping ∈ found, ∃ page : Fin pageCount, mapping.pa = .ofPage page :=
  ⟨_, strict.lookup_eq member va, fun _ found =>
    (strict.confined space member straight).exists_page found⟩

theorem keepsInside (strict : StrictForest tree spaces strayed memory) (member : space ∈ spaces)
    (straight : space ∉ strayed) : KeepsInside spaces space memory where
  lookups := strict.exists_lookup member straight
  strings va limit fault := by
    refine AddressSpace.readStringFrom_ne_faulted (fun pos => ?_) va 0 limit fault
    obtain ⟨found, seen, pages⟩ := strict.exists_lookup member straight pos
    exact AddressSpace.exists_userByte? seen pages
  copies kernel isKernel pid fault after :=
    (strict.ensures_duplicate member straight isKernel pid).not_faulted
  releases failure after ran := by
    have outcome := PageTree.ensures_release (strict.stands space member).bears space.owner
      memory.ledger
    rw [strict.space_eq space member] at outcome
    cases failure with
    | refused cause =>
        exact ⟨cause, rfl, outcome.refused ran (strict.confined space member straight)⟩
    | faulted fault => exact absurd ran outcome.not_faulted
  maps va pa len flags after ran _ := by
    obtain ⟨grown, mapped⟩ := (strict.ensures_map member va pa len flags).done ran
    exact ⟨mapped.bounds.va_end, mapped.bounds.pa_end⟩

end StrictForest

/-- As long as no range that leaves physical memory was mapped in it, a space keeps inside. -/
theorem Assembled.straight_spaces_keep_inside {start memory : Memory}
    {spaces : List AddressSpace} {strayed : Set AddressSpace}
    (assembled : Assembled start spaces strayed memory) {space : AddressSpace}
    (member : space ∈ spaces) (straight : space ∉ strayed) : KeepsInside spaces space memory := by
  obtain ⟨tree, strict⟩ := assembled.exists_forest
  exact strict.keepsInside member straight

theorem Assembled.mapRefused {start memory next : Memory} {spaces : List AddressSpace}
    {strayed : Set AddressSpace} (assembled : Assembled start spaces strayed memory)
    {space : AddressSpace} (member : space ∈ spaces) {va : VirtAddr} {pa : PhysAddr} {len : Nat}
    {flags : PageFlags} {failure : Failure AddressSpaceError}
    (ran : space.map va pa len flags memory = .error failure next) :
    Assembled start spaces strayed next := by
  have stays : ¬space.Strays va pa len flags memory := by
    rintro ⟨-, -, -, after, mapped⟩
    rw [ran] at mapped
    cases mapped
  have later := assembled.mapped member va pa len flags
  rw [after_of_eq_error ran] at later
  simpa only [stays, and_false, or_false, Set.ofPred_mem_eq] using later

/-- A fresh page is mapped at the start of the process range, and so the first page after physical
memory is refused there. -/
structure Shields (space : AddressSpace) (page : Fin pageCount) (before after : Memory) :
    Prop where
  mapped : space.mapFresh ⟨processStart⟩ .userRW before = .ok (.ofPage page) after
  lookup_eq : space.lookup after ⟨processStart⟩ = .ok (some ⟨.ofPage page, .userRW⟩)
  refused : space.map ⟨processStart⟩ ⟨physicalSize⟩ pageSize .userRW after =
    .error (.refused (.mapping (.occupied ⟨processStart⟩))) after

theorem Kernel.FirstSpace.exists_shields {start before memory : Memory} {kernel : AddressSpace}
    {view : SpaceView} (first : FirstSpace start before kernel view memory) :
    ∃ page after, Shields (view.space (.process (.ofIndex 1))) page memory after := by
  obtain ⟨tree, strict⟩ := first.assembled.exists_forest
  have forest := strict.toForest
  obtain ⟨page, after, ran⟩ := first.exists_mapFresh (Nat.le_refl _) (by decide) .userRW
  obtain ⟨fresh, grown, same, mapped⟩ :=
    (forest.ensures_mapFresh List.mem_cons_self _ _).done ran
  have later := forest.grow List.mem_cons_self mapped.toGrows
  have found := forest.lookup_fresh List.mem_cons_self mapped rfl
  rw [← same] at found
  exact ⟨page, after, ran, found, later.map_beyond_eq_occupied List.mem_cons_self
    (Nat.le_refl _) (by decide) (by decide) found _⟩

/-- Say, a space in which a page was mapped and a range that leaves memory was refused. -/
theorem Assembled.first_space_keeps_inside :
    ∃ (start memory after : Memory) (kernel space : AddressSpace) (page : Fin pageCount),
      Shields space page memory after ∧ Assembled start [space, kernel] ∅ after ∧
        space ∉ (∅ : Set AddressSpace) ∧ KeepsInside [space, kernel] space after := by
  obtain ⟨start, before, kernel, view, memory, first⟩ := Kernel.exists_firstSpace
  obtain ⟨page, after, shields⟩ := first.exists_shields
  have grown := first.assembled.mappedFresh List.mem_cons_self ⟨processStart⟩ .userRW
  rw [after_of_eq_ok shields.mapped] at grown
  have assembled := grown.mapRefused List.mem_cons_self shields.refused
  exact ⟨start, memory, after, kernel, _, page, shields, assembled, Set.notMem_empty _,
    assembled.straight_spaces_keep_inside List.mem_cons_self (Set.notMem_empty _)⟩

/-! ## A space that strays -/

/-- A range that leaves physical memory, once mapped, leads out of it: since memory ends where a
page does, the last page of the range lies outside. -/
theorem Assembled.exists_outside {start memory : Memory} {spaces : List AddressSpace}
    {strayed : Set AddressSpace} (assembled : Assembled start spaces strayed memory)
    {space : AddressSpace} (member : space ∈ spaces) {va : VirtAddr} {pa : PhysAddr} {len : Nat}
    {flags : PageFlags} (strays : space.Strays va pa len flags memory) :
    ∃ after place mapping, space.map va pa len flags memory = .ok () after ∧
      space.lookup after place = .ok (some mapping) ∧ physicalSize ≤ mapping.pa.raw := by
  obtain ⟨present, positive, beyond, after, ran⟩ := strays
  obtain ⟨tree, strict⟩ := assembled.exists_forest
  obtain ⟨grown, mapped⟩ := (strict.ensures_map member va pa len flags).done ran
  have multiple := isPageMultiple_iff.mp mapped.bounds.len_multiple
  have aligned := PhysAddr.isAligned_iff.mp mapped.bounds.pa_aligned
  have last : len / pageSize - 1 < len / pageSize ∧
      physicalSize ≤ pa.raw + (len / pageSize - 1) * pageSize := by
    simp only [pageSize, physicalSize] at *
    omega
  have seen := (strict.toForest.hasMapped member mapped).inside _ last.1 0 (by decide)
  rw [if_pos present] at seen
  exact ⟨after, _, _, ran, seen, last.2⟩

/-- The first page after physical memory is mapped at the start of the process range. -/
structure Stray (space : AddressSpace) (before after : Memory) : Prop where
  mapped : space.map ⟨processStart⟩ ⟨physicalSize⟩ pageSize .userRW before = .ok () after
  lookup_eq : space.lookup after ⟨processStart⟩ = .ok (some ⟨⟨physicalSize⟩, .userRW⟩)
  string_eq : space.readString after.ram ⟨processStart⟩ 1 =
    .error (.faulted (.outsideRam ⟨physicalSize⟩ 1))
  release_eq : ∃ final, space.release after = .error (.refused (.alloc .outOfRange)) final

/-- In a space that was just made nothing stands in the way of a page beyond memory. -/
theorem Kernel.FirstSpace.exists_map {start before memory : Memory} {kernel : AddressSpace}
    {view : SpaceView} (first : FirstSpace start before kernel view memory)
    {tree : AddressSpace → PageTree} {spaces : List AddressSpace}
    (forest : Forest tree spaces memory) (member : view.space (.process (.ofIndex 1)) ∈ spaces) :
    ∃ after, (view.space (.process (.ofIndex 1))).map ⟨processStart⟩ ⟨physicalSize⟩ pageSize
      .userRW memory = .ok () after := by
  have sameRoot := PhysAddr.ofPage_inj.mp
    (congrArg (fun space : AddressSpace => space.dir.root) (forest.space_eq _ member))
  have covered := (forest.stands _ member).bears 0 (by decide)
  rw [sameRoot, first.stands.refersTo] at covered
  have vacant := first.stands.lookup_placeNumber 0
  rw [first.vacant] at vacant
  refine forest.exists_map member ⟨by decide, by decide, by decide, by decide, by decide⟩ ?_ ?_ _
  · intro i inside
    obtain rfl : i = 0 := Nat.lt_one_iff.mp inside
    obtain ⟨table, found, -⟩ := Option.map_eq_some_iff.mp covered.symm
    exact ⟨table, found⟩
  · intro i inside
    obtain rfl : i = 0 := Nat.lt_one_iff.mp inside
    rintro ⟨existing, found, -⟩
    have seen := forest.lookup_eq member ((⟨processStart⟩ : VirtAddr).advance 0)
    rw [found] at seen
    cases seen.symm.trans vacant

theorem Kernel.FirstSpace.exists_stray {start before memory : Memory} {kernel : AddressSpace}
    {view : SpaceView} (first : FirstSpace start before kernel view memory) :
    ∃ after, Stray (view.space (.process (.ofIndex 1))) memory after := by
  obtain ⟨tree, strict⟩ := first.assembled.exists_forest
  have forest := strict.toForest
  have member : view.space (.process (.ofIndex 1)) ∈
      [view.space (.process (.ofIndex 1)), kernel] := List.mem_cons_self
  obtain ⟨after, ran⟩ := first.exists_map forest member
  obtain ⟨grown, mapped⟩ := (forest.ensures_map member _ _ _ _).done ran
  have seen := (forest.hasMapped member mapped).inside 0 (by decide) 0 (by decide)
  obtain ⟨next, later⟩ : ∃ next, Forest next _ after := ⟨_, forest.grow member mapped.toGrows⟩
  have found := Except.ok.inj ((later.lookup_eq member ⟨processStart⟩).symm.trans seen)
  refine ⟨after, ran, seen, ?_, ?_⟩
  · have read : (view.space (.process (.ofIndex 1))).userByte? after.ram ⟨processStart⟩ =
        .error (.outsideRam ⟨physicalSize⟩ 1) := by
      rw [AddressSpace.userByte?, show (view.space (.process (.ofIndex 1))).dir.lookup after.ram
        ⟨processStart⟩ = _ from seen]
      rfl
    rw [AddressSpace.readString, AddressSpace.readStringFrom]
    change ((AddressSpace.userByte? _ after.ram ⟨processStart⟩).mapError _ >>= _) = _
    rw [read]
    rfl
  · have outside : Ledger.pageNumber ⟨physicalSize⟩ = .error .outOfRange := rfl
    have released := PageTree.release_of_outside (later.stands _ member).bears
      (view.space (.process (.ofIndex 1))).owner after.ledger found outside
    rw [later.space_eq _ member] at released
    exact released

/-- Mapping a range that leaves physical memory is not refused, and what follows leaves memory. -/
theorem Assembled.first_space_strays :
    ∃ (start memory after : Memory) (kernel space : AddressSpace),
      Assembled start [space, kernel] ∅ memory ∧ Stray space memory after := by
  obtain ⟨start, before, kernel, view, memory, first⟩ := Kernel.exists_firstSpace
  obtain ⟨after, stray⟩ := first.exists_stray
  exact ⟨start, memory, after, kernel, _, first.assembled, stray⟩

end PagingKernel
