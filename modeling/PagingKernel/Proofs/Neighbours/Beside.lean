import PagingKernel.Proofs.Neighbours.Chart
import PagingKernel.Proofs.Neighbours.Loading
import PagingKernel.Proofs.Program.Loaded

/-!
# Loading a program beside other spaces

A program is loaded into one of several spaces.  Its data goes to new pages and
to the pages that the space maps already, whoever else maps them.  So the other
spaces keep all that they map, and all bytes but those of pages that they share
with the space, which they see overwritten.

A page of the program belongs to the space unless another space shares it.
-/

namespace PagingKernel

open PageTable PagingKernel.Action

/-! ## What a space sees -/

/-- An address of the process range. -/
def VirtAddr.InProcess (va : VirtAddr) : Prop :=
  processStart ≤ va.raw ∧ va.raw < virtualSize

theorem VirtAddr.InProcess.exists_place {va : VirtAddr} (inside : va.InProcess) :
    ∃ place, va.raw / pageSize = placeNumber place := by
  rcases va.place_cases with below | found | above
  · exact absurd inside.1 (Nat.not_le.mpr below)
  · exact found
  · exact absurd inside.2 (Nat.not_lt.mpr above)

namespace AddressSpace

/-- The byte that a space has at an address, if the address is mapped. -/
def byte? (space : AddressSpace) (memory : Memory) (va : VirtAddr) : Option UInt8 :=
  match space.lookup memory va with
  | .ok (some mapping) => some (memory.ram.byte (mapping.pa.raw + va.raw % pageSize))
  | _ => none

/-- Two spaces map an address to the same page. -/
def Shares (space other : AddressSpace) (memory : Memory) (va : VirtAddr) : Prop :=
  ∃ first second, space.lookup memory va = .ok (some first) ∧
    other.lookup memory va = .ok (some second) ∧ first.pa = second.pa

end AddressSpace

namespace Plot

variable {plot other : Plot} {memory before after : Memory} {place : Fin processPageCount}
  {page : Fin pageCount} {va : VirtAddr}

theorem Rooted.lookup_at (rooted : plot.Rooted memory)
    (number : va.raw / pageSize = placeNumber place) :
    plot.space.lookup memory va = .ok (plot.leaf? memory.ram place) :=
  lookup_eq rooted.refers number

theorem Rooted.byte?_of_maps (rooted : plot.Rooted memory)
    (number : va.raw / pageSize = placeNumber place) (maps : plot.Maps memory.ram place page) :
    plot.space.byte? memory va = some (memory.ram.pageByte page (va.raw % pageSize)) := by
  obtain ⟨flags, found⟩ := maps
  rw [AddressSpace.byte?, rooted.lookup_at number, found]
  simp [Ram.pageByte]

theorem Rooted.byte?_of_none (rooted : plot.Rooted memory)
    (number : va.raw / pageSize = placeNumber place)
    (unmapped : plot.leaf? memory.ram place = none) : plot.space.byte? memory va = none := by
  rw [AddressSpace.byte?, rooted.lookup_at number, unmapped]

theorem Rooted.shares_iff (rooted : plot.Rooted memory) (also : other.Rooted memory)
    (number : va.raw / pageSize = placeNumber place) :
    plot.space.Shares other.space memory va ↔
      ∃ page, plot.Maps memory.ram place page ∧ other.Maps memory.ram place page := by
  rw [AddressSpace.Shares, rooted.lookup_at number, also.lookup_at number]
  constructor
  · rintro ⟨first, second, isFirst, isSecond, same⟩
    obtain ⟨page, atPage, maps⟩ := rooted.exists_maps (Except.ok.inj isFirst)
    obtain ⟨backing, alsoAtPage, alsoMaps⟩ := also.exists_maps (Except.ok.inj isSecond)
    rw [atPage, alsoAtPage, PhysAddr.ofPage_inj] at same
    exact ⟨page, maps, same ▸ alsoMaps⟩
  · rintro ⟨page, ⟨flags, found⟩, others, alsoFound⟩
    exact ⟨_, _, congrArg _ found, congrArg _ alsoFound, rfl⟩

/-- Where a space has its directory tells where it has its page table. -/
theorem Rooted.eq_of_space (rooted : plot.Rooted memory) (also : other.Rooted memory)
    (same : plot.space = other.space) : plot = other := by
  obtain ⟨root, table, owner⟩ := plot
  obtain ⟨otherRoot, otherTable, otherOwner⟩ := other
  obtain rfl : root = otherRoot := PhysAddr.ofPage_inj.mp (congrArg AddressSpace.root same)
  obtain rfl : owner = otherOwner := congrArg AddressSpace.owner same
  obtain rfl : table = otherTable :=
    PhysAddr.ofPage_inj.mp (Option.some.inj (rooted.refers.symm.trans also.refers))
  rfl

end Plot

/-! ## What other spaces see of it -/

namespace Chart.Fits

variable {chart : Chart} {before after : Memory} {plot other : Plot} {va : VirtAddr}
  {write : Nat → UInt8 → UInt8}

section

variable (fits : chart.Fits before) (member : plot ∈ chart.plots)
  (altered : plot.Alters write before after) (isOther : other ∈ chart.plots) (apart : other ≠ plot)
  (inside : va.InProcess)

include fits member altered isOther inside

/-- Where a page is shared, other spaces see what is written to it. -/
theorem byte?_shared (shared : plot.space.Shares other.space before va) :
    other.space.byte? after va = (other.space.byte? before va).map (write va.raw) := by
  obtain ⟨place, number⟩ := inside.exists_place
  have rooted := fits.rooted other isOther
  have still := (fits.alter member altered).rooted other isOther
  obtain ⟨page, maps, alsoMaps⟩ := ((fits.rooted plot member).shares_iff rooted number).mp shared
  have address : placeNumber place * pageSize + va.raw % pageSize = va.raw := by
    rw [← number, Nat.mul_comm, Nat.div_add_mod]
  rw [rooted.byte?_of_maps number alsoMaps,
    still.byte?_of_maps number (fits.still_maps member altered isOther alsoMaps),
    altered.bytes place page maps _ (Nat.mod_lt _ (by decide)), address, Option.map_some]

include apart

/-- The mappings of other spaces stay what they are. -/
theorem lookup_other : other.space.lookup after va = other.space.lookup before va := by
  obtain ⟨place, number⟩ := inside.exists_place
  rw [((fits.alter member altered).rooted other isOther).lookup_at number,
    (fits.rooted other isOther).lookup_at number,
    Plot.leaf?_congr (fits.same_table member altered isOther apart)]

/-- The bytes of other spaces stay what they are where nothing is shared. -/
theorem byte?_other (unshared : ¬plot.space.Shares other.space before va) :
    other.space.byte? after va = other.space.byte? before va := by
  obtain ⟨place, number⟩ := inside.exists_place
  have rooted := fits.rooted other isOther
  have still := (fits.alter member altered).rooted other isOther
  have same := fits.same_table member altered isOther apart
  rw [(fits.rooted plot member).shares_iff rooted number] at unshared
  cases found : other.leaf? before.ram place with
  | none =>
      rw [rooted.byte?_of_none number found, still.byte?_of_none number]
      rw [Plot.leaf?_congr same, found]
  | some mapping =>
      obtain ⟨page, -, maps⟩ := rooted.exists_maps found
      have kept : Ram.SamePage before.ram after.ram page := by
        refine altered.kept page (rooted.taken_of_maps maps) ?_ fun there mapsThere => ?_
        · rintro rfl
          exact fits.leaf_apart other isOther place _ maps (.inr (.inr ⟨plot, member, .inr rfl⟩))
        · obtain rfl := fits.place_eq other isOther plot member place there page maps mapsThere
          exact unshared ⟨page, mapsThere, maps⟩
      rw [rooted.byte?_of_maps number maps,
        still.byte?_of_maps number ((Plot.maps_congr same).mpr maps),
        kept _ (Nat.mod_lt _ (by decide))]

end

/-- A page that the space maps, and that no other space shared before, belongs to the space. -/
theorem entry_of_unshared (fits : chart.Fits before) (member : plot ∈ chart.plots)
    (altered : plot.Alters write before after) {place : Fin processPageCount}
    {page : Fin pageCount} (number : va.raw / pageSize = placeNumber place)
    (maps : plot.Maps after.ram place page)
    (unshared : ∀ other ∈ chart.plots.map Plot.space, other ≠ plot.space →
      ¬plot.space.Shares other before va) : after.ledger.entry page = ⟨plot.owner, 1⟩ := by
  have rooted := fits.rooted plot member
  rcases altered.mapped_or_new maps with was | ⟨-, -, entry_eq⟩
  · rw [altered.entry_eq page (rooted.taken_of_maps was)]
    refine fits.sole_entry plot member place page was fun other isOther apart mapsOther => ?_
    have also := fits.rooted other isOther
    exact unshared other.space (List.mem_map_of_mem isOther)
      (fun same => apart (also.eq_of_space rooted same))
      ((rooted.shares_iff also number).mpr ⟨page, was, mapsOther⟩)
  · exact entry_eq

end Chart.Fits

/-! ## Loading -/

namespace ProgramImage

/-- A segment of the image has data for an address. -/
def HasData (image : ProgramImage) (va : VirtAddr) : Prop :=
  ∃ segment ∈ image.segments, segment.holds va.raw = true

/-- What loading an image into a space comes to, for the space and for others beside it. -/
structure LoadsBeside (image : ProgramImage) (space : AddressSpace) (spaces : List AddressSpace)
    (before : Memory) : Prop where
  not_faulted : ∀ fault after, image.place space before ≠ .error (.faulted fault) after
  answer : ∀ entry after, image.place space before = .ok entry after → entry = image.entry
  /-- Loading fails for the image, or when no page is free for what was not mapped. -/
  refused : ∀ cause after, image.place space before = .error (.refused cause) after →
    image.Rejects cause ∧ after = before ∨
      image.Acceptable ∧ cause = .space (.alloc .outOfMemory) ∧ after.ledger.freePages = 0 ∧
        ∃ place, placeNumber place ∈ image.touched ∧
          space.lookup before (.ofPage (placeNumber place)) = .ok none
  /-- What the space maps stays where it is, with other permissions perhaps, however it ends. -/
  reused : ∀ va : VirtAddr, va.InProcess → ∀ mapping,
    space.lookup before va = .ok (some mapping) →
      ∃ flags, space.lookup ((image.place space).after before) va = .ok (some ⟨mapping.pa, flags⟩)
  /-- Other spaces keep all that they map, however loading ends. -/
  lookup_eq : ∀ other ∈ spaces, other ≠ space → ∀ va : VirtAddr, va.InProcess →
    other.lookup ((image.place space).after before) va = other.lookup before va
  /-- Other spaces keep all their bytes but those that are shared and written, however it ends. -/
  byte_eq : ∀ other ∈ spaces, other ≠ space → ∀ va : VirtAddr, va.InProcess →
    ¬(space.Shares other before va ∧ image.HasData va) →
      other.byte? ((image.place space).after before) va = other.byte? before va
  /-- Pages that were taken stay whose they are. -/
  entry_eq : ∀ page, before.ledger.Taken page →
    ((image.place space).after before).ledger.entry page = before.ledger.entry page
  /-- Other spaces see the image where they share a page with the space that it is loaded into. -/
  overwritten : ∀ entry after, image.place space before = .ok entry after →
    ∀ other ∈ spaces, other ≠ space → ∀ va : VirtAddr, va.InProcess →
      space.Shares other before va → image.HasData va →
        other.byte? after va = some (image.byte va.raw)
  /-- Pages of the image that no other space shares belong to the space. -/
  owned : ∀ entry after, image.place space before = .ok entry after →
    ∀ va : VirtAddr, va.raw / pageSize ∈ image.touched →
      ∃ (page : Fin pageCount) (flags : PageFlags),
        space.lookup after va = .ok (some ⟨.ofPage page, flags⟩) ∧
        ((∃ segment ∈ image.segments, segment.Touches (va.raw / pageSize) ∧
          segment.writable = true) → flags.writable = true) ∧
        ((∀ other ∈ spaces, other ≠ space → ¬space.Shares other before va) →
          after.ledger.entry page = ⟨space.owner, 1⟩)

end ProgramImage

/-- Whatever image is loaded into a space of the chart, this is what it comes to. -/
theorem Chart.Fits.loadsBeside {chart : Chart} {memory : Memory} {plot : Plot}
    (fits : chart.Fits memory) (member : plot ∈ chart.plots) (image : ProgramImage) :
    image.LoadsBeside plot.space (chart.plots.map Plot.space) memory := by
  have rooted := fits.rooted plot member
  have outcome := rooted.ensures_place fits.tidy image
  obtain ⟨write, spares, altered⟩ := rooted.altersWithin_place fits.tidy image
  refine ⟨fun fault after => outcome.not_faulted, fun entry after ran => (outcome.done ran).1,
    ?refused, ?reused, ?lookups, ?bytes, altered.entry_eq, ?overwritten, ?owned⟩
  case refused =>
    intro cause after ran
    rcases outcome.refused ran with ⟨invalid, rfl⟩ | ⟨reason, rfl, valid, stuck⟩
    · exact .inl ⟨ProgramImage.rejects_of_validate invalid, rfl⟩
    · obtain ⟨rfl, full, ⟨place, vacant, segment, isSegment, meets⟩, -⟩ := stuck
      refine .inr ⟨ProgramImage.validate_eq_ok_iff_acceptable.mp valid, rfl, full, place,
        ⟨segment, isSegment, Segment.touches_iff.mpr meets⟩, ?_⟩
      rw [rooted.lookup_at (VirtAddr.page_ofPage _), vacant]
  case reused =>
    intro va inside mapping found
    obtain ⟨place, number⟩ := inside.exists_place
    rw [rooted.lookup_at number] at found
    obtain ⟨flags, still, -⟩ := altered.leaf?_eq place mapping (Except.ok.inj found)
    exact ⟨flags, by rw [(rooted.alter altered).lookup_at number, still]⟩
  case lookups =>
    rintro _ listed apart va inside
    obtain ⟨other, isOther, rfl⟩ := List.mem_map.mp listed
    exact fits.lookup_other member altered isOther (fun same => apart (same ▸ rfl)) inside
  case bytes =>
    rintro _ listed apart va inside spared
    obtain ⟨other, isOther, rfl⟩ := List.mem_map.mp listed
    by_cases shared : plot.space.Shares other.space memory va
    · have unheld : ∀ segment ∈ image.segments, segment.holds va.raw = false := by
        intro segment isSegment
        by_contra held
        exact spared ⟨shared, segment, isSegment, Bool.not_eq_false _ ▸ held⟩
      have unwritten : write va.raw = id := funext fun byte => spares va.raw byte unheld
      rw [fits.byte?_shared member altered isOther inside shared, unwritten, Option.map_id, id]
    · exact fits.byte?_other member altered isOther (fun same => apart (same ▸ rfl)) inside shared
  case overwritten =>
    rintro entry after ran _ listed - va inside shared ⟨segment, isSegment, held⟩
    obtain ⟨other, isOther, rfl⟩ := List.mem_map.mp listed
    obtain ⟨-, -, drawn, -⟩ := outcome.done ran
    obtain ⟨place, number⟩ := inside.exists_place
    obtain ⟨page, -, maps⟩ := (rooted.shares_iff (fits.rooted other isOther) number).mp shared
    rw [fits.byte?_shared member drawn isOther inside shared,
      (fits.rooted other isOther).byte?_of_maps number maps, Option.map_some,
      ProgramImage.overlay_of_holds isSegment held]
  case owned =>
    intro entry after ran va touched
    obtain ⟨-, valid, drawn, served⟩ := outcome.done ran
    have still := rooted.alter drawn
    rw [ProgramImage.touched_eq (ProgramImage.validate_eq_ok_iff.mp valid).1] at touched
    obtain ⟨place, met, number⟩ := touched
    obtain ⟨segment, isSegment, meets⟩ := ProgramImage.mem_footprint.mp met
    obtain ⟨⟨pa, flags⟩, found, -⟩ := served segment isSegment place meets
    obtain ⟨page, rfl, maps⟩ := still.exists_maps found
    refine ⟨page, flags, by rw [still.lookup_at number.symm, found], ?_, fun unshared => ?_⟩
    · rintro ⟨writer, isWriter, touches, writable⟩
      rw [← number, Segment.touches_iff] at touches
      obtain ⟨mapping, alsoFound, opened⟩ := served writer isWriter place touches
      obtain rfl := Option.some.inj (found.symm.trans alsoFound)
      exact opened writable
    · exact fits.entry_of_unshared member drawn number.symm maps unshared

end PagingKernel
