import PagingKernel.Proofs.Neighbours.Changes
import PagingKernel.Proofs.Program.Placed

/-!
# Loading programs into spaces in use

A program may be loaded into a space that maps pages already.  Where the program
meets one of those, its data is written over what the page holds, and all other
bytes stay what they are.  `overlay` is what becomes of a byte.
-/

namespace PagingKernel

open PageTable PagingKernel.Action

/-! ## Bytes that are written over -/

/-- What becomes of a byte when the data of a segment in page number `number` is written. -/
def Segment.stroke (segment : Segment) (number address : Nat) (byte : UInt8) : UInt8 :=
  if segment.holds address ∧ address / pageSize = number then segment.dataAt address else byte

/-- What becomes of a byte when the data of a segment in all pages below a bound is written. -/
def Segment.strokeBelow (segment : Segment) (bound address : Nat) (byte : UInt8) : UInt8 :=
  if segment.holds address ∧ address / pageSize < bound then segment.dataAt address else byte

/-- What becomes of a byte when segments are written over it in order. -/
def overlay (segments : List Segment) (address : Nat) (byte : UInt8) : UInt8 :=
  ((segments.reverse.find? (·.holds address)).map (·.dataAt address)).getD byte

namespace Segment

variable {segment : Segment}

theorem strokeBelow_firstPage (fits : segment.data.size ≤ segment.memSize) :
    segment.strokeBelow segment.firstPage = Plot.keep := by
  funext address byte
  exact if_neg fun ⟨held, below⟩ => absurd (page_of_holds fits held).1 (Nat.not_le.mpr below)

theorem strokeBelow_succ (segment : Segment) (number : Nat) :
    (fun address byte => segment.stroke number address (segment.strokeBelow number address byte)) =
      segment.strokeBelow (number + 1) := by
  funext address byte
  simp only [stroke, strokeBelow]
  by_cases held : segment.holds address = true
  · by_cases here : address / pageSize = number
    · simp [held, here]
    · simp only [held, here, true_and, if_false, show address / pageSize < number + 1 ↔
        address / pageSize < number by omega]
  · simp [held]

/-- Past its last page all data of a segment is written. -/
theorem strokeBelow_last (fits : segment.data.size ≤ segment.memSize) :
    segment.strokeBelow (segment.firstPage + segment.pageSpan) = overlay [segment] := by
  funext address byte
  simp only [strokeBelow, overlay, List.reverse_singleton, List.find?_singleton]
  by_cases held : segment.holds address = true
  · simp [held, (page_of_holds fits held).2]
  · simp [held]

theorem strokeBelow_of_not_holds {address : Nat} (spared : segment.holds address = false)
    (bound : Nat) (byte : UInt8) : segment.strokeBelow bound address byte = byte := by
  rw [strokeBelow, if_neg]
  simp [spared]

end Segment

theorem overlay_nil : overlay [] = Plot.keep :=
  rfl

theorem overlay_snoc (earlier : List Segment) (segment : Segment) :
    (fun address byte => overlay [segment] address (overlay earlier address byte)) =
      overlay (earlier ++ [segment]) := by
  funext address byte
  simp only [overlay, List.reverse_append, List.reverse_singleton, List.singleton_append,
    List.find?_cons, List.find?_nil]
  cases segment.holds address <;> rfl

theorem overlay_of_not_holds {segments : List Segment} {address : Nat}
    (spared : ∀ segment ∈ segments, segment.holds address = false) (byte : UInt8) :
    overlay segments address byte = byte := by
  have none : segments.reverse.find? (·.holds address) = none := by
    rw [List.find?_eq_none]
    intro segment member
    rw [spared segment (List.mem_reverse.mp member)]
    decide
  rw [overlay, none]
  rfl

/-- Where a program has data, what was there before does not matter. -/
theorem ProgramImage.overlay_of_holds {image : ProgramImage} {address : Nat} {segment : Segment}
    (member : segment ∈ image.segments) (held : segment.holds address = true) (byte : UInt8) :
    overlay image.segments address byte = image.byte address := by
  obtain ⟨last, found⟩ : ∃ last, image.segments.reverse.find? (·.holds address) = some last := by
    rw [← Option.isSome_iff_exists, List.find?_isSome]
    exact ⟨segment, List.mem_reverse.mpr member, held⟩
  rw [overlay, ProgramImage.byte, found]
  rfl

namespace Plot

variable {plot : Plot} {memory before after start : Memory} {ledger : Ledger} {ram next : Ram}
  {place : Fin processPageCount} {page : Fin pageCount} {segment : Segment}

/-! ## Pages -/

/-- A place is mapped, and may be written to if a segment needs it. -/
def Serves (plot : Plot) (ram : Ram) (segment : Segment) (place : Fin processPageCount) : Prop :=
  ∃ mapping, plot.leaf? ram place = some mapping ∧
    (segment.writable = true → mapping.flags.writable = true)

theorem Alters.serves {write : Nat → UInt8 → UInt8} (altered : plot.Alters write before after)
    (serves : plot.Serves before.ram segment place) : plot.Serves after.ram segment place := by
  obtain ⟨mapping, found, opened⟩ := serves
  obtain ⟨flags, still, stillOpened⟩ := altered.leaf?_eq place mapping found
  exact ⟨_, still, fun writable => stillOpened (opened writable)⟩

/-- Data of a segment is written to a page that is mapped. -/
theorem Rooted.alters_fill (rooted : plot.Rooted ⟨ledger, ram⟩) (maps : plot.Maps ram place page)
    (same : ∀ other, other ≠ page → Ram.SamePage ram next other)
    (filled : ∀ offset < pageSize, next.pageByte page offset =
      if segment.holds (placeNumber place * pageSize + offset) then
        segment.dataAt (placeNumber place * pageSize + offset)
      else ram.pageByte page offset) :
    plot.Alters (segment.stroke (placeNumber place)) ⟨ledger, ram⟩ ⟨ledger, next⟩ := by
  refine alters_of_table (same plot.table (rooted.ne_table_of_maps maps).symm)
    (fun other _ _ unmapped => same other ?_) fun other held alsoMaps offset inside => ?_
  · rintro rfl
    exact unmapped place maps
  · rw [Segment.stroke, Picture.page_of_offset (placeNumber other) inside]
    by_cases here : other = place
    · obtain rfl := here
      obtain rfl := maps.unique alsoMaps
      rw [filled offset inside]
      simp
    · have apart : held ≠ page := by
        rintro rfl
        exact here (rooted.place_unique other place held alsoMaps maps)
      rw [← same held apart offset inside, if_neg]
      exact fun both => here (placeNumber_injective both.2)

/-- A page of a segment is backed by the page that is mapped at its place, or else by a new one. -/
theorem Rooted.ensures_backPage (rooted : plot.Rooted memory) (tidy : memory.ledger.Tidy)
    (segment : Segment) (place : Fin processPageCount) :
    (segment.backPage plot.space (placeNumber place)).Ensures memory
      (fun pa after => ∃ page : Fin pageCount, pa = .ofPage page ∧
        plot.Maps after.ram place page ∧ plot.Alters keep memory after ∧
        plot.Serves after.ram segment place)
      fun cause after => cause = .alloc .outOfMemory ∧ memory.ledger.freePages = 0 ∧
        plot.leaf? memory.ram place = none ∧ after = memory := by
  obtain ⟨ledger, ram⟩ := memory
  have below := placeNumber_lt place
  rw [Segment.backPage, ensures_bind, ensures_peek]
  refine ⟨_, AddressSpace.lookup_eq (lookup_eq rooted.refers (VirtAddr.page_ofPage _)), ?_⟩
  cases found : plot.leaf? ram place with
  | some mapping =>
      obtain ⟨page, atPage, maps⟩ := rooted.exists_maps found
      dsimp only
      by_cases opening : (segment.writable && !mapping.flags.writable) = true
      · rw [if_pos opening, ensures_bind, atPage]
        have vacant : ∀ other ∈ decodeEntry (ram.entry plot.table (placeNumber place)),
            other.pa = .ofPage page := by
          intro other isOther
          obtain rfl := Option.some.inj (found.symm.trans isOther)
          exact atPage
        have mapped := AddressSpace.map_lowPage_eq_ok ledger plot.owner below rooted.refers vacant
          .userRW
        refine (ensures_of_eq_ok mapped).mpr (ensures_pure.mpr ?_)
        have opened := rooted.alters_open maps
        have now : plot.leaf? (ram.setEntry plot.table (placeNumber place)
            (encodeEntry (.ofPage page) .userRW)) place = some ⟨.ofPage page, .userRW⟩ := by
          rw [leaf?_setEntry, if_pos rfl, decodeEntry_encodeEntry_ofPage page rfl]
        exact ⟨page, rfl, opened.maps maps, opened, _, now, fun _ => rfl⟩
      · rw [if_neg opening]
        refine ensures_pure.mpr ⟨page, atPage, maps, rooted.alters_refl, mapping, found, ?_⟩
        intro writable
        rw [writable, Bool.true_and, Bool.not_eq_true', Bool.not_eq_false] at opening
        exact opening
  | none =>
      refine (AddressSpace.ensures_mapFresh_lowPage tidy rooted.owned below rooted.refers
        rooted.rootTaken rooted.tableTaken found segment.flags).mono ?_ ?_
      · rintro _ _ ⟨page, rfl, nextFree, rfl⟩
        have present : segment.flags.present = true := by
          unfold Segment.flags
          split <;> rfl
        have now : plot.leaf? ((ram.clear page).setEntry plot.table (placeNumber place)
            (encodeEntry (.ofPage page) segment.flags)) place =
              some ⟨.ofPage page, segment.flags⟩ := by
          rw [leaf?_setEntry, if_pos rfl, decodeEntry_encodeEntry_ofPage page present]
        refine ⟨page, rfl, ⟨_, now⟩, rooted.alters_mapNew nextFree.untaken found segment.flags,
          _, now, fun writable => ?_⟩
        rw [Segment.flags, if_pos writable]
        rfl
      · rintro _ _ ⟨reason, rfl, exhausted, rfl⟩
        exact ⟨congrArg _ exhausted.cause_eq, exhausted.freePages_eq, rfl, rfl⟩

/-- A page of a segment is placed, unless nothing is mapped there and memory runs out. -/
theorem Rooted.ensures_placePage (rooted : plot.Rooted memory) (tidy : memory.ledger.Tidy)
    (segment : Segment) (place : Fin processPageCount) :
    (segment.placePage plot.space (placeNumber place)).Ensures memory
      (fun _ after => plot.Alters (segment.stroke (placeNumber place)) memory after ∧
        plot.Serves after.ram segment place)
      fun cause after => cause = .alloc .outOfMemory ∧ memory.ledger.freePages = 0 ∧
        plot.leaf? memory.ram place = none ∧ after = memory := by
  rw [Segment.placePage, ensures_bind]
  refine (rooted.ensures_backPage tidy segment place).mono ?_ fun _ _ held => held
  rintro _ ⟨ledger, ram⟩ ⟨page, rfl, maps, backed, serves⟩
  obtain ⟨start, count, source, inside, ran, bytes⟩ :=
    segment.exists_fillPage_eq_ok (placeNumber place) page
  have filled := (rooted.alter backed).alters_fill maps
    (fun other apart => Ram.samePage_overwrite_of_ne inside apart) (bytes ram)
  exact (ensures_of_eq_ok (ran ledger ram)).mpr ⟨backed.trans filled rooted, filled.serves serves⟩

/-! ## Segments and programs -/

/-- A space did something to memory, and no bytes changed but those that segments have data for. -/
def AltersWithin (plot : Plot) (segments : List Segment) (before after : Memory) : Prop :=
  ∃ write, (∀ address byte, (∀ segment ∈ segments, segment.holds address = false) →
    write address byte = byte) ∧ plot.Alters write before after

/-- Segments were placed in part, until memory ran out for a place that was not mapped. -/
def Stuck (plot : Plot) (segments : List Segment) (before : Memory) (cause : AddressSpaceError)
    (after : Memory) : Prop :=
  cause = .alloc .outOfMemory ∧ after.ledger.freePages = 0 ∧
  (∃ place, plot.leaf? before.ram place = none ∧ ∃ segment ∈ segments, segment.Meets place) ∧
  plot.AltersWithin segments before after

/-- What is stuck later is stuck after what was done before. -/
theorem Alters.stuck {earlier : List Segment} {segments all : List Segment}
    {cause : AddressSpaceError} (altered : plot.Alters (overlay earlier) start before)
    (rooted : plot.Rooted start) (stuck : plot.Stuck segments before cause after)
    (first : ∀ segment ∈ earlier, segment ∈ all) (last : ∀ segment ∈ segments, segment ∈ all) :
    plot.Stuck all start cause after := by
  obtain ⟨isCause, full, ⟨place, vacant, segment, member, meets⟩, write, spares, further⟩ := stuck
  refine ⟨isCause, full, ⟨place, altered.vacant vacant, segment, last segment member, meets⟩, _, ?_,
    altered.trans further rooted⟩
  intro address byte spared
  rw [overlay_of_not_holds fun other isEarlier => spared other (first other isEarlier)]
  exact spares address byte fun other isLater => spared other (last other isLater)

/-- A valid segment is placed, or stuck. -/
theorem Rooted.ensures_placeSegment (rooted : plot.Rooted memory) (tidy : memory.ledger.Tidy)
    (valid : segment.isValid = true) :
    (segment.place plot.space).Ensures memory
      (fun _ after => plot.Alters (overlay [segment]) memory after ∧
        ∀ place, segment.Meets place → plot.Serves after.ram segment place)
      (plot.Stuck [segment] memory) := by
  have fits := Segment.size_le_of_isValid valid
  rw [Segment.place, ← Segment.strokeBelow_last fits]
  refine (ensures_forRange (fun number after =>
    plot.Alters (segment.strokeBelow number) memory after ∧ ∀ place, segment.Meets place →
      placeNumber place < number → plot.Serves after.ram segment place) ?_ ?_).mono ?_
    fun _ _ held => held
  · rw [Segment.strokeBelow_firstPage fits]
    exact ⟨rooted.alters_refl, fun place meets below => absurd meets.1 (Nat.not_le.mpr below)⟩
  · rintro number middle above below ⟨altered, served⟩
    obtain ⟨place, rfl, meets, -⟩ := Segment.page_below_stack valid above below
    refine ((rooted.alter altered).ensures_placePage (altered.tidy tidy) segment place).mono ?_ ?_
    · rintro _ after ⟨placed, serves⟩
      refine ⟨?_, fun other met within => ?_⟩
      · rw [← Segment.strokeBelow_succ]
        exact altered.trans placed rooted
      · by_cases here : other = place
        · exact here ▸ serves
        · have apart : placeNumber other ≠ placeNumber place :=
            fun same => here (placeNumber_injective same)
          exact placed.serves (served other met (by omega))
    · rintro cause _ ⟨rfl, full, vacant, rfl⟩
      have member := List.mem_singleton_self segment
      exact ⟨rfl, full, ⟨place, altered.vacant vacant, segment, member, meets⟩, _,
        fun address byte spared => Segment.strokeBelow_of_not_holds (spared segment member) _ byte,
        altered⟩
  · rintro _ after ⟨altered, served⟩
    exact ⟨altered, fun place meets => served place meets meets.2⟩

/-- An image is loaded into a space in use, or refused as it stands, or stuck. -/
theorem Rooted.ensures_place (rooted : plot.Rooted memory) (tidy : memory.ledger.Tidy)
    (image : ProgramImage) :
    (image.place plot.space).Ensures memory
      (fun entry after => entry = image.entry ∧ image.validate = .ok () ∧
        plot.Alters (overlay image.segments) memory after ∧
        ∀ segment ∈ image.segments, ∀ place, segment.Meets place →
          plot.Serves after.ram segment place)
      fun cause after => image.validate = .error cause ∧ after = memory ∨
        ∃ reason, cause = .space reason ∧ image.validate = .ok () ∧
          plot.Stuck image.segments memory reason after := by
  rw [ProgramImage.place, ensures_bind]
  cases accepted : image.validate with
  | error cause => exact ensures_ofExcept_error.mpr (.inl ⟨rfl, rfl⟩)
  | ok =>
      obtain ⟨valid, -⟩ := ProgramImage.validate_eq_ok_iff.mp accepted
      have all : (forEach (·.place plot.space) image.segments).Ensures memory
          (fun _ after => plot.Alters (overlay image.segments) memory after ∧
            ∀ segment ∈ image.segments, ∀ place, segment.Meets place →
              plot.Serves after.ram segment place) (plot.Stuck image.segments memory) := by
        refine ensures_forEach (fun earlier after => plot.Alters (overlay earlier) memory after ∧
          ∀ segment ∈ earlier, ∀ place, segment.Meets place → plot.Serves after.ram segment place)
          ⟨overlay_nil ▸ rooted.alters_refl, by simp⟩ ?_
        rintro earlier segment later middle split ⟨altered, served⟩
        have member : segment ∈ image.segments := by simp [split]
        refine ((rooted.alter altered).ensures_placeSegment (altered.tidy tidy)
          (valid segment member)).mono ?_ fun cause after stuck => ?_
        · rintro _ after ⟨placed, serves⟩
          rw [← overlay_snoc]
          refine ⟨altered.trans placed rooted, fun other isOther place meets => ?_⟩
          rcases List.mem_append.mp isOther with isEarlier | isLast
          · exact placed.serves (served other isEarlier place meets)
          · obtain rfl := List.mem_singleton.mp isLast
            exact serves place meets
        · refine altered.stuck rooted stuck (fun other isEarlier => ?_) fun other isSegment => ?_
          · rw [split]
            exact List.mem_append_left _ isEarlier
          · obtain rfl := List.mem_singleton.mp isSegment
            exact member
      rw [ensures_ofExcept_ok, ensures_bind, ensures_mapCause]
      refine all.mono ?_ fun reason after stuck => .inr ⟨reason, rfl, rfl, stuck⟩
      rintro _ after ⟨altered, served⟩
      exact ensures_pure.mpr ⟨rfl, rfl, altered, served⟩

/-- However loading ends, no bytes change but those that the program has data for. -/
theorem Rooted.altersWithin_place (rooted : plot.Rooted memory) (tidy : memory.ledger.Tidy)
    (image : ProgramImage) :
    plot.AltersWithin image.segments memory ((image.place plot.space).after memory) := by
  refine Ensures.after ((rooted.ensures_place tidy image).mono ?_ ?_)
  · rintro _ after ⟨-, -, altered, -⟩
    exact ⟨_, fun address byte spared => overlay_of_not_holds spared byte, altered⟩
  · rintro _ after (⟨-, rfl⟩ | ⟨reason, -, -, -, -, -, stuck⟩)
    · exact ⟨keep, fun _ _ _ => rfl, rooted.alters_refl⟩
    · exact stuck

end Plot

end PagingKernel
