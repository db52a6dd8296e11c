import Mathlib.Data.Set.Card
import PagingKernel.Program.Image
import PagingKernel.Proofs.AddressSpace.View

/-!
# What a program looks like in memory

An image tells what the process range of a space should look like: which pages
are mapped, which of them may be written to, and what bytes they hold.  A
`Picture` is such an account.  The picture of an image is painted segment by
segment, and a segment page by page, in the order in which programs are placed,
so that each page that is placed is one stroke.

What the picture of a list of segments shows does not depend on how it was
painted: a page is writable if one of the segments that meet it is, and a byte
is that of the last segment whose data covers it.
-/

namespace PagingKernel

open PageTable

/-! ## The pages that a program meets -/

/-- The place of the stack, the last one of the process range. -/
def stackPlace : Fin processPageCount :=
  ⟨511, by decide⟩

theorem ofPage_stackPlace : VirtAddr.ofPage (placeNumber stackPlace) = ⟨processStack⟩ :=
  rfl

namespace Segment

/-- The addresses from the base of the segment's first page to its end reach into a page. -/
def Touches (segment : Segment) (number : Nat) : Prop :=
  ∃ address, pageFloor segment.va.raw ≤ address ∧ address < segment.stop ∧
    address / pageSize = number

theorem touches_iff {segment : Segment} {number : Nat} :
    segment.Touches number ↔
      segment.firstPage ≤ number ∧ number < segment.firstPage + segment.pageSpan := by
  simp only [Touches, firstPage, pageSpan, pageFloor]
  generalize segment.stop = stop
  generalize segment.va.raw = start
  constructor
  · rintro ⟨address, above, below, rfl⟩
    simp only [pageSize] at *
    omega
  · rintro ⟨above, below⟩
    refine ⟨number * pageSize, ?_⟩
    simp only [pageSize] at *
    omega

instance (segment : Segment) (number : Nat) : Decidable (segment.Touches number) :=
  decidable_of_iff _ touches_iff.symm

/-- A place belongs to the pages from the first page of the segment to its end. -/
def Meets (segment : Segment) (place : Fin processPageCount) : Prop :=
  segment.firstPage ≤ placeNumber place ∧
    placeNumber place < segment.firstPage + segment.pageSpan

instance (segment : Segment) (place : Fin processPageCount) : Decidable (segment.Meets place) :=
  inferInstanceAs (Decidable (_ ∧ _))

/-- The pages of a valid segment lie in the process range, below the stack. -/
theorem page_below_stack {segment : Segment} (valid : segment.isValid = true) {number : Nat}
    (above : segment.firstPage ≤ number)
    (below : number < segment.firstPage + segment.pageSpan) :
    ∃ place, number = placeNumber place ∧ segment.Meets place ∧ place ≠ stackPlace := by
  simp only [isValid, Bool.and_eq_true, decide_eq_true_eq] at valid
  rcases valid with ⟨⟨start, stop⟩, -⟩
  have lower : firstProcessPage ≤ number := by
    simp only [firstPage, firstProcessPage, pageSize, processStart] at *
    omega
  have upper : number < firstProcessPage + stackPlace := by
    simp only [firstPage, pageSpan, Segment.stop, pageFloor, firstProcessPage, stackPlace, pageSize,
      processStack] at *
    omega
  have inside : number - firstProcessPage < processPageCount := by
    have last := stackPlace.isLt
    omega
  have located : number = placeNumber ⟨number - firstProcessPage, inside⟩ := by
    simp only [placeNumber]
    omega
  refine ⟨⟨number - firstProcessPage, inside⟩, located, ⟨located ▸ above, located ▸ below⟩, ?_⟩
  intro isStack
  have same := congrArg Fin.val isStack
  simp only at same
  omega

theorem size_le_of_isValid {segment : Segment} (valid : segment.isValid = true) :
    segment.data.size ≤ segment.memSize := by
  simp only [isValid, Bool.and_eq_true, decide_eq_true_eq] at valid
  exact valid.2

end Segment

/-- The places that some segment of a program meets. -/
def ProgramImage.footprint (image : ProgramImage) : Finset (Fin processPageCount) :=
  Finset.univ.filter fun place => ∃ segment ∈ image.segments, segment.Meets place

theorem ProgramImage.mem_footprint {image : ProgramImage} {place : Fin processPageCount} :
    place ∈ image.footprint ↔ ∃ segment ∈ image.segments, segment.Meets place := by
  simp [footprint]

namespace Segment

/-- A segment meets at most the pages from its first page to its end. -/
theorem card_meets_le (segment : Segment) :
    (Finset.univ.filter fun place => segment.Meets place).card ≤ segment.pageSpan := by
  have numbered : ∀ place ∈ Finset.univ.filter fun place => segment.Meets place,
      placeNumber place - segment.firstPage ∈ Finset.range segment.pageSpan := by
    intro place listed
    obtain ⟨above, below⟩ := (Finset.mem_filter.mp listed).2
    exact Finset.mem_range.mpr (by omega)
  rw [← Finset.card_range segment.pageSpan]
  refine Finset.card_le_card_of_injOn _ numbered fun first isFirst second isSecond same => ?_
  have firstMeets := (Finset.mem_filter.mp isFirst).2
  have secondMeets := (Finset.mem_filter.mp isSecond).2
  have above := firstMeets.1
  have alsoAbove := secondMeets.1
  exact placeNumber_injective (by omega)

end Segment

namespace ProgramImage

variable {image : ProgramImage}

/-- A program meets at most the pages of its segments. -/
theorem card_footprint_le (image : ProgramImage) :
    image.footprint.card ≤ (image.segments.map Segment.pageSpan).sum := by
  unfold footprint
  induction image.segments with
  | nil => simp
  | cons segment later ih =>
      have split : (Finset.univ.filter fun place => ∃ member ∈ segment :: later,
          member.Meets place) = (Finset.univ.filter fun place => segment.Meets place) ∪
            Finset.univ.filter fun place => ∃ member ∈ later, member.Meets place := by
        rw [← Finset.filter_or]
        exact Finset.filter_congr fun place _ => by simp
      have first := segment.card_meets_le
      have both := Finset.card_union_le (Finset.univ.filter fun place => segment.Meets place)
        (Finset.univ.filter fun place => ∃ member ∈ later, member.Meets place)
      rw [split, List.map_cons, List.sum_cons]
      omega

/-- The numbers of the pages that the segments of a program reach into. -/
def touched (image : ProgramImage) : Set Nat :=
  {number | ∃ segment ∈ image.segments, segment.Touches number}

theorem placeNumber_mem_touched {place : Fin processPageCount} :
    placeNumber place ∈ image.touched ↔ place ∈ image.footprint := by
  rw [mem_footprint]
  exact exists_congr fun segment => and_congr_right fun _ => Segment.touches_iff

theorem stackPlace_notMem_footprint (valid : ∀ segment ∈ image.segments, segment.isValid = true) :
    stackPlace ∉ image.footprint := by
  intro met
  obtain ⟨segment, member, above, below⟩ := mem_footprint.mp met
  obtain ⟨place, same, -, notStack⟩ := Segment.page_below_stack (valid segment member) above below
  exact notStack (placeNumber_injective same).symm

/-- The pages of an acceptable image all have a place in the process range. -/
theorem touched_eq (valid : ∀ segment ∈ image.segments, segment.isValid = true) :
    image.touched = placeNumber '' image.footprint := by
  ext number
  constructor
  · rintro ⟨segment, member, touches⟩
    obtain ⟨above, below⟩ := Segment.touches_iff.mp touches
    obtain ⟨place, rfl, meets, -⟩ := Segment.page_below_stack (valid segment member) above below
    exact ⟨place, mem_footprint.mpr ⟨segment, member, meets⟩, rfl⟩
  · rintro ⟨place, met, rfl⟩
    exact placeNumber_mem_touched.mpr met

theorem ncard_touched (valid : ∀ segment ∈ image.segments, segment.isValid = true) :
    image.touched.ncard = image.footprint.card := by
  rw [touched_eq valid, Set.ncard_image_of_injective _ fun _ _ => placeNumber_injective,
    Set.ncard_coe_finset]

end ProgramImage

/-! ## Bytes of segments -/

namespace Segment

/-- Whether the data of the segment has a byte for an address. -/
def holds (segment : Segment) (address : Nat) : Bool :=
  segment.va.raw ≤ address && address < segment.va.raw + segment.data.size

/-- The byte that the data of the segment has for an address. -/
def dataAt (segment : Segment) (address : Nat) : UInt8 :=
  byteAt segment.data (address - segment.va.raw)

/-- The data of a segment lies in the pages that it meets. -/
theorem page_of_holds {segment : Segment} (fits : segment.data.size ≤ segment.memSize)
    {address : Nat} (held : segment.holds address = true) :
    segment.firstPage ≤ address / pageSize ∧
      address / pageSize < segment.firstPage + segment.pageSpan := by
  simp only [holds, Bool.and_eq_true, decide_eq_true_eq] at held
  refine touches_iff.mp ⟨address, ?_, ?_, rfl⟩
  · have floor := pageFloor_add_mod segment.va.raw
    omega
  · rw [stop]
    omega

end Segment

/-- The byte that a program has at an address: that of the last segment whose data covers it. -/
def ProgramImage.byte (image : ProgramImage) (address : Nat) : UInt8 :=
  ((image.segments.reverse.find? (·.holds address)).map (·.dataAt address)).getD 0

/-! ## Pictures -/

/-- What the process range of a space looks like. -/
structure Picture where
  /-- Whether each place may be written to, if it is mapped. -/
  writable? : Fin processPageCount → Option Bool
  /-- The byte at each address, 0 where nothing is mapped. -/
  byte : Nat → UInt8

namespace Picture

variable {picture : Picture} {segment : Segment} {place : Fin processPageCount} {bound : Nat}

/-- A picture without pages. -/
def blank : Picture :=
  ⟨fun _ => none, fun _ => 0⟩

/-- The picture with a page in it, which may be written to if it could be before. -/
def map (picture : Picture) (place : Fin processPageCount) (writable : Bool) : Picture where
  writable? := Function.update picture.writable? place
    (some (writable || (picture.writable? place).getD false))
  byte := picture.byte

/-- The picture with the data of a segment in page number `number`. -/
def fill (picture : Picture) (segment : Segment) (number : Nat) : Picture where
  writable? := picture.writable?
  byte address :=
    if segment.holds address ∧ address / pageSize = number then segment.dataAt address
    else picture.byte address

/-- The picture with the pages of a segment in it whose numbers are below a bound. -/
def paintBelow (picture : Picture) (segment : Segment) (bound : Nat) : Picture where
  writable? place :=
    if segment.Meets place ∧ placeNumber place < bound then
      some (segment.writable || (picture.writable? place).getD false)
    else picture.writable? place
  byte address :=
    if segment.holds address ∧ address / pageSize < bound then segment.dataAt address
    else picture.byte address

/-- The picture with all pages of a segment in it. -/
def paint (picture : Picture) (segment : Segment) : Picture :=
  picture.paintBelow segment (segment.firstPage + segment.pageSpan)

@[ext]
theorem ext {other : Picture} (flags : ∀ place, picture.writable? place = other.writable? place)
    (bytes : ∀ address, picture.byte address = other.byte address) : picture = other := by
  obtain ⟨writable?, byte⟩ := picture
  obtain rfl : writable? = other.writable? := funext flags
  obtain rfl : byte = other.byte := funext bytes
  rfl

/-- Below its first page a segment has nothing to paint. -/
theorem paintBelow_firstPage (fits : segment.data.size ≤ segment.memSize) :
    picture.paintBelow segment segment.firstPage = picture := by
  apply Picture.ext
  · intro place
    exact if_neg fun ⟨meets, below⟩ => absurd meets.1 (Nat.not_le.mpr below)
  · intro address
    exact if_neg fun ⟨held, below⟩ =>
      absurd (Segment.page_of_holds fits held).1 (Nat.not_le.mpr below)

/-- One more page of a segment is one more page mapped and filled. -/
theorem paintBelow_succ (meets : segment.Meets place) :
    ((picture.paintBelow segment (placeNumber place)).map place segment.writable).fill segment
        (placeNumber place) =
      picture.paintBelow segment (placeNumber place + 1) := by
  apply Picture.ext
  · intro other
    simp only [fill, map, paintBelow, Function.update_apply]
    by_cases here : other = place
    · simp [here, meets]
    · have apart : placeNumber other ≠ placeNumber place :=
        fun same => here (placeNumber_injective same)
      simp only [if_neg here, show placeNumber other < placeNumber place + 1 ↔
        placeNumber other < placeNumber place by omega]
  · intro address
    simp only [fill, map, paintBelow]
    by_cases held : segment.holds address = true
    · by_cases here : address / pageSize = placeNumber place
      · simp [held, here]
      · simp only [held, here, true_and, if_false, show address / pageSize <
          placeNumber place + 1 ↔ address / pageSize < placeNumber place by omega]
    · simp [held]

/-! ## Places without a page -/

/-- Where nothing is mapped there are no bytes. -/
def Clear (picture : Picture) : Prop :=
  ∀ place, picture.writable? place = none → ∀ offset < pageSize,
    picture.byte (placeNumber place * pageSize + offset) = 0

theorem clear_blank : blank.Clear :=
  fun _ _ _ _ => rfl

theorem page_of_offset (number : Nat) {offset : Nat} (inside : offset < pageSize) :
    (number * pageSize + offset) / pageSize = number := by
  rw [Nat.mul_comm, Nat.mul_add_div (by decide), Nat.div_eq_of_lt inside, Nat.add_zero]

/-- A segment brings its data with pages that it meets. -/
theorem Clear.paintBelow (clear : picture.Clear) (fits : segment.data.size ≤ segment.memSize)
    (bound : Nat) : (picture.paintBelow segment bound).Clear := by
  intro place unmapped offset inside
  have page := page_of_offset (placeNumber place) inside
  simp only [Picture.paintBelow] at unmapped ⊢
  split at unmapped
  · cases unmapped
  · rename_i notMet
    rw [if_neg, clear place unmapped offset inside]
    rintro ⟨held, below⟩
    have met := Segment.page_of_holds fits held
    rw [page] at met below
    exact notMet ⟨met, below⟩

end Picture

/-! ## The picture of a program -/

namespace Picture

variable {segments : List Segment} {place : Fin processPageCount}

/-- The picture of segments that are painted in order. -/
def ofSegments (segments : List Segment) : Picture :=
  segments.foldl paint blank

theorem ofSegments_snoc (segments : List Segment) (segment : Segment) :
    ofSegments (segments ++ [segment]) = (ofSegments segments).paint segment := by
  rw [ofSegments, List.foldl_append]
  rfl

theorem clear_ofSegments (valid : ∀ segment ∈ segments, segment.isValid = true) :
    (ofSegments segments).Clear := by
  induction segments using List.reverseRecOn with
  | nil => exact clear_blank
  | append_singleton earlier segment ih =>
      rw [ofSegments_snoc]
      exact (ih fun member listed => valid member (List.mem_append_left _ listed)).paintBelow
        (Segment.size_le_of_isValid (valid segment (by simp))) _

/-- A place is mapped if a segment meets it, and may be written to if one of those may. -/
theorem writable?_ofSegments (segments : List Segment) (place : Fin processPageCount) :
    (ofSegments segments).writable? place =
      if ∃ segment ∈ segments, segment.Meets place then
        some (decide (∃ segment ∈ segments, segment.Meets place ∧ segment.writable = true))
      else none := by
  induction segments using List.reverseRecOn with
  | nil => simp [ofSegments, blank]
  | append_singleton earlier segment ih =>
      rw [ofSegments_snoc, paint, paintBelow]
      dsimp only
      rw [ih]
      by_cases meets : segment.Meets place
      · have met : ∃ member ∈ earlier ++ [segment], member.Meets place := ⟨segment, by simp, meets⟩
        rw [if_pos ⟨meets, meets.2⟩, if_pos met]
        by_cases before : ∃ member ∈ earlier, member.Meets place
        · rw [if_pos before]
          simp [meets, or_and_right, exists_or, Bool.or_comm]
        · have notOpened : ¬∃ member ∈ earlier, member.Meets place ∧ member.writable = true :=
            fun ⟨member, listed, met, _⟩ => before ⟨member, listed, met⟩
          rw [if_neg before]
          simp only [List.mem_append, List.mem_singleton, or_and_right, exists_or, notOpened,
            false_or, exists_eq_left, meets, true_and, Option.getD_none, Bool.or_false,
            Bool.decide_eq_true]
      · rw [if_neg fun painted => meets painted.1]
        simp [meets, or_and_right, exists_or]

/-- A byte is that of the last segment whose data covers it, or zero. -/
theorem byte_ofSegments (fits : ∀ segment ∈ segments, segment.isValid = true) (address : Nat) :
    (ofSegments segments).byte address =
      ((segments.reverse.find? (·.holds address)).map (·.dataAt address)).getD 0 := by
  induction segments using List.reverseRecOn with
  | nil => rfl
  | append_singleton earlier segment ih =>
      have before := ih fun member listed => fits member (List.mem_append_left _ listed)
      have within := Segment.size_le_of_isValid (fits segment (by simp))
      rw [ofSegments_snoc, paint, paintBelow, List.reverse_append, List.reverse_singleton,
        List.singleton_append, List.find?_cons]
      dsimp only
      rw [before]
      cases held : segment.holds address with
      | true => simp [(Segment.page_of_holds within held).2]
      | false => simp

end Picture

namespace ProgramImage

variable {image : ProgramImage} {place : Fin processPageCount}

/-- What an image looks like, if it is acceptable. -/
def picture (image : ProgramImage) : Picture :=
  .ofSegments image.segments

/-- A program may write to a page if one of the segments that reach into it is writable. -/
theorem writable?_picture_of_touched (touched : placeNumber place ∈ image.touched) :
    image.picture.writable? place = some (decide (∃ segment ∈ image.segments,
      segment.Touches (placeNumber place) ∧ segment.writable = true)) := by
  have met := mem_footprint.mp (placeNumber_mem_touched.mp touched)
  rw [picture, Picture.writable?_ofSegments, if_pos met]
  refine congrArg some (decide_eq_decide.mpr (exists_congr fun segment => ?_))
  rw [Segment.touches_iff, Segment.Meets]

theorem writable?_picture_of_not_touched (untouched : placeNumber place ∉ image.touched) :
    image.picture.writable? place = none := by
  rw [picture, Picture.writable?_ofSegments, if_neg]
  exact fun met => untouched (placeNumber_mem_touched.mpr (mem_footprint.mpr met))

theorem byte_picture (valid : ∀ segment ∈ image.segments, segment.isValid = true) (address : Nat) :
    image.picture.byte address = image.byte address :=
  Picture.byte_ofSegments valid address

end ProgramImage

end PagingKernel
