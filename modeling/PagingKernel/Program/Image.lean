import PagingKernel.AddressSpace.Basic
import PagingKernel.MemoryMap

/-!
# Program images

A program as the boot loader hands it over: an entry point and a list of
segments, each a run of bytes to be placed at an address, followed by zeros up
to the segment's size in memory.  An image is acceptable if its segments lie in
the process range below the stack page and its entry point lies in one of them.
An acceptable image may still be refused, for want of memory to place it in.
-/

namespace PagingKernel

/-- Why a program is not loaded. -/
inductive LoadError where
  /-- There is no program with this number. -/
  | unknownProgram (number : Nat)
  /-- A segment is malformed, leaves the process range or reaches the stack page. -/
  | badSegment (va : VirtAddr)
  /-- The entry point does not lie in a segment. -/
  | badEntry (entry : VirtAddr)
  /-- The pages for the program could not be taken or mapped. -/
  | space (cause : AddressSpaceError)
deriving DecidableEq, Repr

namespace LoadError

/-- What the loader says when it refuses. -/
def message : LoadError → String
  | unknownProgram number => "unknown program " ++ number.repr
  | badSegment va => "bad segment at " ++ String.join (Text.Hex.number va.raw)
  | badEntry entry =>
      "entry point " ++ String.join (Text.Hex.number entry.raw) ++ " outside program"
  | space cause => cause.message

/-- The error as a constructor term. -/
def term : LoadError → Text.Term
  | unknownProgram number => .applied "UnknownProgram" (.nat number)
  | badSegment va => .labelled "BadSegment" "va" (.nat va.raw)
  | badEntry entry => .labelled "BadEntry" "entry" (.nat entry.raw)
  | space cause => .applied "Space" cause.term

end LoadError

/-- A part of a program that is placed in memory as a whole. -/
structure Segment where
  /-- Where the segment starts. -/
  va : VirtAddr
  /-- The bytes at the start of the segment; the rest is zero. -/
  data : ByteArray
  /-- Bytes of the segment in memory. -/
  memSize : Nat
  /-- Whether the program may write to the segment. -/
  writable : Bool

namespace Segment

/-- One past the last address of the segment. -/
def stop (segment : Segment) : Nat :=
  segment.va.raw + segment.memSize

/-- Whether the segment lies in the process range below the stack page, and its data in it. -/
def isValid (segment : Segment) : Bool :=
  processStart ≤ segment.va.raw
    && segment.stop ≤ processStack
    && segment.data.size ≤ segment.memSize

/-- Whether an address lies in the segment. -/
def covers (segment : Segment) (va : VirtAddr) : Bool :=
  segment.va.raw ≤ va.raw && va.raw < segment.stop

/-- The permissions of the segment's pages. -/
def flags (segment : Segment) : PageFlags :=
  if segment.writable then .userRW else .userRO

/-- The number of the page that holds the start of the segment. -/
def firstPage (segment : Segment) : Nat :=
  segment.va.raw / pageSize

/-- How many pages there are from the start of the segment's first page to its end. -/
def pageSpan (segment : Segment) : Nat :=
  (segment.stop - pageFloor segment.va.raw + (pageSize - 1)) / pageSize

end Segment

/-- A program: an entry point and the segments to be placed in memory. -/
structure ProgramImage where
  /-- The name of the program. -/
  name : String
  /-- Where the program starts to run. -/
  entry : VirtAddr
  /-- The parts of the program, in the order in which they are placed. -/
  segments : List Segment

namespace ProgramImage

/-- Refuses an image with a bad segment, or with an entry point outside its segments. -/
def validate (image : ProgramImage) : Except LoadError Unit := do
  match image.segments.find? fun segment => !segment.isValid with
  | some segment => throw (.badSegment segment.va)
  | none =>
      if !image.segments.any (·.covers image.entry) then
        throw (.badEntry image.entry)

/-- An image is accepted exactly if all segments are valid and one covers the entry point. -/
theorem validate_eq_ok_iff {image : ProgramImage} :
    image.validate = .ok () ↔
      (∀ segment ∈ image.segments, segment.isValid = true) ∧
        ∃ segment ∈ image.segments, segment.covers image.entry = true := by
  unfold validate
  cases found : image.segments.find? fun segment => !segment.isValid with
  | some segment =>
      have bad := List.find?_some found
      have member := List.mem_of_find?_eq_some found
      simp only [Bool.not_eq_eq_eq_not, Bool.not_true] at bad
      constructor
      · intro accepted
        cases accepted
      · rintro ⟨valid, _⟩
        simp [valid segment member] at bad
  | none =>
      have valid : ∀ segment ∈ image.segments, segment.isValid = true := by
        simpa using found
      cases covered : image.segments.any (·.covers image.entry) with
      | true =>
          have witness := List.any_eq_true.mp covered
          exact ⟨fun _ => ⟨valid, witness⟩, fun _ => rfl⟩
      | false =>
          constructor
          · intro accepted
            cases accepted
          · rintro ⟨_, witness⟩
            rw [List.any_eq_true.mpr witness] at covered
            cases covered

end ProgramImage

/-- The programs that the kernel can run, numbered from 0. -/
structure ProgramTable where
  /-- The images, in the order of their numbers. -/
  images : List ProgramImage

namespace ProgramTable

/-- The program with a number. -/
def image? (table : ProgramTable) (number : Nat) : Option ProgramImage :=
  table.images[number]?

/-- How many programs there are. -/
def size (table : ProgramTable) : Nat :=
  table.images.length

/-- Whether there are no programs. -/
def isEmpty (table : ProgramTable) : Bool :=
  table.images.isEmpty

end ProgramTable

end PagingKernel
