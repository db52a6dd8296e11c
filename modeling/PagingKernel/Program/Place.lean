import PagingKernel.AddressSpace.Basic
import PagingKernel.Program.Image

/-!
# Placing programs in memory

The segments of an image are placed in order.  A page that two segments meet is
taken once and is writable if one of them is.  Pages taken before a refusal stay
mapped; whoever asked for the program takes the whole space apart.
-/

namespace PagingKernel

namespace Segment

/-- Writes the data of the segment that falls in page number `page`, backed by the page at `pa`. -/
def fillPage (segment : Segment) (page : Nat) (pa : PhysAddr) :
    Action Memory AddressSpaceError Unit :=
  let base := page * pageSize
  let start := max segment.va.raw base
  let stop := min (segment.va.raw + segment.data.size) (base + pageSize)
  if start < stop then
    Memory.onRam (Ram.write ⟨pa.raw + (start - base)⟩
      (segment.data.extract (start - segment.va.raw) (stop - segment.va.raw)))
  else pure ()

/-- The physical page for page number `page` of the segment, taken or opened for writing. -/
def backPage (segment : Segment) (space : AddressSpace) (page : Nat) :
    Action Memory AddressSpaceError PhysAddr := do
  let va := VirtAddr.ofPage page
  match ← Action.peek (space.lookup · va) with
  | some existing =>
      if segment.writable && !existing.flags.writable then
        space.map va existing.pa pageSize .userRW
      return existing.pa
  | none => space.mapFresh va segment.flags

/-- Places the part of the segment that falls in page number `page`. -/
def placePage (segment : Segment) (space : AddressSpace) (page : Nat) :
    Action Memory AddressSpaceError Unit := do
  let pa ← segment.backPage space page
  segment.fillPage page pa

/-- Places the segment in a space. -/
def place (segment : Segment) (space : AddressSpace) : Action Memory AddressSpaceError Unit :=
  Action.forRange segment.firstPage segment.pageSpan (segment.placePage space)

end Segment

/-- Places an acceptable image in a space and answers with its entry point. -/
def ProgramImage.place (image : ProgramImage) (space : AddressSpace) :
    Action Memory LoadError VirtAddr := do
  Action.ofExcept image.validate
  (Action.forEach (·.place space) image.segments).mapCause .space
  return image.entry

end PagingKernel
