import PagingKernel.AddressSpace.Basic

/-!
# Copies of address spaces

A forked process sees what its parent saw.  Pages that user code may write are
copied, so that neither process sees what the other writes from then on; pages
that user code may only read are shared.  A fork that is refused gives back
every page and reference it had taken.
-/

namespace PagingKernel.AddressSpace

/-- Copies a writable page of the parent into a new page of the child. -/
def copyWritable (child : AddressSpace) (va : VirtAddr) (pa : PhysAddr) :
    Action Memory AddressSpaceError Unit := do
  let copy ← (Memory.claimFree child.owner).mapCause .alloc
  Memory.onRam (Ram.copyPage pa copy)
  (child.map va copy pageSize .userRW).onRefusal (dropPage copy)

/-- Maps a read-only page of the parent in the child as well. -/
def shareReadOnly (child : AddressSpace) (va : VirtAddr) (pa : PhysAddr) :
    Action Memory AddressSpaceError Unit := do
  let _ ← (Memory.share pa).mapCause .alloc
  (child.map va pa pageSize .userRO).onRefusal (dropPage pa)

/-- Gives the child what the parent maps at page number `page`. -/
def inheritPage (parent child : AddressSpace) (page : Nat) :
    Action Memory AddressSpaceError Unit := do
  let va := VirtAddr.ofPage page
  match ← Action.peek (parent.lookup · va) with
  | none => return
  | some mapping =>
      if mapping.flags.isUserWritable then
        child.copyWritable va mapping.pa
      else if mapping.flags.isUserReadOnly then
        child.shareReadOnly va mapping.pa

/-- Gives the child what the parent maps in the process range. -/
def inheritPages (parent child : AddressSpace) : Action Memory AddressSpaceError Unit :=
  Action.forRange firstProcessPage processPageCount (parent.inheritPage child)

/-- The copy of a space for a forked process; a refusal takes the copy apart again. -/
def duplicate (parent kernel : AddressSpace) (child : Pid) :
    Action Memory AddressSpaceError AddressSpace := do
  let space ← ofTemplate kernel child
  (parent.inheritPages space).onRefusal space.release
  return space

end PagingKernel.AddressSpace
