import PagingKernel.AddressSpace.Basic

/-!
# Strings in user memory

The one place where the kernel follows a pointer of a process.  A string ends
before its zero byte, or when the reader's limit is reached; every byte that is
looked at has to lie in a page open to user code.
-/

namespace PagingKernel.AddressSpace

/-- The byte of user memory at an address, if user code may access it. -/
def userByte? (space : AddressSpace) (ram : Ram) (va : VirtAddr) : Except Fault (Option UInt8) := do
  match ← space.dir.lookup ram va with
  | none => return none
  | some mapping =>
      if mapping.flags.user then
        return some (← ram.readByte ⟨mapping.pa.raw + va.pageOffset⟩)
      else return none

/-- At most `limit` bytes of the string at `va`, from its byte number `index` on. -/
def readStringFrom (space : AddressSpace) (ram : Ram) (va : VirtAddr) (index : Nat) :
    (limit : Nat) → Except (Failure AddressSpaceError) (List UInt8)
  | 0 => .ok []
  | limit + 1 => do
      let some pos := va.add? index | throw (.refused (.badUserAddress va))
      match ← (space.userByte? ram pos).mapError .faulted with
      | none => throw (.refused (.badUserAddress pos))
      | some byte =>
          if byte = 0 then return []
          let later ← space.readStringFrom ram va (index + 1) limit
          return byte :: later

/-- The string at a user address without its zero byte, cut off after `limit` bytes. -/
def readString (space : AddressSpace) (ram : Ram) (va : VirtAddr) (limit : Nat) :
    Except (Failure AddressSpaceError) (List UInt8) :=
  space.readStringFrom ram va 0 limit

end PagingKernel.AddressSpace
