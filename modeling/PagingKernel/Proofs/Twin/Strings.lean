import PagingKernel.Proofs.AddressSpace.UserString
import PagingKernel.Proofs.Twin.Memory

/-!
# Strings of processes in two memories

The kernel follows a pointer of a process through pages that are open to user
code.  Those are the page of the console, which keeps what it held at boot, and
the pages of the process.  A string that does not begin in the console never
gets there, and so it does not depend on what memory held at boot.
-/

namespace PagingKernel.SpaceView

open PageTable

variable {view : SpaceView} {left right : Ram} {owner : Owner} {va : VirtAddr}

/-- What user code reads outside of the console lies in the process range. -/
theorem Stands.bounds_of_userByte? (stands : view.Stands left) (inside : va.raw < addressLimit)
    (apart : va.pageBase ≠ ⟨consoleAddress⟩) {byte : UInt8}
    (seen : (view.space owner).userByte? left va = .ok (some byte)) :
    processStart ≤ va.raw ∧ va.raw < virtualSize := by
  rw [stands.userByte?_eq va] at seen
  obtain ⟨mapping, found, opened⟩ := Option.bind_eq_some_iff.mp (Except.ok.inj seen)
  by_cases user : mapping.flags.user = true
  · rcases user_cases inside found user with ⟨isConsole, -⟩ | ⟨above, below, -⟩
    · exact absurd isConsole apart
    · exact ⟨above, below⟩
  · rw [if_neg user] at opened
    cases opened

/-- Outside of the console user code reads the same in two memories that hold its pages alike. -/
theorem Stands.userByte?_eq_of_same (onLeft : view.Stands left) (onRight : view.Stands right)
    (same : ∀ place leaf, view.leaf place = some leaf → Ram.SamePage left right leaf.page)
    (inside : va.raw < addressLimit) (apart : va.pageBase ≠ ⟨consoleAddress⟩) :
    (view.space owner).userByte? left va = (view.space owner).userByte? right va := by
  rw [onLeft.userByte?_eq, onRight.userByte?_eq]
  cases found : translation view.word va with
  | none => rfl
  | some mapping =>
      rw [Option.bind_some, Option.bind_some]
      by_cases user : mapping.flags.user = true
      · rw [if_pos user, if_pos user]
        rcases user_cases inside found user with ⟨isConsole, -⟩ | ⟨-, -, place, leaf, mapped, rfl⟩
        · exact absurd isConsole apart
        · have bytes := same place leaf mapped va.pageOffset (Nat.mod_lt _ (by decide))
          rw [Ram.pageByte, Ram.pageByte] at bytes
          rw [Leaf.mapping_pa, PhysAddr.raw_ofPage, bytes]
      · rw [if_neg user, if_neg user]

/-- A string that goes on outside of the console is the same in two memories. -/
theorem Stands.readStringFrom_eq_of_same (onLeft : view.Stands left) (onRight : view.Stands right)
    (same : ∀ place leaf, view.leaf place = some leaf → Ram.SamePage left right leaf.page)
    (owner : Owner) (va : VirtAddr) (index limit : Nat)
    (apart : ∀ pos, va.add? index = some pos →
      pos.raw < addressLimit ∧ pos.pageBase ≠ ⟨consoleAddress⟩) :
    (view.space owner).readStringFrom left va index limit =
      (view.space owner).readStringFrom right va index limit := by
  induction limit generalizing index with
  | zero => rfl
  | succ limit ih =>
      rw [AddressSpace.readStringFrom, AddressSpace.readStringFrom]
      cases reached : va.add? index with
      | none => rfl
      | some pos =>
          obtain ⟨sum, -⟩ := VirtAddr.add?_eq_some_iff.mp reached
          obtain ⟨inside, here⟩ := apart pos reached
          have bytes : (view.space owner).userByte? left pos =
              (view.space owner).userByte? right pos :=
            onLeft.userByte?_eq_of_same onRight same inside here
          dsimp only
          rw [← bytes]
          cases seen : (view.space owner).userByte? left pos with
          | error fault => rfl
          | ok found =>
              cases found with
              | none => rfl
              | some byte =>
                  obtain ⟨above, below⟩ := onLeft.bounds_of_userByte? inside here seen
                  have later := ih (index + 1) fun next isNext => ?_
                  · simp only [Action.mapError_ok, bind, Except.bind, later]
                  · obtain ⟨nextSum, -⟩ := VirtAddr.add?_eq_some_iff.mp isNext
                    simp only [processStart, virtualSize] at above below
                    refine ⟨by simp only [addressLimit]; omega, fun isConsole => ?_⟩
                    have base := congrArg VirtAddr.raw isConsole
                    simp only [VirtAddr.pageBase, pageFloor, pageSize, consoleAddress] at base
                    omega

end PagingKernel.SpaceView
