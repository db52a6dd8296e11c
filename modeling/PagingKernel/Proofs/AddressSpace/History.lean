import PagingKernel.AddressSpace.Fork
import PagingKernel.Proofs.Action.Carries
import PagingKernel.Proofs.Ledger.History

/-!
# The ledger behind address spaces

Building, copying and releasing address spaces changes the ledger by operations
of the ledger and by nothing else, whatever the spaces look like and wherever
they fail.
-/

namespace PagingKernel

open PagingKernel.Action

variable {ε α : Type}

namespace Memory

/-- Operations of the ledger take the ledger of one memory to that of the other. -/
def Leads (before after : Memory) : Prop :=
  before.ledger.Leads after.ledger

instance : IsPreorder Memory Leads where
  refl memory := Relation.ReflTransGen.refl (a := memory.ledger)
  trans _ _ _ early late := Relation.ReflTransGen.trans early late

/-- What happens in RAM does not concern the ledger. -/
theorem carries_onRam (action : Action Ram ε α) : (onRam action).Carries Leads := by
  rintro ⟨ledger, ram⟩
  unfold after onRam
  dsimp only
  cases action ram <;> exact refl_of Leads ⟨ledger, ram⟩

theorem carries_onLedger {change : Ledger → Except AllocError (α × Ledger)}
    (steps : ∀ before value after, change before = .ok (value, after) → before.Step after) :
    (onLedger change).Carries Leads := by
  rintro ⟨ledger, ram⟩
  unfold Action.after onLedger
  dsimp only
  cases changed : change ledger with
  | ok result => exact Relation.ReflTransGen.single (steps _ result.1 result.2 changed)
  | error cause => exact refl_of Leads ⟨ledger, ram⟩

theorem carries_allocate (pa : PhysAddr) (owner : Owner) : (allocate pa owner).Carries Leads := by
  refine carries_onLedger fun before _ after changed => ?_
  cases done : before.allocate pa owner with
  | error cause =>
      rw [done] at changed
      cases changed
  | ok next =>
      rw [done] at changed
      cases changed
      exact .allocate done

theorem carries_share (pa : PhysAddr) : (share pa).Carries Leads :=
  carries_onLedger fun _ _ _ => .share

theorem carries_release (pa : PhysAddr) : (release pa).Carries Leads :=
  carries_onLedger fun _ _ _ => .release

theorem carries_claimFree (owner : Owner) : (claimFree owner).Carries Leads :=
  carries_get.bind fun _ => (carries_require _ _).bind fun pa =>
    (carries_allocate pa owner).bind fun _ => carries_pure pa

theorem carries_allocZeroed (owner : Owner) : (allocZeroed owner).Carries Leads :=
  (carries_claimFree owner).bind fun pa => (carries_onRam _).bind fun _ => carries_pure pa

end Memory

namespace AddressSpace

open Memory

theorem carries_dropPage (pa : PhysAddr) : (dropPage pa).Carries Leads :=
  ((carries_release pa).mapCause _).bind fun _ => carries_pure ()

/-! ## Mapping pages -/

theorem carries_requireVacant (space : AddressSpace) (va : VirtAddr) (pa : PhysAddr) (i : Nat) :
    (space.requireVacant va pa i).Carries Leads := by
  refine (carries_peek _).bind fun found => ?_
  cases found with
  | none => exact carries_pure ()
  | some existing =>
      dsimp only
      split
      · exact carries_refuse _
      · exact carries_pure ()

theorem carries_installTable (space : AddressSpace) (region : Nat) :
    (space.installTable region).Carries Leads := by
  refine (carries_peek _).bind fun installed => ?_
  split
  · exact ((carries_allocZeroed _).mapCause _).bind fun _ => carries_onRam _
  · exact carries_pure ()

theorem carries_map (space : AddressSpace) (va : VirtAddr) (pa : PhysAddr) (len : Nat)
    (flags : PageFlags) : (space.map va pa len flags).Carries Leads := by
  unfold map
  split
  · exact carries_of_after_eq fun _ => rfl
  · refine (carries_require _ _).bind fun stop => ?_
    refine (carries_forRange (space.carries_requireVacant va pa) _ _).bind fun _ => ?_
    refine (carries_forRange space.carries_installTable _ _).bind fun _ => ?_
    exact (carries_onRam _).mapCause _

/-! ## Building and copying spaces -/

theorem carries_buildKernel : buildKernel.Carries Leads := by
  refine ((carries_allocZeroed _).mapCause _).bind fun root => ?_
  exact (carries_forRange (fun page => carries_map _ (.ofPage page) _ _ _) _ _).bind fun _ =>
    carries_pure _

theorem carries_copyKernelEntry (space kernel : AddressSpace) (page : Nat) :
    (space.copyKernelEntry kernel page).Carries Leads :=
  (carries_peek _).bind fun _ => (carries_onRam _).mapCause _

theorem carries_ofTemplate (kernel : AddressSpace) (pid : Pid) :
    (ofTemplate kernel pid).Carries Leads := by
  refine ((carries_allocZeroed _).mapCause _).bind fun root => ?_
  refine (((carries_allocZeroed _).mapCause _).onRefusal (carries_dropPage root)).bind
    fun table => ?_
  refine (carries_onRam _).bind fun _ => ?_
  exact (carries_forRange (carries_copyKernelEntry _ kernel) _ _).bind fun _ => carries_pure _

theorem carries_copyWritable (child : AddressSpace) (va : VirtAddr) (pa : PhysAddr) :
    (child.copyWritable va pa).Carries Leads :=
  ((carries_claimFree _).mapCause _).bind fun copy => (carries_onRam _).bind fun _ =>
    (child.carries_map va copy _ _).onRefusal (carries_dropPage copy)

theorem carries_shareReadOnly (child : AddressSpace) (va : VirtAddr) (pa : PhysAddr) :
    (child.shareReadOnly va pa).Carries Leads :=
  ((carries_share pa).mapCause _).bind fun _ =>
    (child.carries_map va pa _ _).onRefusal (carries_dropPage pa)

theorem carries_inheritPage (parent child : AddressSpace) (page : Nat) :
    (parent.inheritPage child page).Carries Leads := by
  refine (carries_peek _).bind fun found => ?_
  cases found with
  | none => exact carries_pure ()
  | some mapping =>
      dsimp only
      split
      · exact child.carries_copyWritable _ _
      · split
        · exact child.carries_shareReadOnly _ _
        · exact carries_pure ()

/-! ## Releasing spaces -/

theorem carries_dropMapping (space : AddressSpace) (page : Nat) :
    (space.dropMapping page).Carries Leads := by
  refine (carries_peek _).bind fun found => ?_
  cases found with
  | none => exact carries_pure ()
  | some mapping => exact carries_dropPage mapping.pa

theorem carries_release (space : AddressSpace) : space.release.Carries Leads := by
  refine (carries_forRange space.carries_dropMapping _ _).bind fun _ => ?_
  refine (carries_peek _).bind fun tables => ?_
  exact (carries_forEach (fun _ => carries_dropPage _) tables).bind fun _ => carries_dropPage _

/-- Copying a space, and unwinding the copy, works on the ledger by its operations alone. -/
theorem carries_duplicate (parent kernel : AddressSpace) (child : Pid) :
    (parent.duplicate kernel child).Carries Leads := by
  refine (carries_ofTemplate kernel child).bind fun space => ?_
  have inherited : (parent.inheritPages space).Carries Leads :=
    carries_forRange (parent.carries_inheritPage space) _ _
  exact (inherited.onRefusal space.carries_release).bind fun _ => carries_pure space

end AddressSpace

end PagingKernel
