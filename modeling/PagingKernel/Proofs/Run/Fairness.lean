import Mathlib.Data.Fintype.Card
import Mathlib.Data.Set.List
import PagingKernel.Proofs.Run.Lifetimes

/-!
# Waiting is bounded

Who runs next is decided again at every tick, at every yield and when user code
breaks.  Each such decision resumes a given runnable process or comes nearer to
it, going round the table, whatever system calls are made in between and
whatever processes they create.  So nobody is resumed twice while a process
waits, and a process that can run does not wait for long.
-/

namespace PagingKernel.Run

open Scheduler

/-- The event is a trap after which the scheduler decides who runs. -/
def Event.Reschedules : Event → Prop
  | .trap _ frame => frame.Reschedules
  | _ => False

instance : (event : Event) → Decidable event.Reschedules
  | .trap _ frame => inferInstanceAs (Decidable frame.Reschedules)
  | .enter => inferInstanceAs (Decidable False)
  | .store _ _ => inferInstanceAs (Decidable False)

/-- What the scheduler decides in the steps of a trace, in order. -/
def decisions (past : List Moment) : List Phase :=
  (past.filter (·.event.Reschedules)).map (·.after.phase)

variable {setting : Setting} {first state next last : State} {event : Event}
  {past : List Moment} {moment : Moment} {slot : Fin slotCount}

theorem decisions_snoc_of_reschedules (past : List Moment)
    (reschedules : moment.event.Reschedules) :
    decisions (past ++ [moment]) = decisions past ++ [moment.after.phase] := by
  simp [decisions, reschedules]

theorem decisions_snoc_of_not (past : List Moment) (keeps : ¬moment.event.Reschedules) :
    decisions (past ++ [moment]) = decisions past := by
  simp [decisions, keeps]

/-! ## One step -/

/-- Without a decision of the scheduler the turn stays where it is. -/
theorem turn_of_step (reached : Reached setting state) (step : Step state event next)
    (keeps : ¬event.Reschedules) {pid : Pid} (turn : next.phase.pid? = some pid) :
    state.phase.pid? = some pid := by
  obtain ⟨boot, books, -, regular⟩ := regular_of_reached reached
  cases step with
  | enter kernel entering =>
      obtain ⟨slot, rfl, -, runnable⟩ := regular.phase
      rcases (Kernel.ensures_switchTo Fatal runnable).cases with
          ⟨_, _, ran, -⟩ | ⟨_, _, -, impossible⟩
      · rw [ran] at turn
        exact turn
      · exact impossible.elim
  | store kernel slot address byte mapping permitted =>
      cases stored : storeByte mapping ⟨address.toNat⟩ byte kernel with
      | ok value after =>
          rw [stored] at turn
          exact turn
      | error failure after =>
          rw [stored] at turn
          cases turn
  | trap kernel running faultAddress frame =>
      obtain ⟨⟨slot, rfl, -⟩, -⟩ := regular.phase
      have keepsOn : ¬frame.Reschedules := keeps
      have taken := trapTaken regular faultAddress frame
      generalize State.after Phase.ofDispatch _ = next at taken turn
      rcases taken.next with ⟨decision, isNext, follows⟩ | ⟨⟨failure, stops⟩, -⟩
      · rw [Dispatch.Follows, if_neg keepsOn] at follows
        rw [isNext, follows] at turn
        exact turn
      · rw [stops] at turn
        cases turn

/-- A decision of the scheduler resumes a given runnable process, or one that lies nearer to it. -/
theorem decision_approaches (reached : Reached setting state) (step : Step state event next)
    (reschedules : event.Reschedules) (runnable : next.Runnable slot) :
    ∃ current picked : Fin slotCount, state.phase.pid? = some (.ofIndex current) ∧
      next.phase = .entering (.ofIndex picked) ∧ next.Runnable picked ∧
      (picked = slot ∨ distance picked slot < distance current slot) := by
  obtain ⟨boot, books, -, regular⟩ := regular_of_reached reached
  cases step with
  | enter kernel pid => exact reschedules.elim
  | store kernel slot address byte mapping permitted => exact reschedules.elim
  | trap kernel pid faultAddress frame =>
      obtain ⟨⟨current, rfl, -⟩, -⟩ := regular.phase
      have reschedulesNow : frame.Reschedules := reschedules
      have taken := trapTaken regular faultAddress frame
      generalize State.after Phase.ofDispatch _ = next at taken runnable
      obtain ⟨picked, isPicked, canRun, nearer⟩ := pickNext_approaches runnable
      refine ⟨current, picked, rfl, ?_, canRun, nearer⟩
      rcases taken.next with ⟨decision, isNext, follows⟩ | ⟨-, keeps⟩
      · rw [Dispatch.Follows, if_pos reschedulesNow, isPicked] at follows
        rw [isNext, follows]
        rfl
      · exact absurd reschedulesNow keeps

/-! ## Rounds -/

/-- While a process waits, the decisions resume others, each lying nearer to it than all before,
and the one whose turn it is lies nearest. -/
structure Approaching (slot : Fin slotCount) (past : List Moment) (last : State) : Prop where
  others : ∀ phase ∈ decisions past, ∃ picked : Fin slotCount, phase = .entering (.ofIndex picked) ∧
    picked ≠ slot ∧ picked ≠ ProcessTable.reservedSlot ∧
    ∀ current : Fin slotCount, last.phase.pid? = some (.ofIndex current) →
      distance current slot ≤ distance picked slot
  nodup : (decisions past).Nodup

/-- A process that goes on waiting is approached. -/
theorem Approaching.snoc {past : List Moment} (approaching : Approaching slot past state)
    (reached : Reached setting state) (step : Step state event next) (runnable : next.Runnable slot)
    (waits : Phase.entering (.ofIndex slot) ∉ decisions (past ++ [⟨state, event, next⟩])) :
    Approaching slot (past ++ [⟨state, event, next⟩]) next := by
  by_cases reschedules : event.Reschedules
  · obtain ⟨current, picked, turn, isNext, canRun, nearer⟩ :=
      decision_approaches reached step reschedules runnable
    have longer : decisions (past ++ [⟨state, event, next⟩]) =
        decisions past ++ [.entering (.ofIndex picked)] := by
      rw [decisions_snoc_of_reschedules past reschedules, isNext]
    rw [longer] at waits
    have apart : picked ≠ slot := by
      rintro rfl
      exact waits (by simp)
    have closer : distance picked slot < distance current slot := nearer.resolve_left apart
    have nearest : ∀ other : Fin slotCount, next.phase.pid? = some (.ofIndex other) →
        other = picked := by
      intro other turn
      rw [isNext] at turn
      exact (ProcessTable.ofIndex_injective (Option.some.inj turn)).symm
    refine ⟨?_, ?_⟩
    · rw [longer]
      intro phase listed
      rcases List.mem_append.mp listed with earlier | isLast
      · obtain ⟨other, isOther, notSlot, notReserved, above⟩ := approaching.others phase earlier
        refine ⟨other, isOther, notSlot, notReserved, fun now nowTurn => ?_⟩
        rw [nearest now nowTurn]
        exact (Nat.le_of_lt closer).trans (above current turn)
      · obtain rfl := List.mem_singleton.mp isLast
        refine ⟨picked, rfl, apart, ?_, fun now nowTurn => by rw [nearest now nowTurn]⟩
        exact canRun.ne_reserved (reached.step step)
    · rw [longer]
      refine List.nodup_append.mpr ⟨approaching.nodup, List.nodup_singleton _, ?_⟩
      intro phase earlier other isLast same
      obtain rfl := List.mem_singleton.mp isLast
      obtain ⟨before, isBefore, -, -, above⟩ := approaching.others phase earlier
      rw [isBefore] at same
      obtain rfl := ProcessTable.ofIndex_injective (Phase.entering.inj same)
      exact absurd closer (Nat.not_lt_of_le (above current turn))
  · rw [decisions_snoc_of_not past reschedules] at waits
    have same : decisions (past ++ [⟨state, event, next⟩]) = decisions past :=
      decisions_snoc_of_not past reschedules
    refine ⟨?_, ?_⟩
    · rw [same]
      intro phase listed
      obtain ⟨picked, isPicked, notSlot, notReserved, above⟩ := approaching.others phase listed
      exact ⟨picked, isPicked, notSlot, notReserved, fun current turn =>
        above current (turn_of_step reached step reschedules turn)⟩
    · rw [same]
      exact approaching.nodup

/-- The processes resumed in the meantime are distinct, and neither the one that waits nor the
reserved one. -/
theorem Approaching.length_le {past : List Moment} (approaching : Approaching slot past last)
    (notReserved : slot ≠ ProcessTable.reservedSlot) :
    (decisions past).length + 2 ≤ slotCount := by
  have ranged : decisions past ∈ Set.range
      (List.map fun picked : Fin slotCount => Phase.entering (.ofIndex picked)) := by
    rw [Set.range_list_map]
    intro phase listed
    obtain ⟨picked, isPicked, -⟩ := approaching.others phase listed
    exact ⟨picked, isPicked.symm⟩
  obtain ⟨picks, isPicks⟩ := ranged
  have listed (picked : Fin slotCount) (member : picked ∈ picks) :
      picked ≠ slot ∧ picked ≠ ProcessTable.reservedSlot := by
    have among : Phase.entering (.ofIndex picked) ∈ decisions past := by
      rw [← isPicks]
      exact List.mem_map_of_mem member
    obtain ⟨other, same, notSlot, notZero, -⟩ := approaching.others _ among
    obtain rfl := ProcessTable.ofIndex_injective (Phase.entering.inj same)
    exact ⟨notSlot, notZero⟩
  have distinct : (ProcessTable.reservedSlot :: slot :: picks).Nodup := by
    refine List.nodup_cons.mpr ⟨?_, List.nodup_cons.mpr ⟨?_, ?_⟩⟩
    · intro member
      rcases List.mem_cons.mp member with isSlot | isPick
      · exact notReserved isSlot.symm
      · exact (listed _ isPick).2 rfl
    · exact fun member => (listed _ member).1 rfl
    · have nodup := approaching.nodup
      rw [← isPicks] at nodup
      exact nodup.of_map _
  have bound := distinct.length_le_card
  rw [Fintype.card_fin] at bound
  rw [← isPicks, List.length_map]
  exact bound

/-- A process that can run all along is resumed in a bounded number of decisions, or approached. -/
theorem Trace.resumed_or_approaching (reached : Reached setting first)
    (trace : Trace first past last) (stays : ∀ moment ∈ past, moment.after.Runnable slot) :
    Phase.entering (.ofIndex slot) ∈ (decisions past).take (slotCount - 1) ∨
      Phase.entering (.ofIndex slot) ∉ decisions past ∧ Approaching slot past last := by
  induction trace with
  | nil =>
      exact .inr ⟨List.not_mem_nil, fun _ impossible => (by cases impossible), List.nodup_nil⟩
  | @snoc past state next event trace step ih =>
      have reachedState := trace.reached reached
      rcases ih fun moment listed => stays moment (List.mem_append_left _ listed) with
        resumed | ⟨waits, approaching⟩
      · refine .inl ?_
        by_cases reschedules : event.Reschedules
        · rw [decisions_snoc_of_reschedules past reschedules, List.take_append]
          exact List.mem_append_left _ resumed
        · rw [decisions_snoc_of_not past reschedules]
          exact resumed
      · have runnableNext : next.Runnable slot := stays ⟨state, event, next⟩ (by simp)
        by_cases waitsOn :
            Phase.entering (.ofIndex slot) ∉ decisions (past ++ [⟨state, event, next⟩])
        · exact .inr ⟨waitsOn, approaching.snoc reachedState step runnableNext waitsOn⟩
        · refine .inl ?_
          have few := approaching.length_le (runnableNext.ne_reserved (reachedState.step step))
          have short : (decisions (past ++ [⟨state, event, next⟩])).length ≤ slotCount - 1 := by
            by_cases reschedules : event.Reschedules
            · rw [decisions_snoc_of_reschedules past reschedules, List.length_append,
                List.length_singleton]
              omega
            · rw [decisions_snoc_of_not past reschedules]
              omega
          rw [List.take_of_length_le short]
          exact not_not.mp waitsOn

/-! ## Bounded waiting -/

/-- A step in which the scheduler resumes the process of a slot. -/
def Moment.Picks (moment : Moment) (slot : Fin slotCount) : Prop :=
  moment.event.Reschedules ∧ moment.after.phase = .entering (.ofIndex slot)

/-- Whoever can run all along is resumed by one of the next decisions of the scheduler. -/
def WaitsBriefly (slot : Fin slotCount) (first : State) (future : List Moment) : Prop :=
  first.Runnable slot → (∀ moment ∈ future, moment.after.Runnable slot) →
    slotCount - 1 ≤ (decisions future).length →
    Phase.entering (.ofIndex slot) ∈ (decisions future).take (slotCount - 1)

/-- Between two consecutive times that a process is resumed no other is resumed twice. -/
def TakesTurns (slot : Fin slotCount) (future : List Moment) : Prop :=
  ∀ earlier resume between again later,
    future = earlier ++ resume :: (between ++ again :: later) →
    resume.Picks slot → again.Picks slot →
    Phase.entering (.ofIndex slot) ∉ decisions between → (decisions between).Nodup

theorem Trace.takesTurns (reached : Reached setting first) (trace : Trace first past last) :
    TakesTurns slot past := by
  rintro earlier resume between again later rfl resumes resumesAgain waits
  obtain ⟨middle, early, rest⟩ := trace.of_append
  obtain ⟨rfl, step, rest⟩ := rest.of_cons
  have reachedResumed := (early.reached reached).step step
  obtain ⟨state, meantime, rest⟩ := rest.of_append
  obtain ⟨rfl, stepAgain, -⟩ := rest.of_cons
  have resumed : resume.after.Runnable slot :=
    runnable_of_turn reachedResumed (by rw [resumes.2]; rfl)
  have reachedState := meantime.reached reachedResumed
  have atEnd : again.before.Runnable slot := by
    refine runnable_of_step reachedState stepAgain (meantime.live reachedResumed resumed.live) ?_
    exact runnable_of_turn (reachedState.step stepAgain) (by rw [resumesAgain.2]; rfl)
  obtain ⟨-, stays⟩ := meantime.runnable reachedResumed resumed.live atEnd
  rcases meantime.resumed_or_approaching reachedResumed stays with
    among | ⟨-, approaching⟩
  · exact absurd (List.mem_of_mem_take among) waits
  · exact approaching.nodup

/-- In every run the scheduler picks the nearest runnable process, a process that can run waits
for fewer decisions than there are other slots, and processes take turns. -/
theorem waiting_is_bounded (reached : Reached setting first) (trace : Trace first past last)
    (slot : Fin slotCount) :
    (∀ table current, Picks table current (pickNext table current)) ∧
      WaitsBriefly slot first past ∧ TakesTurns slot past := by
  refine ⟨picks_pickNext, fun runnable stays many => ?_, trace.takesTurns reached⟩
  rcases trace.resumed_or_approaching reached stays with resumed | ⟨-, approaching⟩
  · exact resumed
  · have few := approaching.length_le (runnable.ne_reserved reached)
    omega

/-! ## A run of yields -/

/-- The registers with which a program yields first of all. -/
def yieldFrame : TrapFrame :=
  { TrapFrame.user with vector := Interrupt.yield }

theorem not_fault_of_yield {faultAddress : Nat} {frame : TrapFrame}
    (traps : Moment.TrapsWith ⟨state, .trap faultAddress yieldFrame, next⟩ slot frame) :
    frame.vector ≠ Interrupt.pageFault := by
  obtain ⟨-, _, same⟩ := traps
  cases same
  decide

/-- User code that yields is followed by user code, and whoever could run still can. -/
theorem exists_yield {kernel : Kernel} {current : Fin slotCount}
    (reached : Reached setting ⟨kernel, .user (.ofIndex current)⟩) :
    ∃ (next : State) (entered : Kernel) (picked : Fin slotCount),
      Step ⟨kernel, .user (.ofIndex current)⟩ (.trap 0 yieldFrame) next ∧
      Step next .enter ⟨entered, .user (.ofIndex picked)⟩ ∧
      ∀ slot, State.Runnable ⟨kernel, .user (.ofIndex current)⟩ slot →
        next.Runnable slot ∧ State.Runnable ⟨entered, .user (.ofIndex picked)⟩ slot := by
  have yields := Step.trap kernel (.ofIndex current) 0 yieldFrame
  generalize State.after Phase.ofDispatch _ = next at yields
  have goesOn (slot : Fin slotCount)
      (runnable : State.Runnable ⟨kernel, .user (.ofIndex current)⟩ slot) : next.Runnable slot :=
    runnable_after_step reached yields runnable fun frame traps => not_fault_of_yield traps
  have reschedules : (Event.trap 0 yieldFrame).Reschedules := .inr (.inl rfl)
  obtain ⟨_, picked, -, isNext, -⟩ := decision_approaches reached yields reschedules
    (goesOn current (runnable_of_turn reached rfl))
  rcases next with ⟨chosen, phase⟩
  dsimp only at isNext
  subst isNext
  have reachedNext := reached.step yields
  obtain ⟨entered, other, same, enters, -⟩ := exists_entered reachedNext
  obtain rfl := ProcessTable.ofIndex_injective same
  refine ⟨_, entered, picked, yields, enters, fun slot runnable => ⟨goesOn slot runnable, ?_⟩⟩
  exact runnable_after_step reachedNext enters (goesOn slot runnable)
    fun frame traps => by cases traps.1

/-- User code may yield any number of times, and whoever can run goes on being able to. -/
theorem exists_yields {kernel : Kernel} {current : Fin slotCount}
    (reached : Reached setting ⟨kernel, .user (.ofIndex current)⟩) (count : Nat) :
    ∃ (past : List Moment) (last : Kernel) (picked : Fin slotCount),
      Trace ⟨kernel, .user (.ofIndex current)⟩ past ⟨last, .user (.ofIndex picked)⟩ ∧
      (decisions past).length = count ∧
      ∀ slot, State.Runnable ⟨kernel, .user (.ofIndex current)⟩ slot →
        State.Runnable ⟨last, .user (.ofIndex picked)⟩ slot ∧
        ∀ moment ∈ past, moment.after.Runnable slot := by
  induction count with
  | zero => exact ⟨[], kernel, current, .nil, rfl, fun slot runnable =>
      ⟨runnable, fun _ impossible => by cases impossible⟩⟩
  | succ count ih =>
      obtain ⟨past, last, picked, trace, isCount, goOn⟩ := ih
      obtain ⟨next, entered, chosen, yields, enters, goOnStill⟩ :=
        exists_yield (trace.reached reached)
      refine ⟨_, entered, chosen, (trace.snoc yields).snoc enters, ?_, fun slot runnable => ?_⟩
      · have reschedules : (Event.trap 0 yieldFrame).Reschedules := .inr (.inl rfl)
        have calm : ¬Event.Reschedules
            (Moment.event ⟨next, .enter, ⟨entered, .user (.ofIndex chosen)⟩⟩) := id
        rw [decisions_snoc_of_not _ calm, decisions_snoc_of_reschedules past reschedules,
          List.length_append, isCount]
        rfl
      · obtain ⟨atLast, earlier⟩ := goOn slot runnable
        obtain ⟨atNext, atEnd⟩ := goOnStill slot atLast
        refine ⟨atEnd, fun moment listed => ?_⟩
        rcases List.mem_append.mp listed with isEarlier | isEnter
        · rcases List.mem_append.mp isEarlier with isPast | isYield
          · exact earlier moment isPast
          · obtain rfl := List.mem_singleton.mp isYield
            exact atNext
        · obtain rfl := List.mem_singleton.mp isEnter
          exact atEnd

/-- The first process of a run from blank memory is resumed by one of the next fifteen yields. -/
theorem small_waiting_is_bounded :
    ∃ (first last : State) (past : List Moment) (slot : Fin slotCount), Reached .small first ∧
      Trace first past last ∧ (decisions past).length = 15 ∧ first.Runnable slot ∧
      TakesTurns slot past ∧
      Phase.entering (.ofIndex slot) ∈ (decisions past).take 15 := by
  obtain ⟨kernel, slot, reached, runnable⟩ := Setting.suitable_small.exists_running
  obtain ⟨past, last, picked, trace, isCount, goOn⟩ := exists_yields reached (slotCount - 1)
  obtain ⟨-, waits, turns⟩ := waiting_is_bounded reached trace slot
  exact ⟨_, _, past, slot, reached, trace, isCount, runnable, turns,
    waits runnable (goOn slot runnable).2 (Nat.le_of_eq isCount.symm)⟩

end PagingKernel.Run
