import PagingKernel.Proofs.Action.Carries
import PagingKernel.Proofs.Ledger.History
import PagingKernel.Proofs.Memory.Claims

/-!
# Accounts of the ledger

The ledger may be asked for anything: any call, any address, any owner, in any
order.  An account lists the calls that succeeded since boot, the last first.
It determines every entry: the references to a page are those it had at boot and
those that were added, less those that were dropped, and its owner is whom it
was last allocated to.

What a single call does to an entry is said once, by `Changes`; the account of
any number of calls follows by induction.
-/

namespace PagingKernel.Ledger

/-- A call of the ledger. -/
inductive Request where
  /-- Makes an owner the only user of a page. -/
  | allocate (pa : PhysAddr) (owner : Owner)
  /-- Adds a reference to a page. -/
  | share (pa : PhysAddr)
  /-- Drops a reference to a page. -/
  | release (pa : PhysAddr)
  /-- Asks for the lowest free page. -/
  | findFree

/-- What the ledger answers to a call. -/
inductive Reply where
  /-- The page was allocated. -/
  | allocated
  /-- The page has this many references now. -/
  | counted (refcount : Nat)
  /-- The lowest free page, if there is one. -/
  | found (pa : Option PhysAddr)

namespace Request

/-- Makes a call. -/
def perform : Request → Action Memory AllocError Reply
  | allocate pa owner => do
      Memory.allocate pa owner
      return .allocated
  | share pa => do return .counted (← Memory.share pa)
  | release pa => do return .counted (← Memory.release pa)
  | findFree => do return .found (← get).ledger.findFree

/-- The address that a call names. -/
def target? : Request → Option PhysAddr
  | allocate pa _ | share pa | release pa => some pa
  | findFree => none

/-- Whether a call that succeeds adds a reference to a page. -/
def adds (page : Fin pageCount) : Request → Bool
  | allocate pa _ | share pa => pa = .ofPage page
  | release _ | findFree => false

/-- Whether a call that succeeds drops a reference to a page. -/
def drops (page : Fin pageCount) : Request → Bool
  | release pa => pa = .ofPage page
  | allocate _ _ | share _ | findFree => false

/-- To whom a call that succeeds allocates a page. -/
def grants? (page : Fin pageCount) : Request → Option Owner
  | allocate pa owner => if pa = .ofPage page then some owner else none
  | share _ | release _ | findFree => none

end Request

/-- The calls that succeeded on the way from one memory to another, the last first. -/
inductive Account (start : Memory) : List Request → Memory → Prop
  | start : Account start [] start
  | succeeded {past : List Request} {before after : Memory} {request : Request} {reply : Reply}
      (earlier : Account start past before) (ran : request.perform before = .ok reply after) :
      Account start (request :: past) after
  | failed {past : List Request} {before after : Memory} {request : Request}
      {failure : Failure AllocError} (earlier : Account start past before)
      (ran : request.perform before = .error failure after) : Account start past after

/-- The entries of a ledger are those at boot, changed as the account says. -/
structure Explains (past : List Request) (boot ledger : Ledger) : Prop where
  refcount : ∀ page, (ledger.entry page).refcount + past.countP (·.drops page) =
    (if (boot.entry page).owner = .free then 0 else 1) + past.countP (·.adds page)
  refcount_le : ∀ page, (ledger.entry page).refcount ≤ refcountLimit
  owner_eq_free_iff : ∀ page,
    (ledger.entry page).owner = .free ↔ (ledger.entry page).refcount = 0
  owner : ∀ page, (ledger.entry page).refcount ≠ 0 →
    (ledger.entry page).owner = (past.findSome? (·.grants? page)).getD (boot.entry page).owner

/-- The ledger does what it is asked for, and nothing else. -/
structure Serves (memory : Memory) : Prop where
  others : ∀ (request : Request) (page : Fin pageCount), request.target? ≠ some (.ofPage page) →
    (request.perform.after memory).ledger.entry page = memory.ledger.entry page
  refused : ∀ (request : Request) (failure : Failure AllocError) (after : Memory),
    request.perform memory = .error failure after →
      (∃ cause, failure = .refused cause) ∧ after = memory
  allocates_iff : ∀ pa owner,
    (∃ after, Memory.allocate pa owner memory = .ok () after) ↔
      pa.isAligned = true ∧ pa.raw < physicalSize ∧ owner ≠ .free ∧
        ∃ info, memory.ledger.info pa = .ok info ∧ info.refcount = 0
  finds_iff : ∀ pa, memory.ledger.findFree = some pa ↔
    ∃ page : Fin pageCount, pa = .ofPage page ∧ (memory.ledger.entry page).refcount = 0 ∧
      ∀ lower < page, (memory.ledger.entry lower).refcount ≠ 0
  findsNone_iff : memory.ledger.findFree = none ↔ memory.ledger.freePages = 0

variable {start memory before after : Memory} {past : List Request} {request : Request}
  {page : Fin pageCount}

/-! ## What one call does -/

/-- What a call that succeeds does to the entry of a page. -/
structure Changes (request : Request) (page : Fin pageCount) (old new : PageInfo) : Prop where
  refcount : new.refcount + (if request.drops page then 1 else 0) =
    old.refcount + if request.adds page then 1 else 0
  granted : ∀ owner ∈ request.grants? page, new.owner = owner
  kept : request.grants? page = none → new.refcount ≠ 0 →
    old.refcount ≠ 0 ∧ new.owner = old.owner

/-- A call does nothing to a page that it does not name. -/
theorem changes_of_ne (other : request.target? ≠ some (.ofPage page)) (info : PageInfo) :
    Changes request page info info := by
  cases request with
  | allocate pa owner | share pa | release pa =>
      have apart : pa ≠ .ofPage page := fun same => other (congrArg some same)
      constructor <;> simp [Request.drops, Request.adds, Request.grants?, apart]
  | findFree => constructor <;> simp [Request.drops, Request.adds, Request.grants?]

/-- A change of the ledger that is made leaves RAM alone. -/
theorem onLedger_eq_ok_iff {α : Type} {change : Ledger → Except AllocError (α × Ledger)}
    {value : α} : Memory.onLedger change before = .ok value after ↔
      ∃ next, change before.ledger = .ok (value, next) ∧ after = ⟨next, before.ram⟩ := by
  obtain ⟨ledger, ram⟩ := before
  simp only [Memory.onLedger]
  cases change ledger with
  | ok result =>
      constructor
      · intro ran
        cases ran
        exact ⟨_, rfl, rfl⟩
      · rintro ⟨next, changed, rfl⟩
        cases changed
        rfl
  | error cause => simp

theorem onLedger_eq_error {α : Type} {change : Ledger → Except AllocError (α × Ledger)}
    {failure : Failure AllocError} (ran : Memory.onLedger change before = .error failure after) :
    (∃ cause, failure = .refused cause) ∧ after = before := by
  obtain ⟨ledger, ram⟩ := before
  simp only [Memory.onLedger] at ran
  cases changed : change ledger with
  | ok result =>
      rw [changed] at ran
      cases ran
  | error cause =>
      rw [changed] at ran
      cases ran
      exact ⟨⟨cause, rfl⟩, rfl⟩

theorem allocate_eq_ok_memory_iff {pa : PhysAddr} {owner : Owner} :
    Memory.allocate pa owner before = .ok () after ↔
      ∃ page : Fin pageCount, pa = .ofPage page ∧ owner ≠ .free ∧
        (before.ledger.entry page).refcount = 0 ∧
        after = ⟨before.ledger.setEntry page ⟨owner, 1⟩, before.ram⟩ := by
  rw [Memory.allocate, onLedger_eq_ok_iff]
  constructor
  · rintro ⟨next, done, rfl⟩
    cases allocated : before.ledger.allocate pa owner with
    | error cause =>
        rw [allocated] at done
        cases done
    | ok ledger =>
        rw [allocated] at done
        cases done
        obtain ⟨page, isBase, owned, unreferenced, rfl⟩ := allocate_eq_ok_iff.mp allocated
        exact ⟨page, isBase, owned, unreferenced, rfl⟩
  · rintro ⟨page, isBase, owned, unreferenced, rfl⟩
    refine ⟨_, ?_, rfl⟩
    rw [allocate_eq_ok_iff.mpr ⟨page, isBase, owned, unreferenced, rfl⟩]
    rfl

/-- A call that succeeds replaces the entry of the page that it names, or nothing. -/
theorem exists_changes {reply : Reply} (ran : request.perform before = .ok reply after) :
    (request.target? = none ∧ after = before) ∨
      ∃ (page : Fin pageCount) (info : PageInfo), request.target? = some (.ofPage page) ∧
        after = ⟨before.ledger.setEntry page info, before.ram⟩ ∧
        Step before.ledger (before.ledger.setEntry page info) ∧
        Changes request page (before.ledger.entry page) info := by
  cases request with
  | allocate pa owner =>
      obtain ⟨_, _, allocated, isLast⟩ := Action.bind_eq_ok_iff.mp ran
      cases isLast
      obtain ⟨page, rfl, owned, unreferenced, rfl⟩ := allocate_eq_ok_memory_iff.mp allocated
      have done := allocate_eq_ok_iff.mpr ⟨page, rfl, owned, unreferenced, rfl⟩
      refine .inr ⟨page, _, rfl, rfl, .allocate done, ?_, ?_, ?_⟩ <;>
        simp [Request.drops, Request.adds, Request.grants?, unreferenced]
  | share pa =>
      obtain ⟨_, _, shared, isLast⟩ := Action.bind_eq_ok_iff.mp ran
      cases isLast
      obtain ⟨_, done, rfl⟩ := onLedger_eq_ok_iff.mp shared
      obtain ⟨page, rfl, referenced, -, -, rfl⟩ := share_eq_ok_iff.mp done
      refine .inr ⟨page, _, rfl, rfl, .share done, ?_, ?_, ?_⟩ <;>
        simp [Request.drops, Request.adds, Request.grants?, referenced]
  | release pa =>
      obtain ⟨_, _, released, isLast⟩ := Action.bind_eq_ok_iff.mp ran
      cases isLast
      obtain ⟨_, done, rfl⟩ := onLedger_eq_ok_iff.mp released
      obtain ⟨page, rfl, counted, rfl⟩ := release_eq_ok_iff.mp done
      refine .inr ⟨page, _, rfl, rfl, .release done, ?_, ?_, ?_⟩ <;>
        simp +contextual [Request.drops, Request.adds, Request.grants?, counted]
  | findFree =>
      cases ran
      exact .inl ⟨rfl, rfl⟩

theorem changes_of_perform {reply : Reply} (ran : request.perform before = .ok reply after)
    (page : Fin pageCount) :
    Changes request page (before.ledger.entry page) (after.ledger.entry page) := by
  rcases exists_changes ran with ⟨untargeted, rfl⟩ | ⟨named, info, target, rfl, -, changes⟩
  · exact changes_of_ne (by simp [untargeted]) _
  · rw [entry_setEntry]
    split
    · rename_i same
      exact same ▸ changes
    · rename_i apart
      refine changes_of_ne (fun same => apart ?_) _
      rw [target, Option.some.injEq, PhysAddr.ofPage_inj] at same
      exact same.symm

/-- A call that fails is refused, and changes nothing. -/
theorem refused_of_perform {failure : Failure AllocError}
    (ran : request.perform before = .error failure after) :
    (∃ cause, failure = .refused cause) ∧ after = before := by
  cases request with
  | allocate pa owner | share pa | release pa =>
      rcases Action.bind_eq_error_iff.mp ran with denied | ⟨_, _, -, impossible⟩
      · exact onLedger_eq_error denied
      · cases impossible
  | findFree => cases ran

/-! ## What any number of calls do -/

theorem Account.leads (account : Account start past memory) :
    Leads start.ledger memory.ledger := by
  induction account with
  | start => exact .refl
  | succeeded earlier ran ih =>
      rcases exists_changes ran with ⟨-, rfl⟩ | ⟨_, _, -, rfl, step, -⟩
      · exact ih
      · exact ih.tail step
  | failed earlier ran ih =>
      obtain ⟨-, rfl⟩ := refused_of_perform ran
      exact ih

/-- References are kept account of: those that were added, less those that were dropped. -/
theorem Account.refcount_add_drops (account : Account start past memory) (page : Fin pageCount) :
    (memory.ledger.entry page).refcount + past.countP (·.drops page) =
      (start.ledger.entry page).refcount + past.countP (·.adds page) := by
  induction account with
  | start => rfl
  | succeeded earlier ran ih =>
      have changed := (changes_of_perform ran page).refcount
      rw [List.countP_cons, List.countP_cons]
      omega
  | failed earlier ran ih =>
      obtain ⟨-, rfl⟩ := refused_of_perform ran
      exact ih

/-- A page with references belongs to whom it was last allocated to. -/
theorem Account.owner_eq (account : Account start past memory) {page : Fin pageCount}
    (referenced : (memory.ledger.entry page).refcount ≠ 0) :
    (memory.ledger.entry page).owner =
      (past.findSome? (·.grants? page)).getD (start.ledger.entry page).owner := by
  induction account with
  | start => rfl
  | @succeeded _ _ _ request _ earlier ran ih =>
      have changes := changes_of_perform ran page
      rw [List.findSome?_cons]
      cases granted : request.grants? page with
      | some owner => exact changes.granted owner granted
      | none =>
          obtain ⟨held, same⟩ := changes.kept granted referenced
          rw [same]
          exact ih held
  | failed earlier ran ih =>
      obtain ⟨-, rfl⟩ := refused_of_perform ran
      exact ih referenced

/-! ## The ledger from boot on -/

theorem AtBoot.refcount_eq (atBoot : start.ledger.AtBoot) (page : Fin pageCount) :
    (start.ledger.entry page).refcount =
      if (start.ledger.entry page).owner = .free then 0 else 1 := by
  rcases atBoot page with entry_eq | entry_eq | entry_eq <;> rw [entry_eq] <;> rfl

theorem explains_of_account (atBoot : start.ledger.AtBoot) (account : Account start past memory) :
    Explains past start.ledger memory.ledger := by
  have proper := account.leads.proper atBoot.proper
  refine ⟨fun page => ?_, fun page => (proper page).refcount_le,
    fun page => (proper page).owner_eq_free_iff, fun page => account.owner_eq⟩
  rw [← atBoot.refcount_eq page]
  exact account.refcount_add_drops page

/-- The base of a page of memory has an entry, and nothing else has. -/
theorem info_eq_ok_iff {ledger : Ledger} {pa : PhysAddr} {info : PageInfo} :
    ledger.info pa = .ok info ↔
      ∃ page : Fin pageCount, pa = .ofPage page ∧ info = ledger.entry page := by
  unfold Ledger.info
  constructor
  · cases numbered : pageNumber pa with
    | error cause => exact fun impossible => by cases impossible
    | ok page =>
        intro found
        cases found
        exact ⟨page, pageNumber_eq_ok_iff.mp numbered, rfl⟩
  · rintro ⟨page, rfl, rfl⟩
    rw [pageNumber_ofPage]
    rfl

theorem serves_of_tidy (tidy : memory.ledger.Tidy) : Serves memory where
  others request page elsewhere := by
    cases ran : request.perform memory with
    | ok reply after =>
        rw [Action.after_of_eq_ok ran]
        rcases exists_changes ran with ⟨-, rfl⟩ | ⟨named, info, target, rfl, -, -⟩
        · rfl
        · rw [entry_setEntry, if_neg]
          rintro rfl
          exact elsewhere target
    | error failure after =>
        rw [Action.after_of_eq_error ran, (refused_of_perform ran).2]
  refused request failure after ran := refused_of_perform ran
  allocates_iff pa owner := by
    simp only [allocate_eq_ok_memory_iff, info_eq_ok_iff]
    constructor
    · rintro ⟨_, page, rfl, owned, unreferenced, -⟩
      exact ⟨PhysAddr.isAligned_ofPage page, PhysAddr.raw_ofPage_lt page, owned, _,
        ⟨page, rfl, rfl⟩, unreferenced⟩
    · rintro ⟨-, -, owned, _, ⟨page, rfl, rfl⟩, unreferenced⟩
      exact ⟨_, page, rfl, owned, unreferenced, rfl⟩
  finds_iff pa := by
    simp only [findFree_eq_some_iff tidy, Taken, not_not]
  findsNone_iff := by
    rw [findFree_eq_none_iff tidy, freePages_eq_zero_iff]

/-- From boot on a page is allocated and shared, and a release of what is no page is refused. -/
theorem exists_shared_page : ∃ start memory, Memory.ofLayout {} .blank = .ok start ∧
    start.ledger.entry 256 = .unowned ∧
    Account start [.share (.ofPage 256), .allocate (.ofPage 256) (.process ⟨1⟩)] memory := by
  obtain ⟨boot, laidOut⟩ := exists_ofLayout (show pageSize ≤ ({} : Layout).stackTop by decide)
  have free : boot.entry 256 = .unowned :=
    entry_of_above laidOut (by decide) (by decide) (by decide) (by decide)
  have unreferenced : (boot.entry 256).refcount = 0 := congrArg PageInfo.refcount free
  have allocated : Memory.allocate (.ofPage 256) (.process ⟨1⟩) ⟨boot, .blank⟩ = .ok () _ :=
    allocate_eq_ok_memory_iff.mpr ⟨256, rfl, by decide, unreferenced, rfl⟩
  have once : ((boot.setEntry 256 ⟨.process ⟨1⟩, 1⟩).entry 256).refcount = 1 :=
    congrArg PageInfo.refcount (entry_setEntry_self ..)
  have shared : Memory.share (.ofPage 256) ⟨boot.setEntry 256 ⟨.process ⟨1⟩, 1⟩, .blank⟩ =
      .ok _ _ :=
    onLedger_eq_ok_iff.mpr ⟨_, share_eq_ok_iff.mpr
      ⟨256, rfl, by rw [once]; decide, by rw [once]; decide, rfl, rfl⟩, rfl⟩
  have first : Request.perform (.allocate (.ofPage 256) (.process ⟨1⟩)) ⟨boot, .blank⟩ =
      .ok .allocated _ := Action.bind_eq_ok_iff.mpr ⟨_, _, allocated, rfl⟩
  have second : Request.perform (.share (.ofPage 256)) _ = .ok (.counted _) _ :=
    Action.bind_eq_ok_iff.mpr ⟨_, _, shared, rfl⟩
  have third (memory : Memory) : Request.perform (.release ⟨0x100001⟩) memory =
      .error (.refused .unaligned) memory := rfl
  exact ⟨_, _, Memory.ofLayout_eq_ok_iff.mpr ⟨boot, laidOut, rfl⟩, free,
    ((Account.start.succeeded first).succeeded second).failed (third _)⟩

/-- Whatever the ledger was asked for since boot, its account explains it, and it serves on. -/
theorem accounts_are_exact {layout : Layout} {ram : Ram}
    (divided : Memory.ofLayout layout ram = .ok start) (account : Account start past memory) :
    Explains past start.ledger memory.ledger ∧ Serves memory := by
  obtain ⟨boot, laidOut, rfl⟩ := Memory.ofLayout_eq_ok_iff.mp divided
  have atBoot := atBoot_of_ofLayout laidOut
  exact ⟨explains_of_account atBoot account,
    serves_of_tidy (account.leads.proper atBoot.proper).tidy⟩

/-- A page that was allocated and shared has two references, and its owner is the first to ask. -/
theorem shared_page_is_accounted : ∃ start memory,
    Memory.ofLayout {} .blank = .ok start ∧
    Account start [.share (.ofPage 256), .allocate (.ofPage 256) (.process ⟨1⟩)] memory ∧
    memory.ledger.entry 256 = ⟨.process ⟨1⟩, 2⟩ ∧ Serves memory := by
  obtain ⟨start, memory, divided, free, account⟩ := exists_shared_page
  obtain ⟨explains, serves⟩ := accounts_are_exact divided account
  have counted := explains.refcount 256
  rw [free] at counted
  have two : (memory.ledger.entry 256).refcount = 2 := counted
  have owner : (memory.ledger.entry 256).owner = .process ⟨1⟩ := by
    rw [explains.owner 256 (by rw [two]; decide)]
    simp [Request.grants?, pageCount]
  exact ⟨start, memory, divided, account, congrArg₂ PageInfo.mk owner two, serves⟩

end PagingKernel.Ledger
