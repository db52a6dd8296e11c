import PagingKernel.Proofs.AddressSpace.Template
import PagingKernel.Proofs.AddressSpace.UserString

/-!
# What reading a user string gives

A directory may hold any entries, as long as those that are present refer to
physical memory.  `AddressSpace.Shows` says which byte user code sees some bytes
after an address, and `AddressSpace.IsString` what the string at an address is
in those terms alone.  Reading gives exactly that string.  It is refused where
the first byte that would be needed is not shown, and what lies in pages that
are not open to user code has no part in it.
-/

namespace PagingKernel

open PageTable

/-! ## Directories that stay in memory -/

/-- The entries of a directory and of its page tables that are present refer to memory. -/
structure Directory.PointsInside (dir : Directory) (ram : Ram) : Prop where
  root : Ram.Covers dir.root pageSize
  tables : ∀ slot < entryCount, ∀ table, dir.table? ram slot = .ok (some table) →
    table.raw < physicalSize
  pages : ∀ slot < entryCount, ∀ table, dir.table? ram slot = .ok (some table) →
    ∀ index < entryCount, ∀ entry mapping, readEntry ram table index = .ok entry →
      decodeEntry entry = some mapping → mapping.pa.raw < physicalSize

theorem readEntry_of_covers {ram : Ram} {page : PhysAddr} {index : Nat}
    (covered : Ram.Covers page pageSize) (inside : index < entryCount) :
    ∃ entry, readEntry ram page index = .ok entry := by
  rw [readEntry, if_pos]
  · exact ⟨_, rfl⟩
  · have within := Ram.entry_inside inside
    simp only [Ram.Covers, entryAddress] at covered ⊢
    omega

namespace Directory.PointsInside

variable {dir : Directory} {ram : Ram}

theorem exists_table? (stays : dir.PointsInside ram) {slot : Nat} (inside : slot < entryCount) :
    ∃ found, dir.table? ram slot = .ok found ∧
      ∀ table ∈ found, ∃ page : Fin pageCount, table = .ofPage page := by
  obtain ⟨entry, read⟩ := readEntry_of_covers stays.root inside
  have seen : dir.table? ram slot = .ok ((decodeEntry entry).map (·.pa)) := by
    rw [table?, dirEntry, read]
    rfl
  refine ⟨_, seen, fun table found => ?_⟩
  have within := stays.tables slot inside table (by rw [seen, found])
  obtain ⟨mapping, decoded, rfl⟩ := Option.map_eq_some_iff.mp found
  exact PhysAddr.exists_ofPage (decodeEntry_eq_some decoded).2.1 within

/-- Such a directory translates every address without leaving memory. -/
theorem exists_lookup (stays : dir.PointsInside ram) (va : VirtAddr) :
    ∃ found, dir.lookup ram va = .ok found ∧
      ∀ mapping ∈ found, ∃ page : Fin pageCount, mapping.pa = .ofPage page := by
  obtain ⟨slotted, seen, tables⟩ := stays.exists_table? (dirIndex_lt va)
  rw [lookup, entry?, seen]
  cases slotted with
  | none => exact ⟨none, rfl, fun _ impossible => by cases impossible⟩
  | some table =>
      obtain ⟨page, rfl⟩ := tables table rfl
      have read : readEntry ram (.ofPage page) (tableIndex va) = .ok _ :=
        Ram.readEntry_ofPage (tableIndex_lt va)
      refine ⟨decodeEntry (ram.entry page (tableIndex va)), ?_, fun mapping decoded => ?_⟩
      · simp only [bind, Except.bind, read]
        rfl
      · have within := stays.pages _ (dirIndex_lt va) _ seen _ (tableIndex_lt va) _ mapping read
          decoded
        exact PhysAddr.exists_ofPage (decodeEntry_eq_some decoded).2.1 within

end Directory.PointsInside

/-- The directories that the kernel builds stay in memory. -/
theorem Ram.Spans.pointsInside {ram : Ram} {root table : Fin pageCount} {words : Nat → UInt32}
    (spans : ram.Spans root table words) (maps : MapsPages words) :
    (⟨.ofPage root⟩ : Directory).PointsInside ram := by
  have onlyTable {slot : Nat} (inside : slot < entryCount) {other : PhysAddr}
      (found : (⟨.ofPage root⟩ : Directory).table? ram slot = .ok (some other)) :
      other = .ofPage table := by
    rw [Directory.table?_eq inside] at found
    have referred := Except.ok.inj found
    rcases Nat.eq_zero_or_pos slot with rfl | positive
    · exact Option.some.inj (referred.symm.trans spans.refersTo)
    · rw [spans.decodeEntry_slot positive inside] at referred
      cases referred
  refine ⟨covers_ofPage root, fun slot inside other found => ?_,
    fun slot inside other found index within entry mapping read decoded => ?_⟩
  · rw [onlyTable inside found]
    exact PhysAddr.raw_ofPage_lt table
  · rw [onlyTable inside found, readEntry_ofPage within, spans.entries index within] at read
    obtain rfl := Except.ok.inj read
    rw [← translation_ofPage within] at decoded
    obtain ⟨page, onPage⟩ := maps _ mapping decoded
    rw [onPage]
    exact PhysAddr.raw_ofPage_lt page

theorem MapsPages.update {words : Nat → UInt32} (maps : MapsPages words) (number : Nat)
    (page : Fin pageCount) {flags : PageFlags} (present : flags.present = true) :
    MapsPages (Function.update words number (encodeEntry (.ofPage page) flags)) := by
  intro va mapping found
  by_cases here : tableIndex va = number
  · rw [translation, here, Function.update_self, decodeEntry_encodeEntry_ofPage page present]
      at found
    split at found
    · cases found
      exact ⟨page, rfl⟩
    · cases found
  · rw [translation, Function.update_of_ne here] at found
    exact maps va mapping found

/-! ## What user code sees -/

namespace AddressSpace

variable {space : AddressSpace} {ram : Ram} {va : VirtAddr} {index limit : Nat} {byte : UInt8}
  {bytes : List UInt8}

/-- User code sees a byte so many bytes after an address. -/
def Shows (space : AddressSpace) (ram : Ram) (va : VirtAddr) (index : Nat) (byte : UInt8) : Prop :=
  ∃ pos mapping, va.add? index = some pos ∧ space.dir.lookup ram pos = .ok (some mapping) ∧
    mapping.flags.user = true ∧ ram.byte (mapping.pa.raw + pos.pageOffset) = byte

/-- User code may access the byte so many bytes after an address. -/
def Accessible (space : AddressSpace) (ram : Ram) (va : VirtAddr) (index : Nat) : Prop :=
  ∃ byte, space.Shows ram va index byte

/-- Bytes that are not zero are shown one after the other from a place on. -/
def Spells (space : AddressSpace) (ram : Ram) (va : VirtAddr) (index : Nat) (bytes : List UInt8) :
    Prop :=
  ∀ (i : Nat) (inside : i < bytes.length), bytes[i] ≠ 0 ∧ space.Shows ram va (index + i) bytes[i]

/-- The string at an address, without its zero byte or cut off at a limit. -/
structure IsString (space : AddressSpace) (ram : Ram) (va : VirtAddr) (limit : Nat)
    (bytes : List UInt8) : Prop where
  spelled : space.Spells ram va 0 bytes
  stops : bytes.length = limit ∨ bytes.length < limit ∧ space.Shows ram va bytes.length 0

theorem spells_nil : space.Spells ram va index [] :=
  fun _ inside => absurd inside (Nat.not_lt_zero _)

theorem spells_cons : space.Spells ram va index (byte :: bytes) ↔
    (byte ≠ 0 ∧ space.Shows ram va index byte) ∧ space.Spells ram va (index + 1) bytes := by
  constructor
  · intro spelled
    refine ⟨spelled 0 (Nat.succ_pos _), fun i inside => ?_⟩
    have later := spelled (i + 1) (Nat.succ_lt_succ inside)
    rw [show index + (i + 1) = index + 1 + i by omega] at later
    exact later
  · rintro ⟨first, later⟩ i inside
    cases i with
    | zero => exact first
    | succ i =>
        have shown := later i (Nat.lt_of_succ_lt_succ inside)
        rw [show index + 1 + i = index + (i + 1) by omega] at shown
        exact shown

theorem Shows.unique {other : UInt8} (first : space.Shows ram va index byte)
    (second : space.Shows ram va index other) : byte = other := by
  obtain ⟨pos, mapping, reached, seen, -, rfl⟩ := first
  obtain ⟨_, _, same, found, -, rfl⟩ := second
  obtain rfl := Option.some.inj (reached.symm.trans same)
  rw [seen] at found
  obtain rfl := Option.some.inj (Except.ok.inj found)
  rfl

/-- A byte is shown where reading it gives it. -/
theorem shows_iff (stays : space.dir.PointsInside ram) {pos : VirtAddr}
    (reached : va.add? index = some pos) :
    space.Shows ram va index byte ↔ space.userByte? ram pos = .ok (some byte) := by
  obtain ⟨found, seen, pages⟩ := stays.exists_lookup pos
  rw [userByte?_eq_of_lookup seen pages, Except.ok.injEq, Option.bind_eq_some_iff]
  constructor
  · rintro ⟨other, mapping, isOther, known, user, rfl⟩
    obtain rfl := Option.some.inj (reached.symm.trans isOther)
    rw [seen] at known
    exact ⟨mapping, Except.ok.inj known, if_pos user⟩
  · rintro ⟨mapping, rfl, opened⟩
    by_cases user : mapping.flags.user = true
    · rw [if_pos user] at opened
      exact ⟨pos, mapping, reached, seen, user, Option.some.inj opened⟩
    · rw [if_neg user] at opened
      cases opened

/-! ## Reading byte by byte -/

theorem readStringFrom_of_shows (stays : space.dir.PointsInside ram)
    (shown : space.Shows ram va index byte) (limit : Nat) :
    space.readStringFrom ram va index (limit + 1) =
      if byte = 0 then .ok []
      else (space.readStringFrom ram va (index + 1) limit).map (byte :: ·) := by
  obtain ⟨pos, -, reached, -⟩ := id shown
  have read := (shows_iff stays reached).mp shown
  rw [readStringFrom, reached]
  dsimp only
  rw [read]
  simp only [Action.mapError_ok, bind, Except.bind]
  by_cases isZero : byte = 0
  · rw [if_pos isZero, if_pos isZero]
    rfl
  · rw [if_neg isZero, if_neg isZero]
    cases space.readStringFrom ram va (index + 1) limit <;> rfl

/-- An address that cannot be accessed is reported, or the first one if there is none. -/
theorem readStringFrom_of_not_accessible (stays : space.dir.PointsInside ram)
    (blocked : ¬space.Accessible ram va index) (limit : Nat) :
    space.readStringFrom ram va index (limit + 1) =
      .error (.refused (.badUserAddress ((va.add? index).getD va))) := by
  rw [readStringFrom]
  cases reached : va.add? index with
  | none => rfl
  | some pos =>
      obtain ⟨found, seen, pages⟩ := stays.exists_lookup pos
      obtain ⟨answer, read⟩ := exists_userByte? seen pages
      cases answer with
      | none =>
          dsimp only
          rw [read]
          rfl
      | some byte => exact absurd ⟨byte, (shows_iff stays reached).mpr read⟩ blocked

/-- The bytes that are spelled are read, and reading goes on after them. -/
theorem readStringFrom_of_spells (stays : space.dir.PointsInside ram)
    (spelled : space.Spells ram va index bytes) (limit : Nat) :
    space.readStringFrom ram va index (bytes.length + limit) =
      (space.readStringFrom ram va (index + bytes.length) limit).map (bytes ++ ·) := by
  induction bytes generalizing index with
  | nil =>
      rw [List.length_nil, Nat.zero_add, Nat.add_zero]
      cases space.readStringFrom ram va index limit <;> rfl
  | cons byte later ih =>
      obtain ⟨⟨notZero, shown⟩, spelledLater⟩ := spells_cons.mp spelled
      rw [List.length_cons, show later.length + 1 + limit = later.length + limit + 1 by omega,
        readStringFrom_of_shows stays shown, if_neg notZero, ih spelledLater,
        show index + (later.length + 1) = index + 1 + later.length by omega]
      cases space.readStringFrom ram va (index + 1 + later.length) limit <;> rfl

/-- What is spelled goes on to the limit, to a zero byte or to an address without access. -/
theorem exists_spells (space : AddressSpace) (ram : Ram) (va : VirtAddr) (index limit : Nat) :
    ∃ bytes, space.Spells ram va index bytes ∧ (bytes.length = limit ∨ bytes.length < limit ∧
      (space.Shows ram va (index + bytes.length) 0 ∨
        ¬space.Accessible ram va (index + bytes.length))) := by
  induction limit generalizing index with
  | zero => exact ⟨[], spells_nil, .inl rfl⟩
  | succ limit ih =>
      by_cases access : space.Accessible ram va index
      · obtain ⟨byte, shown⟩ := access
        by_cases isZero : byte = 0
        · rw [isZero] at shown
          exact ⟨[], spells_nil, .inr ⟨Nat.succ_pos _, .inl shown⟩⟩
        · obtain ⟨later, spelled, ends⟩ := ih (index + 1)
          refine ⟨byte :: later, spells_cons.mpr ⟨⟨isZero, shown⟩, spelled⟩, ?_⟩
          rw [List.length_cons, show index + (later.length + 1) = index + 1 + later.length by omega]
          rcases ends with full | ⟨short, ends⟩
          · exact .inl (by rw [full])
          · exact .inr ⟨Nat.succ_lt_succ short, ends⟩
      · exact ⟨[], spells_nil, .inr ⟨Nat.succ_pos _, .inr access⟩⟩

/-- Reading is decided by what user code may read, byte by byte. -/
theorem readStringFrom_congr {other : Ram}
    (same : ∀ pos, space.userByte? other pos = space.userByte? ram pos) (va : VirtAddr)
    (index limit : Nat) :
    space.readStringFrom other va index limit = space.readStringFrom ram va index limit := by
  induction limit generalizing index with
  | zero => rfl
  | succ limit ih =>
      rw [readStringFrom, readStringFrom]
      cases va.add? index with
      | none => rfl
      | some pos => simp only [same pos, ih (index + 1)]

/-! ## The string at an address -/

theorem IsString.readString_eq (string : space.IsString ram va limit bytes)
    (stays : space.dir.PointsInside ram) : space.readString ram va limit = .ok bytes := by
  obtain ⟨spelled, stops⟩ := string
  obtain ⟨rest, rfl⟩ : ∃ rest, limit = bytes.length + rest :=
    Nat.exists_eq_add_of_le (stops.elim Nat.le_of_eq fun ends => Nat.le_of_lt ends.1)
  rw [readString, readStringFrom_of_spells stays spelled, Nat.zero_add]
  have finished : space.readStringFrom ram va bytes.length rest = .ok [] := by
    cases rest with
    | zero => rfl
    | succ rest =>
        rcases stops with full | ⟨-, zero⟩
        · omega
        · rw [readStringFrom_of_shows stays zero, if_pos rfl]
  rw [finished]
  exact congrArg Except.ok (List.append_nil bytes)

/-- Reading is refused at the first of the bytes asked for that cannot be accessed. -/
def RefusedAt (space : AddressSpace) (ram : Ram) (va : VirtAddr) (limit index : Nat) : Prop :=
  index < limit ∧ ¬space.Accessible ram va index ∧
    (∀ earlier < index, space.Accessible ram va earlier) ∧
    space.readString ram va limit =
      .error (.refused (.badUserAddress ((va.add? index).getD va)))

/-- There is a string at an address, or an address where reading is refused. -/
theorem isString_or_refusedAt (stays : space.dir.PointsInside ram) (va : VirtAddr) (limit : Nat) :
    (∃ bytes, space.IsString ram va limit bytes) ∨ ∃ index, space.RefusedAt ram va limit index := by
  obtain ⟨bytes, spelled, ends⟩ := exists_spells space ram va 0 limit
  rw [Nat.zero_add] at ends
  rcases ends with full | ⟨short, zero | blocked⟩
  · exact .inl ⟨bytes, spelled, .inl full⟩
  · exact .inl ⟨bytes, spelled, .inr ⟨short, zero⟩⟩
  · refine .inr ⟨bytes.length, short, blocked, fun earlier before => ?_, ?_⟩
    · have shown := (spelled earlier before).2
      rw [Nat.zero_add] at shown
      exact ⟨_, shown⟩
    · obtain ⟨rest, rfl⟩ : ∃ rest, limit = bytes.length + (rest + 1) :=
        Nat.exists_eq_add_of_lt short
      rw [readString, readStringFrom_of_spells stays spelled, Nat.zero_add,
        readStringFrom_of_not_accessible stays blocked]
      rfl

/-- What reading at most `limit` bytes of the string at an address gives. -/
structure ReadsExactly (space : AddressSpace) (ram : Ram) (va : VirtAddr) (limit : Nat) : Prop where
  ok_iff : ∀ bytes, space.readString ram va limit = .ok bytes ↔ space.IsString ram va limit bytes
  refused : (∀ bytes, ¬space.IsString ram va limit bytes) →
    ∃ index, space.RefusedAt ram va limit index
  /-- Memory that is not open to user code may hold anything. -/
  unseen : ∀ other : Ram, (∀ pos, space.dir.lookup other pos = space.dir.lookup ram pos) →
    (∀ pos mapping, space.dir.lookup ram pos = .ok (some mapping) → mapping.flags.user = true →
      other.byte (mapping.pa.raw + pos.pageOffset) = ram.byte (mapping.pa.raw + pos.pageOffset)) →
    space.readString other va limit = space.readString ram va limit

/-- Reading a string from a space that keeps to physical memory gives the string that the space
shows to user code, over any pages, and where there is none reports the first address that user
code may not access. -/
theorem reads_exactly (stays : space.dir.PointsInside ram) (va : VirtAddr) (limit : Nat) :
    space.ReadsExactly ram va limit where
  ok_iff bytes := by
    refine ⟨fun read => ?_, fun string => string.readString_eq stays⟩
    rcases isString_or_refusedAt stays va limit with ⟨other, string⟩ | ⟨_, -, -, -, refused⟩
    · have same := string.readString_eq stays
      rw [read] at same
      exact Except.ok.inj same ▸ string
    · rw [read] at refused
      cases refused
  refused none := by
    rcases isString_or_refusedAt stays va limit with ⟨bytes, string⟩ | refused
    · exact absurd string (none bytes)
    · exact refused
  unseen other sameLookup sameBytes := by
    refine readStringFrom_congr (fun pos => ?_) va 0 limit
    obtain ⟨found, seen, pages⟩ := stays.exists_lookup pos
    rw [userByte?_eq_of_lookup ((sameLookup pos).trans seen) pages,
      userByte?_eq_of_lookup seen pages]
    cases found with
    | none => rfl
    | some mapping =>
        by_cases user : mapping.flags.user = true
        · simp only [Option.bind_some, user, if_true, sameBytes pos mapping seen user]
        · simp only [Option.bind_some, user, Bool.false_eq_true, if_false]

/-! ## A string over two pages -/

/-- What a directory with one page table shows. -/
theorem shows_of_spans {root table page : Fin pageCount} {words : Nat → UInt32} {owner : Owner}
    {pos : VirtAddr} {flags : PageFlags} (spans : ram.Spans root table words)
    (reached : va.add? index = some pos)
    (found : translation words pos = some ⟨.ofPage page, flags⟩) (user : flags.user = true)
    (held : ram.pageByte page pos.pageOffset = byte) :
    (⟨⟨.ofPage root⟩, owner⟩ : AddressSpace).Shows ram va index byte :=
  ⟨pos, _, reached, (spans.lookup_eq pos).trans (congrArg Except.ok found), user, held⟩

theorem not_accessible_of_spans {root table : Fin pageCount} {words : Nat → UInt32} {owner : Owner}
    {pos : VirtAddr} {mapping : Mapping} (spans : ram.Spans root table words)
    (reached : va.add? index = some pos) (found : translation words pos = some mapping)
    (notUser : mapping.flags.user = false) :
    ¬(⟨⟨.ofPage root⟩, owner⟩ : AddressSpace).Accessible ram va index := by
  rintro ⟨_, other, seen, isOther, known, user, -⟩
  obtain rfl := Option.some.inj (reached.symm.trans isOther)
  rw [spans.lookup_eq, found] at known
  obtain rfl := Option.some.inj (Except.ok.inj known)
  rw [notUser] at user
  cases user

/-- A directory that maps three pages one after the other.  The first two lie apart in memory and
in reverse order; the third is not open to user code. -/
private theorem exists_threePages : ∃ (ram : Ram) (words : Nat → UInt32),
    ram.Spans 1 2 words ∧ MapsPages words ∧
      decodeEntry (words 1) = some ⟨.ofPage (5 : Fin pageCount), .userRW⟩ ∧
      decodeEntry (words 2) = some ⟨.ofPage (3 : Fin pageCount), .userRO⟩ ∧
      decodeEntry (words 3) = some ⟨.ofPage (4 : Fin pageCount), .kernelRW⟩ ∧
      (∀ offset < pageSize, ram.pageByte 5 offset = 65) ∧
      ∀ offset < pageSize, ram.pageByte 3 offset = if offset = 1 then 0 else 66 := by
  have nothing : MapsPages fun _ => 0 := by
    intro va mapping found
    rw [translation, decodeEntry_zero, ite_self] at found
    cases found
  have empty : (((Ram.blank.clear 1).clear 2).setEntry 1 0
      (encodeEntry (.ofPage (2 : Fin pageCount)) .userRW)).Spans 1 2 fun _ => 0 :=
    Ram.spans_clear_clear (by decide)
  have one := empty.setEntry (by decide) (show 1 < entryCount by decide)
    (encodeEntry (.ofPage (5 : Fin pageCount)) .userRW)
  have two := one.setEntry (by decide) (show 2 < entryCount by decide)
    (encodeEntry (.ofPage (3 : Fin pageCount)) .userRO)
  have three := two.setEntry (by decide) (show 3 < entryCount by decide)
    (encodeEntry (.ofPage (4 : Fin pageCount)) .kernelRW)
  generalize Ram.setEntry _ 2 3 _ = ram at three
  have wide : 0 + pageSize ≤ pageSize := by decide
  let lower := ram.overwrite 5 0 pageSize fun _ => 65
  let filled := lower.overwrite 3 0 pageSize fun offset => if offset = 1 then 0 else 66
  have kept {page : Fin pageCount} (notLower : page ≠ 5) (notUpper : page ≠ 3) :
      Ram.SamePage ram filled page :=
    (Ram.samePage_overwrite_of_ne wide notLower).trans (Ram.samePage_overwrite_of_ne wide notUpper)
  refine ⟨filled, _, three.congr (kept (by decide) (by decide)) (kept (by decide) (by decide)),
    ((nothing.update 1 5 rfl).update 2 3 rfl).update 3 4 rfl, ?_, ?_, ?_, ?_, ?_⟩
  · rw [Function.update_of_ne (by decide), Function.update_of_ne (by decide), Function.update_self]
    exact decodeEntry_encodeEntry_ofPage 5 rfl
  · rw [Function.update_of_ne (by decide), Function.update_self]
    exact decodeEntry_encodeEntry_ofPage 3 rfl
  · rw [Function.update_self]
    exact decodeEntry_encodeEntry_ofPage 4 rfl
  · intro offset inside
    rw [← Ram.samePage_overwrite_of_ne wide (by decide) offset inside,
      Ram.pageByte_overwrite wide, if_pos ⟨Nat.zero_le _, by omega⟩]
  · intro offset inside
    rw [Ram.pageByte_overwrite wide, if_pos ⟨Nat.zero_le _, by omega⟩, Nat.sub_zero]

/-- A string goes on from one page into the next one, but not into a page of the kernel. -/
theorem split_string_is_read : ∃ (space : AddressSpace) (ram : Ram),
    space.dir.PointsInside ram ∧
      space.readString ram ⟨0x1fff⟩ 64 = .ok [65, 66] ∧
      space.readString ram ⟨0x2fff⟩ 1 = .ok [66] ∧
      space.readString ram ⟨0x2fff⟩ 2 = .error (.refused (.badUserAddress ⟨0x3000⟩)) := by
  obtain ⟨ram, words, spans, maps, first, second, third, lower, upper⟩ := exists_threePages
  let space : AddressSpace := ⟨⟨.ofPage (1 : Fin pageCount)⟩, .kernel⟩
  have stays : space.dir.PointsInside ram := spans.pointsInside maps
  have begins : space.Shows ram ⟨0x1fff⟩ 0 65 :=
    shows_of_spans spans rfl first rfl (lower _ (by decide))
  have goesOn : space.Shows ram ⟨0x1fff⟩ 1 66 :=
    shows_of_spans spans rfl second rfl (upper _ (by decide))
  have ends : space.Shows ram ⟨0x1fff⟩ 2 0 :=
    shows_of_spans spans rfl second rfl (upper _ (by decide))
  have last : space.Shows ram ⟨0x2fff⟩ 0 66 :=
    shows_of_spans spans rfl second rfl (upper _ (by decide))
  have blocked : ¬space.Accessible ram ⟨0x2fff⟩ 1 :=
    not_accessible_of_spans spans rfl third rfl
  have lastSpelled : space.Spells ram ⟨0x2fff⟩ 0 [66] :=
    spells_cons.mpr ⟨⟨by decide, last⟩, spells_nil⟩
  refine ⟨space, ram, stays, ?_, ?_, ?_⟩
  · refine ((reads_exactly stays _ _).ok_iff _).mpr ⟨?_, .inr ⟨by decide, ends⟩⟩
    exact spells_cons.mpr
      ⟨⟨by decide, begins⟩, spells_cons.mpr ⟨⟨by decide, goesOn⟩, spells_nil⟩⟩
  · exact ((reads_exactly stays _ _).ok_iff _).mpr ⟨lastSpelled, .inl rfl⟩
  · have noString (bytes : List UInt8) : ¬space.IsString ram ⟨0x2fff⟩ 2 bytes := by
      rintro ⟨spelled, stops⟩
      match bytes with
      | [] =>
          rcases stops with full | ⟨-, zero⟩
          · cases full
          · exact absurd (zero.unique last) (by decide)
      | [_] =>
          rcases stops with full | ⟨-, zero⟩
          · cases full
          · exact blocked ⟨0, zero⟩
      | _ :: byte :: _ => exact blocked ⟨byte, (spelled 1 (by simp)).2⟩
    obtain ⟨index, -, notHere, before, refused⟩ := (reads_exactly stays ⟨0x2fff⟩ 2).refused noString
    have here : index = 1 := by
      rcases Nat.lt_trichotomy index 1 with below | here | above
      · obtain rfl := Nat.lt_one_iff.mp below
        exact absurd ⟨66, last⟩ notHere
      · exact here
      · exact absurd (before 1 above) blocked
    rw [here] at refused
    exact refused

end AddressSpace

end PagingKernel
