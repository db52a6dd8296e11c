import PagingKernel.Proofs.Action.Carries
import PagingKernel.Proofs.AddressSpace.Release

/-!
# Spaces that are in use

Spaces may come to share pages, and then each of them works on memory that the
others see.  A `Plot` is what never changes about a space while it is used: the
pages of its directory and of its page table, and its owner.  What it maps is
read off memory, with whatever flags it is mapped.

`Plot.Alters write before after` says all that the space of a plot may do to
memory, whether it succeeds in what it does or not.  It takes new pages and maps
them where nothing was mapped, it may open pages that it maps for writing, and
it writes to the pages that it maps; `write` is what becomes of the bytes there.
-/

namespace PagingKernel

open PageTable PagingKernel.Action

/-- Where a space has its directory and its page table. -/
structure Plot where
  /-- The page of the directory. -/
  root : Fin pageCount
  /-- The page of the page table. -/
  table : Fin pageCount
  /-- The owner of the space. -/
  owner : Owner

namespace Plot

/-- The space of a plot. -/
def space (plot : Plot) : AddressSpace :=
  ⟨⟨.ofPage plot.root⟩, plot.owner⟩

/-- What a place of the process range is mapped to. -/
def leaf? (plot : Plot) (ram : Ram) (place : Fin processPageCount) : Option Mapping :=
  decodeEntry (ram.entry plot.table (placeNumber place))

/-- A place is mapped to a page. -/
def Maps (plot : Plot) (ram : Ram) (place : Fin processPageCount) (page : Fin pageCount) : Prop :=
  ∃ flags, plot.leaf? ram place = some ⟨.ofPage page, flags⟩

variable {plot : Plot} {memory before middle after : Memory} {ledger : Ledger} {ram next : Ram}
  {place other : Fin processPageCount} {page second : Fin pageCount}

theorem Maps.unique (maps : plot.Maps ram place page) (also : plot.Maps ram place second) :
    page = second := by
  obtain ⟨flags, found⟩ := maps
  obtain ⟨others, alsoFound⟩ := also
  rw [found] at alsoFound
  exact PhysAddr.ofPage_inj.mp (congrArg Mapping.pa (Option.some.inj alsoFound))

theorem leaf?_congr (same : Ram.SamePage ram next plot.table) (place : Fin processPageCount) :
    plot.leaf? next place = plot.leaf? ram place := by
  rw [leaf?, leaf?, same.entry_eq (placeNumber_lt place)]

theorem maps_congr (same : Ram.SamePage ram next plot.table) :
    plot.Maps next place page ↔ plot.Maps ram place page := by
  rw [Maps, Maps, leaf?_congr same]

theorem leaf?_setEntry (plot : Plot) (ram : Ram) (place other : Fin processPageCount)
    (word : UInt32) :
    plot.leaf? (ram.setEntry plot.table (placeNumber place) word) other =
      if other = place then decodeEntry word else plot.leaf? ram other := by
  unfold leaf?
  split
  · rename_i here
    rw [here, Ram.entry_setEntry_self (placeNumber_lt place)]
  · rename_i apart
    rw [Ram.entry_setEntry_of_ne (placeNumber_lt place) fun same =>
      apart (placeNumber_injective same)]

/-- An address of the process range is looked up in the page table, at its place. -/
theorem lookup_eq (refers : ram.RefersTo plot.root 0 plot.table) {va : VirtAddr}
    (number : va.raw / pageSize = placeNumber place) :
    plot.space.dir.lookup ram va = .ok (plot.leaf? ram place) := by
  have inside := placeNumber_lt place
  have found := Directory.lookup_eq (dirIndex_of_page number inside ▸ refers)
  rw [tableIndex_of_page number inside] at found
  exact found

/-! ## Plots on taken pages -/

/-- The space of a plot stands in memory, on taken pages, and maps no page twice. -/
structure Rooted (plot : Plot) (memory : Memory) : Prop where
  owned : plot.owner ≠ .free
  refers : memory.ram.RefersTo plot.root 0 plot.table
  rootTaken : memory.ledger.Taken plot.root
  tableTaken : memory.ledger.Taken plot.table
  root_ne_table : plot.root ≠ plot.table
  backed : ∀ place mapping, plot.leaf? memory.ram place = some mapping →
    ∃ page : Fin pageCount, mapping.pa = .ofPage page ∧ memory.ledger.Taken page ∧
      page ≠ plot.root ∧ page ≠ plot.table
  place_unique : ∀ place other page, plot.Maps memory.ram place page →
    plot.Maps memory.ram other page → place = other

namespace Rooted

theorem exists_maps (rooted : plot.Rooted memory) {mapping : Mapping}
    (found : plot.leaf? memory.ram place = some mapping) :
    ∃ page : Fin pageCount, mapping.pa = .ofPage page ∧ plot.Maps memory.ram place page := by
  obtain ⟨page, atPage, -⟩ := rooted.backed place mapping found
  exact ⟨page, atPage, mapping.flags, by rw [found, ← atPage]⟩

theorem taken_of_maps (rooted : plot.Rooted memory) (maps : plot.Maps memory.ram place page) :
    memory.ledger.Taken page := by
  obtain ⟨flags, found⟩ := maps
  obtain ⟨backing, same, taken, -⟩ := rooted.backed place _ found
  rw [PhysAddr.ofPage_inj.mp same]
  exact taken

theorem ne_table_of_maps (rooted : plot.Rooted memory) (maps : plot.Maps memory.ram place page) :
    page ≠ plot.table := by
  obtain ⟨flags, found⟩ := maps
  obtain ⟨backing, same, -, -, apart⟩ := rooted.backed place _ found
  rw [PhysAddr.ofPage_inj.mp same]
  exact apart

theorem not_maps_root (rooted : plot.Rooted memory) (place : Fin processPageCount) :
    ¬plot.Maps memory.ram place plot.root := by
  rintro ⟨flags, found⟩
  obtain ⟨backing, same, -, apart, -⟩ := rooted.backed place _ found
  exact apart (PhysAddr.ofPage_inj.mp same).symm

/-- A space stands while its pages stay taken and its structure stays what it is. -/
theorem congr (rooted : plot.Rooted before)
    (taken : ∀ page, before.ledger.Taken page → after.ledger.Taken page)
    (sameRoot : Ram.SamePage before.ram after.ram plot.root)
    (sameTable : Ram.SamePage before.ram after.ram plot.table) : plot.Rooted after where
  owned := rooted.owned
  refers := by
    rw [Ram.RefersTo, ← sameRoot.entry_eq (by decide)]
    exact rooted.refers
  rootTaken := taken _ rooted.rootTaken
  tableTaken := taken _ rooted.tableTaken
  root_ne_table := rooted.root_ne_table
  backed place mapping found := by
    rw [leaf?_congr sameTable] at found
    obtain ⟨page, atPage, held, lies⟩ := rooted.backed place mapping found
    exact ⟨page, atPage, taken page held, lies⟩
  place_unique place other page here there := by
    rw [maps_congr sameTable] at here there
    exact rooted.place_unique place other page here there

end Rooted

/-! ## What a space may do to memory -/

/-- What the space of a plot may have done to memory, by its ledger, its pages and its places. -/
structure Alters (plot : Plot) (write : Nat → UInt8 → UInt8) (before after : Memory) : Prop where
  tidy : before.ledger.Tidy → after.ledger.Tidy
  entry_eq : ∀ page, before.ledger.Taken page →
    after.ledger.entry page = before.ledger.entry page
  kept : ∀ page, before.ledger.Taken page → page ≠ plot.table →
    (∀ place, ¬plot.Maps before.ram place page) → Ram.SamePage before.ram after.ram page
  bytes : ∀ place page, plot.Maps before.ram place page → ∀ offset < pageSize,
    after.ram.pageByte page offset =
      write (placeNumber place * pageSize + offset) (before.ram.pageByte page offset)
  leaf?_eq : ∀ place mapping, plot.leaf? before.ram place = some mapping →
    ∃ flags, plot.leaf? after.ram place = some ⟨mapping.pa, flags⟩ ∧
      (mapping.flags.writable = true → flags.writable = true)
  newLeaf : ∀ place mapping, plot.leaf? before.ram place = none →
    plot.leaf? after.ram place = some mapping → ∃ page : Fin pageCount,
      mapping.pa = .ofPage page ∧ ¬before.ledger.Taken page ∧
        after.ledger.entry page = ⟨plot.owner, 1⟩
  newApart : ∀ place other page, plot.leaf? before.ram place = none →
    plot.leaf? before.ram other = none → plot.Maps after.ram place page →
    plot.Maps after.ram other page → place = other

/-- The bytes of the pages that are mapped stay what they are. -/
def keep : Nat → UInt8 → UInt8 :=
  fun _ byte => byte

namespace Alters

variable {write later : Nat → UInt8 → UInt8}

theorem taken (altered : plot.Alters write before after) (held : before.ledger.Taken page) :
    after.ledger.Taken page := by
  rw [Ledger.Taken, altered.entry_eq page held]
  exact held

/-- What is mapped stays mapped. -/
theorem maps (altered : plot.Alters write before after)
    (mapped : plot.Maps before.ram place page) : plot.Maps after.ram place page := by
  obtain ⟨flags, found⟩ := mapped
  obtain ⟨now, still, -⟩ := altered.leaf?_eq place _ found
  exact ⟨now, still⟩

/-- Where nothing is mapped, nothing was mapped. -/
theorem vacant (altered : plot.Alters write before after)
    (unmapped : plot.leaf? after.ram place = none) : plot.leaf? before.ram place = none := by
  by_contra mapped
  obtain ⟨mapping, found⟩ := Option.ne_none_iff_exists'.mp mapped
  obtain ⟨flags, still, -⟩ := altered.leaf?_eq place mapping found
  cases unmapped.symm.trans still

/-- What is mapped was mapped, or is a new page where nothing was mapped. -/
theorem mapped_or_new (altered : plot.Alters write before after)
    (mapped : plot.Maps after.ram place page) :
    plot.Maps before.ram place page ∨ plot.leaf? before.ram place = none ∧
      ¬before.ledger.Taken page ∧ after.ledger.entry page = ⟨plot.owner, 1⟩ := by
  obtain ⟨flags, found⟩ := mapped
  cases was : plot.leaf? before.ram place with
  | none =>
      obtain ⟨new, same, untaken, entry_eq⟩ := altered.newLeaf place _ was found
      rw [PhysAddr.ofPage_inj.mp same]
      exact .inr ⟨rfl, untaken, entry_eq⟩
  | some mapping =>
      obtain ⟨now, still, -⟩ := altered.leaf?_eq place mapping was
      rw [still] at found
      obtain ⟨pa, earlier⟩ := mapping
      obtain rfl : pa = .ofPage page := congrArg Mapping.pa (Option.some.inj found)
      exact .inl ⟨earlier, was⟩

end Alters

/-- The space still stands. -/
theorem Rooted.alter {write : Nat → UInt8 → UInt8} (rooted : plot.Rooted before)
    (altered : plot.Alters write before after) : plot.Rooted after where
  owned := rooted.owned
  refers := by
    have same := altered.kept plot.root rooted.rootTaken rooted.root_ne_table rooted.not_maps_root
    rw [Ram.RefersTo, ← same.entry_eq (by decide)]
    exact rooted.refers
  rootTaken := altered.taken rooted.rootTaken
  tableTaken := altered.taken rooted.tableTaken
  root_ne_table := rooted.root_ne_table
  backed place mapping found := by
    cases was : plot.leaf? before.ram place with
    | some earlier =>
        obtain ⟨page, atPage, taken, notRoot, notTable⟩ := rooted.backed place earlier was
        obtain ⟨flags, still, -⟩ := altered.leaf?_eq place earlier was
        obtain rfl := Option.some.inj (still.symm.trans found)
        exact ⟨page, atPage, altered.taken taken, notRoot, notTable⟩
    | none =>
        obtain ⟨page, atPage, untaken, entry_eq⟩ := altered.newLeaf place mapping was found
        exact ⟨page, atPage, Ledger.taken_of_entry entry_eq,
          fun same => untaken (same ▸ rooted.rootTaken),
          fun same => untaken (same ▸ rooted.tableTaken)⟩
  place_unique place other page here there := by
    rcases altered.mapped_or_new here with wasHere | ⟨nothingHere, untaken, -⟩ <;>
      rcases altered.mapped_or_new there with wasThere | ⟨nothingThere, alsoUntaken, -⟩
    · exact rooted.place_unique place other page wasHere wasThere
    · exact absurd (rooted.taken_of_maps wasHere) alsoUntaken
    · exact absurd (rooted.taken_of_maps wasThere) untaken
    · exact altered.newApart place other page nothingHere nothingThere here there

namespace Alters

variable {write later : Nat → UInt8 → UInt8}

/-- What is done one after the other is done. -/
theorem trans (first : plot.Alters write before middle) (last : plot.Alters later middle after)
    (rooted : plot.Rooted before) :
    plot.Alters (fun address byte => later address (write address byte)) before after where
  tidy held := last.tidy (first.tidy held)
  entry_eq page taken := by rw [last.entry_eq page (first.taken taken), first.entry_eq page taken]
  kept page taken notTable unmapped := by
    refine (first.kept page taken notTable unmapped).trans
      (last.kept page (first.taken taken) notTable fun place mapped => ?_)
    rcases first.mapped_or_new mapped with was | ⟨-, untaken, -⟩
    · exact unmapped place was
    · exact untaken taken
  bytes place page mapped offset inside := by
    rw [last.bytes place page (first.maps mapped) offset inside,
      first.bytes place page mapped offset inside]
  leaf?_eq place mapping found := by
    obtain ⟨flags, between, opened⟩ := first.leaf?_eq place mapping found
    obtain ⟨others, still, stillOpened⟩ := last.leaf?_eq place _ between
    exact ⟨others, still, fun writable => stillOpened (opened writable)⟩
  newLeaf place mapping vacant found := by
    cases between : plot.leaf? middle.ram place with
    | none =>
        obtain ⟨page, atPage, untaken, entry_eq⟩ := last.newLeaf place mapping between found
        exact ⟨page, atPage, fun taken => untaken (first.taken taken), entry_eq⟩
    | some earlier =>
        obtain ⟨page, atPage, untaken, entry_eq⟩ := first.newLeaf place earlier vacant between
        obtain ⟨flags, still, -⟩ := last.leaf?_eq place earlier between
        obtain rfl := Option.some.inj (still.symm.trans found)
        refine ⟨page, atPage, untaken, ?_⟩
        rw [last.entry_eq page (Ledger.taken_of_entry entry_eq), entry_eq]
  newApart place other page _ _ here there :=
    ((rooted.alter first).alter last).place_unique place other page here there

end Alters

end Plot

end PagingKernel
