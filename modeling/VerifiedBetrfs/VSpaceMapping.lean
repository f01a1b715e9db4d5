import Mathlib.Data.Finset.Prod
import VerifiedBetrfs.TableTree
import VerifiedBetrfs.VSpace

/-!
# Mapping one page

Mapping a page adds the tables that are missing on its path and then writes one slot of the last
one.
-/

namespace VerifiedBetrfs.VSpace

open TableTree
open X86 (Entry basePageOffset basePageSize hugePageSize isPage isPresent largePageSize pdIndex
  pdptIndex pml4Index ptIndex)

/-- The paths of at most three steps that start with the first slot of the root. -/
@[irreducible]
def firstSlotPaths (slots : Nat) : Finset (List Nat) :=
  {[0]} ∪ (Finset.range slots).image (fun pdptIdx => [0, pdptIdx]) ∪
    (Finset.range slots ×ˢ Finset.range slots).image (fun indices => [0, indices.1, indices.2])

section

variable {slots : Nat}

theorem card_firstSlotPaths_le : (firstSlotPaths slots).card ≤ 1 + slots + slots * slots := by
  have pds : ((Finset.range slots).image fun pdptIdx => [0, pdptIdx]).card ≤ slots :=
    Finset.card_image_le.trans_eq (Finset.card_range slots)
  have pts : ((Finset.range slots ×ˢ Finset.range slots).image
      fun indices => [0, indices.1, indices.2]).card ≤ slots * slots := by
    refine Finset.card_image_le.trans_eq ?_
    rw [Finset.card_product, Finset.card_range]
  have upper := Finset.card_union_le {[0]} ((Finset.range slots).image fun pdptIdx => [0, pdptIdx])
  rw [Finset.card_singleton] at upper
  have whole := Finset.card_union_le
    ({[0]} ∪ (Finset.range slots).image (fun pdptIdx => [0, pdptIdx]))
    ((Finset.range slots ×ˢ Finset.range slots).image fun indices => [0, indices.1, indices.2])
  unfold firstSlotPaths
  omega

theorem mem_firstSlotPaths {path : List Nat} : path ∈ firstSlotPaths slots ↔ path = [0] ∨
    (∃ i < slots, path = [0, i]) ∨ ∃ i < slots, ∃ j < slots, path = [0, i, j] := by
  unfold firstSlotPaths
  simp [and_assoc, eq_comm (a := path)]

end

/-- The paths to the PDPT, the PDs and the PTs of the addresses below `vspaceRange`. -/
def tablePaths : Finset (List Nat) := firstSlotPaths 512

variable [X86]

@[simp]
theorem entry_setEntry_same (vs : VSpace) (table : Table) (index : Nat) (entry : Entry) :
    (vs.setEntry table index entry).entry table index = entry := by
  cases table <;> simp [VSpace.entry, setEntry]

theorem entry_setEntry_of_ne (vs : VSpace) {table table' : Table} {index index' : Nat}
    (entry : Entry) (other : table' ≠ table ∨ index' ≠ index) :
    (vs.setEntry table index entry).entry table' index' = vs.entry table' index' := by
  cases table with
  | pml4 =>
    cases table' with
    | pml4 => simp [VSpace.entry, setEntry, Function.update_of_ne (other.resolve_left (by simp))]
    | page address => rfl
  | page address =>
    cases table' with
    | pml4 => rfl
    | page address' =>
      by_cases same : address' = address
      · subst same
        have := other.resolve_left (by simp)
        simp [VSpace.entry, setEntry, this]
      · simp [VSpace.entry, setEntry, same]

@[simp]
theorem memCounter_setEntry (vs : VSpace) (table : Table) (index : Nat) (entry : Entry) :
    (vs.setEntry table index entry).memCounter = vs.memCounter := by
  cases table <;> rfl

@[simp]
theorem mapping_setEntry (vs : VSpace) (table : Table) (index : Nat) (entry : Entry) :
    (vs.setEntry table index entry).mapping = vs.mapping := by
  cases table <;> rfl

/-- The table that a present entry points to. -/
def child (vs : VSpace) (table : Table) (index : Nat) : Option Table :=
  if isPresent (vs.entry table index) then some (.page (X86.address (vs.entry table index)))
    else none

variable {vs : VSpace} {index : Nat} {table : Table} {vs' : VSpace} {path : List Nat} {pt : Table}
  {addr result addr' vbase pbase : Nat}

theorem child_of_present (present : isPresent (vs.entry table index)) :
    vs.child table index = some (.page (X86.address (vs.entry table index))) := if_pos present

theorem child_of_vacant (vacant : ¬isPresent (vs.entry table index)) :
    vs.child table index = none := if_neg vacant

theorem child_eq_of_entry_eq {vs : VSpace} (same : vs'.entry table index = vs.entry table index) :
    vs'.child table index = vs.child table index := by
  rw [child, child, same]

/-- The tables at `paths`, and no others, have been taken from the memory. -/
structure Tables (vs : VSpace) (paths : Finset (List Nat)) : Prop where
  separate : Separate vs.child .pml4 3
  within : paths ⊆ tablePaths
  reached : ∀ path, path ≠ [] → path.length ≤ 3 →
    (path ∈ paths ↔ (walk vs.child .pml4 path).isSome)
  counter : vs.memCounter = 4096 + 8192 * paths.card
  below : ∀ path address, path.length ≤ 3 →
    walk vs.child .pml4 path = some (.page address) →
      address < vs.mapping.data + vs.memCounter
  noPages : ∀ path table index, path.length < 3 → walk vs.child .pml4 path = some table →
    isPresent (vs.entry table index) → ¬isPage (vs.entry table index)

/-- The tables of `vs` are still there, and the last ones still hold the same pages. -/
structure Keeps (vs vs' : VSpace) : Prop where
  walk : ∀ path table, path.length ≤ 3 → walk vs.child .pml4 path = some table →
    walk vs'.child .pml4 path = some table
  pages : ∀ path table, path.length = 3 → TableTree.walk vs.child .pml4 path = some table →
    vs'.entry table = vs.entry table

theorem Keeps.refl (vs : VSpace) : Keeps vs vs :=
  ⟨fun _ _ _ reached => reached, fun _ _ _ _ => rfl⟩

theorem Keeps.trans {vs vs'' : VSpace} (first : Keeps vs vs') (second : Keeps vs' vs'') :
    Keeps vs vs'' where
  walk path table short reached :=
    second.walk path table short (first.walk path table short reached)
  pages path table deep reached :=
    (second.pages path table deep (first.walk path table deep.le reached)).trans
      (first.pages path table deep reached)

/-- The page that the next table takes. -/
def freshPage (vs : VSpace) : Nat := vs.mapping.data + (vs.memCounter + 4096)

def tableFlags : Flags := { p := true, rw := true, us := true }

/-- What taking a page for a table does: the page is zeroed, those before it stay. -/
structure Allocated (vs vs' : VSpace) : Prop where
  memCounter : vs'.memCounter = vs.memCounter + 8192
  mapping : vs'.mapping = vs.mapping
  zeroed : ∀ index, vs'.entry (.page vs.freshPage) index = X86.zero
  pml4 : ∀ index, vs'.entry .pml4 index = vs.entry .pml4 index
  before : ∀ address index, address < vs.freshPage →
    vs'.entry (.page address) index = vs.entry (.page address) index

/-- The address space once that page is taken. -/
def withPage (vs : VSpace) : VSpace where
  pml4 := vs.pml4
  memCounter := vs.memCounter + 4096 + 1 * 4096
  mapping := vs.mapping
  memory page :=
    if vs.freshPage ≤ page ∧ page < vs.freshPage + 1 * basePageSize then fun _ => X86.zero
    else vs.memory page

theorem allocated_withPage (vs : VSpace) : Allocated vs vs.withPage where
  memCounter := by rw [withPage]
  mapping := rfl
  zeroed index := by simp [VSpace.entry, withPage, X86.basePageSize_eq]
  pml4 _ := rfl
  before address index earlier := by
    have outside : ¬(vs.freshPage ≤ address ∧ address < vs.freshPage + 1 * basePageSize) := by
      omega
    simp only [VSpace.entry, withPage, if_neg outside]

theorem exists_newTable (room : vs.memCounter + 4096 < 3 * oneGib)
    (aligned : vs.memCounter % 4096 = 0) :
    ∃ entry, vs.newTable = some (entry, vs.withPage) ∧ IsEntry entry vs.freshPage tableFlags := by
  have pageAligned : vs.freshPage % 4096 = 0 := by
    have := vs.mapping.aligned
    rw [freshPage]
    omega
  have entryFits : vs.freshPage < 2 ^ 52 :=
    (Nat.add_lt_add_left room vs.mapping.data).trans_le vs.mapping.fits
  have allocatedPage : vs.allocateOnePage = some (vs.freshPage, vs.withPage) := by
    simp [allocateOnePage, allocatePages, guard, room, freshPage, withPage]
  obtain ⟨entry, madeEntry, isEntry⟩ := exists_entry pageAligned entryFits tableFlags
  have unfolded : vs.newTable = vs.allocateOnePage.bind fun result =>
      (X86.new result.1 tableFlags).bind fun entry => some (entry, result.2) := rfl
  refine ⟨entry, ?_, isEntry⟩
  rw [unfolded, allocatedPage, Option.bind_some, madeEntry, Option.bind_some]

section Hanging

variable {vs allocated : VSpace} {paths : Finset (List Nat)} {path : List Nat} {table : Table}
  {index : Nat}

section

variable (tables : Tables vs paths)

include tables

theorem Tables.fresh {path : List Nat} (short : path.length ≤ 3) :
    walk vs.child .pml4 path ≠ some (.page vs.freshPage) := by
  intro reached
  have := tables.below path _ short reached
  rw [freshPage] at this
  omega

theorem Tables.entry_allocated (new : Allocated vs allocated) {path : List Nat}
    (short : path.length ≤ 3) (reached : walk vs.child .pml4 path = some table) (index : Nat) :
    allocated.entry table index = vs.entry table index := by
  cases table with
  | pml4 => exact new.pml4 index
  | page address =>
    have := tables.below path address short reached
    exact new.before address index (by rw [freshPage]; omega)

section

variable (new : Allocated vs allocated) (short : path.length < 3)
  (parent : walk vs.child .pml4 path = some table) (vacant : ¬isPresent (vs.entry table index))
  {entry : Entry} (isTable : IsEntry entry vs.freshPage tableFlags)

include new short parent vacant isTable

theorem Tables.grown :
    Grown vs.child (allocated.setEntry table index entry).child .pml4 3
      path index (.page vs.freshPage) where
  short := short
  parent := by
    refine ⟨table, parent, child_of_vacant vacant, ?_⟩
    rw [child_of_present (by rw [entry_setEntry_same, isTable.present]; rfl),
      entry_setEntry_same, isTable.address]
  fresh _ short := tables.fresh short
  empty slot := by
    have apart : Table.page vs.freshPage ≠ table := by
      rintro rfl
      exact tables.fresh short.le parent
    apply child_of_vacant
    rw [entry_setEntry_of_ne _ _ (.inl apart), new.zeroed]
    simp [isPresent_zero]
  frame other otherTable slot shallow reached elsewhere := by
    apply child_eq_of_entry_eq
    rw [entry_setEntry_of_ne]
    · exact tables.entry_allocated new shallow.le reached slot
    · refine elsewhere.imp_left fun different => ?_
      rintro rfl
      exact different (tables.separate other path _ shallow.le short.le reached parent)

theorem Tables.hang (inRange : path ++ [index] ∈ tablePaths) :
    Tables (allocated.setEntry table index entry)
        (insert (path ++ [index]) paths) ∧
      Keeps vs (allocated.setEntry table index entry) := by
  have grown := tables.grown new short parent vacant isTable
  have nowhere : walk vs.child .pml4 (path ++ [index]) = none := by
    rw [walk_concat, parent, Option.bind_some, child_of_vacant vacant]
  have added : path ++ [index] ∉ paths := by
    rw [tables.reached _ (by simp) (by simp; omega), nowhere]
    simp
  refine ⟨?_, ?_⟩
  · constructor
    case separate => exact separate_grown grown tables.separate
    case within =>
      rw [Finset.insert_subset_iff]
      exact ⟨inRange, tables.within⟩
    case reached =>
      intro other nonempty shallow
      rw [walk_grown grown shallow, Finset.mem_insert]
      split
      · next same => simp [same]
      · next different => simp [different, tables.reached other nonempty shallow]
    case counter =>
      rw [memCounter_setEntry, new.memCounter, tables.counter, Finset.card_insert_of_notMem added]
      omega
    case below =>
      intro other address shallow reached
      rw [walk_grown grown shallow] at reached
      rw [mapping_setEntry, memCounter_setEntry, new.mapping, new.memCounter]
      split at reached
      · obtain rfl : vs.freshPage = address := by simpa using reached
        rw [freshPage]
        omega
      · have := tables.below other address shallow reached
        omega
    case noPages =>
      intro other otherTable slot shallow reached present
      rw [walk_grown grown shallow.le] at reached
      by_cases written : otherTable = table ∧ slot = index
      · obtain ⟨rfl, rfl⟩ := written
        rw [entry_setEntry_same, isTable.page]
        simp [tableFlags]
      rw [entry_setEntry_of_ne _ _ (not_and_or.mp written)] at present ⊢
      split at reached
      · cases reached
        rw [new.zeroed] at present
        simp [isPresent_zero] at present
      · rw [tables.entry_allocated new shallow.le reached] at present ⊢
        exact tables.noPages other otherTable slot shallow reached present
  · constructor
    case walk =>
      intro other otherTable shallow reached
      rw [walk_grown grown shallow, if_neg]
      · exact reached
      · rintro rfl
        simp [nowhere] at reached
    case pages =>
      intro other otherTable deep reached
      funext slot
      rw [entry_setEntry_of_ne]
      · exact tables.entry_allocated new deep.le reached slot
      · left
        rintro rfl
        have same := tables.separate other path _ deep.le short.le reached parent
        rw [same] at deep
        omega

end

end

end Hanging

/-- The slot that a pass follows next is present and leads to a table. -/
structure Linked (vs : VSpace) (path : List Nat) (table : Table) (index : Nat) : Prop where
  parent : walk vs.child .pml4 path = some table
  present : isPresent (vs.entry table index)
  noPage : ¬isPage (vs.entry table index)

theorem Linked.walk (linked : Linked vs path table index) :
    walk vs.child .pml4 (path ++ [index]) = some (.page (X86.address (vs.entry table index))) := by
  rw [walk_concat, linked.parent, Option.bind_some, child_of_present linked.present]

variable {paths : Finset (List Nat)}

/-- A pass finds the next table, or makes it. -/
theorem Tables.exists_linked (tables : Tables vs paths) (short : path.length < 3)
    (parent : walk vs.child .pml4 path = some table) (inRange : path ++ [index] ∈ tablePaths) :
    ∃ vs' paths', Tables vs' paths' ∧ Keeps vs vs' ∧ Linked vs' path table index ∧
      ∀ continuation : VSpace → Option (Except VSpaceError Nat × VSpace),
        (if isPresent (vs.entry table index) then continuation vs
        else vs.newTable.bind fun result =>
          continuation (result.2.setEntry table index result.1)) = continuation vs' := by
  by_cases present : isPresent (vs.entry table index)
  · refine ⟨vs, paths, tables, Keeps.refl vs, ⟨parent, present, ?_⟩, fun _ => if_pos present⟩
    exact tables.noPages path table index short parent present
  have missing : path ++ [index] ∉ paths := by
    rw [tables.reached _ (by simp) (by simp; omega), walk_concat, parent, Option.bind_some,
      child_of_vacant present]
    simp
  have smaller : paths.card < tablePaths.card :=
    Finset.card_lt_card (Finset.ssubset_iff_of_subset tables.within |>.mpr ⟨_, inRange, missing⟩)
  have room : vs.memCounter + 4096 < 3 * oneGib := by
    have : tablePaths.card ≤ 1 + 512 + 512 * 512 := card_firstSlotPaths_le
    rw [tables.counter, oneGib]
    omega
  have aligned : vs.memCounter % 4096 = 0 := by
    rw [tables.counter]
    omega
  obtain ⟨entry, made, isTable⟩ := exists_newTable room aligned
  obtain ⟨grown, keeps⟩ :=
    tables.hang (allocated_withPage vs) short parent present isTable inRange
  refine ⟨_, _, grown, keeps, ⟨keeps.walk path table short.le parent, ?_, ?_⟩, ?_⟩
  · rw [entry_setEntry_same, isTable.present]
    rfl
  · rw [entry_setEntry_same, isTable.page]
    simp [tableFlags]
  · intro continuation
    rw [if_neg present, made, Option.bind_some]

theorem Tables.write (tables : Tables vs paths) (deep : path.length = 3)
    (reached : walk vs.child .pml4 path = some pt) (index : Nat) (entry : Entry) :
    Tables (vs.setEntry pt index entry) paths ∧
      ∀ other, other.length ≤ 3 →
        walk (vs.setEntry pt index entry).child .pml4 other = walk vs.child .pml4 other := by
  have inner : ∀ other table, other.length < 3 → walk vs.child .pml4 other = some table →
      ∀ slot, (vs.setEntry pt index entry).entry table slot = vs.entry table slot := by
    intro other table shallow otherReached slot
    apply entry_setEntry_of_ne
    left
    rintro rfl
    have same := tables.separate other path _ shallow.le deep.le otherReached reached
    rw [same] at shallow
    omega
  have sameWalk : ∀ other : List Nat, other.length ≤ 3 →
      walk (vs.setEntry pt index entry).child .pml4 other = walk vs.child .pml4 other := by
    intro other short
    refine walk_congr (fun other table shallow otherReached => ?_) short
    funext slot
    exact child_eq_of_entry_eq (inner other table shallow otherReached slot)
  refine ⟨?_, sameWalk⟩
  constructor
  case separate => exact tables.separate.congr sameWalk
  case within => exact tables.within
  case reached =>
    intro other nonempty short
    rw [sameWalk other short, tables.reached other nonempty short]
  case counter => rw [memCounter_setEntry, tables.counter]
  case below =>
    intro other address short otherReached
    rw [sameWalk other short] at otherReached
    rw [mapping_setEntry, memCounter_setEntry]
    exact tables.below other address short otherReached
  case noPages =>
    intro other table slot shallow otherReached
    rw [sameWalk other shallow.le] at otherReached
    rw [inner other table shallow otherReached slot]
    exact tables.noPages other table slot shallow otherReached

/-- The path to the PT of an address. -/
def ptPath (addr : Nat) : List Nat := [pml4Index addr, pdptIndex addr, pdIndex addr]

theorem child_eq_some_iff {table next : Table} :
    vs.child table index = some next ↔
      isPresent (vs.entry table index) ∧ .page (X86.address (vs.entry table index)) = next := by
  simp [child]

theorem resolveWrapped_eq_some_iff (tables : Tables vs paths) :
    vs.resolveWrapped addr = some result ↔
      ∃ pt, walk vs.child .pml4 (ptPath addr) = some pt ∧
        isPresent (vs.entry pt (ptIndex addr)) ∧
        X86.address (vs.entry pt (ptIndex addr)) + basePageOffset addr = result := by
  simp only [resolveWrapped, resolveAddr, ptPath, walk, Option.bind_eq_bind,
    Option.bind_eq_some_iff, Option.guard_eq_some', Option.pure_def, Option.some.injEq,
    child_eq_some_iff]
  constructor
  · rintro ⟨_, ⟨-, pdptPresent, -, pdPresent, -, -, -, ptPresent, -, -, -, present, rfl⟩, same⟩
    exact ⟨_, ⟨_, ⟨pdptPresent, rfl⟩, _, ⟨pdPresent, rfl⟩, _, ⟨ptPresent, rfl⟩, rfl⟩, present, same⟩
  · rintro ⟨_, ⟨_, ⟨pdptPresent, rfl⟩, _, ⟨pdPresent, rfl⟩, _, ⟨ptPresent, rfl⟩, rfl⟩, present, rfl⟩
    have pdptReached : walk vs.child .pml4 [pml4Index addr] =
        some (.page (X86.address (vs.entry .pml4 (pml4Index addr)))) := by
      simp [walk, child_of_present pdptPresent]
    have pdReached : walk vs.child .pml4 [pml4Index addr, pdptIndex addr] = some (.page
        (X86.address (vs.entry (.page (X86.address (vs.entry .pml4 (pml4Index addr))))
          (pdptIndex addr)))) := by
      simp [walk, child_of_present pdptPresent, child_of_present pdPresent]
    have pdNoPage := tables.noPages _ _ _ (by simp) pdptReached pdPresent
    have ptNoPage := tables.noPages _ _ _ (by simp) pdReached ptPresent
    exact ⟨_, ⟨(), pdptPresent, (), pdPresent, (), pdNoPage, (), ptPresent, (), ptNoPage, (),
      present, rfl⟩, rfl⟩

theorem Keeps.resolveWrapped {vs : VSpace} {paths paths' : Finset (List Nat)} (keeps : Keeps vs vs')
    (tables : Tables vs paths) (tables' : Tables vs' paths')
    (resolved : vs.resolveWrapped addr = some result) : vs'.resolveWrapped addr = some result := by
  obtain ⟨pt, reached, present, same⟩ := (resolveWrapped_eq_some_iff tables).mp resolved
  apply (resolveWrapped_eq_some_iff tables').mpr
  rw [← keeps.pages (ptPath addr) pt rfl reached] at present same
  exact ⟨pt, keeps.walk (ptPath addr) pt le_rfl reached, present, same⟩

section OnePage

variable {vs : VSpace} {vbase pbase : Nat} {rights : MapAction} {table : Table}

theorem mapBasePages_page {entry : Entry}
    (made : X86.new pbase { rights.toPtRights with p := true } = some entry)
    {ptIdx : Nat} (within : ptIdx < 512) :
    mapBasePages rights table pbase 4096 vs ptIdx 0 =
      some (4096, vs.setEntry table ptIdx entry) := by
  rw [mapBasePages, if_pos ⟨by decide, within⟩, Nat.add_zero, made, Option.bind_eq_bind,
    Option.bind_some, mapBasePages, if_neg (by simp [X86.basePageSize_eq]), X86.basePageSize_eq]

theorem mapFromPdEntry_page {entry : Entry}
    (made : X86.new pbase { rights.toPtRights with p := true } = some entry)
    (present : isPresent (vs.entry table (pdIndex vbase)))
    (noPage : ¬isPage (vs.entry table (pdIndex vbase))) :
    mapFromPdEntry vs table vbase pbase 4096 rights =
      some (.ok 4096, vs.setEntry (.page (X86.address (vs.entry table (pdIndex vbase))))
        (ptIndex vbase) entry) := by
  simp [mapFromPdEntry, guard, present, noPage, getPt, mapBasePages_page made (ptIndex_lt vbase)]

theorem mapFromPd_page :
    mapFromPd vs table vbase pbase 4096 rights =
      if isPresent (vs.entry table (pdIndex vbase)) then
        mapFromPdEntry vs table vbase pbase 4096 rights
      else vs.newTable.bind fun result =>
        mapFromPdEntry (result.2.setEntry table (pdIndex vbase) result.1) table vbase pbase 4096
          rights := by
  have small : ¬largePageSize ≤ 4096 := by simp [X86.largePageSize_eq]
  simp only [mapFromPd, small, and_false, ↓reduceIte]
  rfl

theorem mapFromPdpt_page :
    mapFromPdpt vs table vbase pbase 4096 rights =
      if isPresent (vs.entry table (pdptIndex vbase)) then
        mapFromPdptEntry vs table vbase pbase 4096 rights
      else vs.newTable.bind fun result =>
        mapFromPdptEntry (result.2.setEntry table (pdptIndex vbase) result.1) table vbase pbase
          4096 rights := by
  have small : ¬hugePageSize ≤ 4096 := by simp [X86.hugePageSize_eq]
  simp only [mapFromPdpt, small, and_false, ↓reduceIte]
  rfl

theorem mapPass_page (alignedTo : pbase % 4096 = 0) (alignedFrom : vbase % 4096 = 0)
    (someRights : rights ≠ .none) :
    mapPass vs vbase pbase 4096 rights =
      if isPresent (vs.entry .pml4 (pml4Index vbase)) then
        mapFromPml4Entry vs vbase pbase 4096 rights
      else vs.newTable.bind fun result =>
        mapFromPml4Entry (result.2.setEntry .pml4 (pml4Index vbase) result.1) vbase pbase 4096
          rights := by
  simp only [mapPass, guard, X86.basePageSize_eq, alignedTo, alignedFrom, Nat.mod_self, someRights,
    ne_eq, not_false_eq_true, ↓reduceIte]
  rfl

end OnePage

theorem page_eq_of_indices (inRange : addr < vspaceRange) (inRange' : addr' < vspaceRange)
    (samePath : ptPath addr = ptPath addr') (sameIndex : ptIndex addr = ptIndex addr') :
    addr / 4096 = addr' / 4096 := by
  simp only [ptPath, X86.pml4Index_eq, X86.pdptIndex_eq, X86.pdIndex_eq, List.cons.injEq,
    and_true] at samePath
  simp only [X86.ptIndex_eq] at sameIndex
  simp only [vspaceRange] at inRange inRange'
  omega

theorem indices_eq_of_page (samePage : addr / 4096 = addr' / 4096) :
    ptPath addr = ptPath addr' ∧ ptIndex addr = ptIndex addr' := by
  simp only [ptPath, X86.pml4Index_eq, X86.pdptIndex_eq, X86.pdIndex_eq, List.cons.injEq, and_true,
    X86.ptIndex_eq]
  omega

/-- What mapping the page at `vbase` leaves behind. -/
structure Mapped (vs vs' : VSpace) (vbase pbase : Nat) : Prop where
  here : ∀ addr, addr / 4096 = vbase / 4096 →
    vs'.resolveWrapped addr = some (pbase + basePageOffset addr)
  elsewhere : ∀ addr result, addr < vspaceRange → addr / 4096 ≠ vbase / 4096 →
    vs.resolveWrapped addr = some result → vs'.resolveWrapped addr = some result

theorem Tables.mapped_write (tables : Tables vs paths) (inRange : vbase < vspaceRange)
    (reached : walk vs.child .pml4 (ptPath vbase) = some pt) {entry : Entry}
    (address : X86.address entry = pbase) (present : isPresent entry) :
    Mapped vs (vs.setEntry pt (ptIndex vbase) entry) vbase pbase := by
  obtain ⟨written, sameWalk⟩ := tables.write rfl reached (ptIndex vbase) entry
  constructor
  case here =>
    intro addr samePage
    obtain ⟨samePath, sameIndex⟩ := indices_eq_of_page samePage
    apply (resolveWrapped_eq_some_iff written).mpr
    refine ⟨pt, ?_, ?_, ?_⟩
    · rw [sameWalk _ le_rfl, samePath, reached]
    · rw [sameIndex, entry_setEntry_same]
      exact present
    · rw [sameIndex, entry_setEntry_same, address]
  case elsewhere =>
    intro addr result addrInRange otherPage resolved
    obtain ⟨pt', reached', present', same⟩ := (resolveWrapped_eq_some_iff tables).mp resolved
    have sameEntry : (vs.setEntry pt (ptIndex vbase) entry).entry pt' (ptIndex addr) =
        vs.entry pt' (ptIndex addr) := by
      apply entry_setEntry_of_ne
      by_contra both
      obtain ⟨rfl, sameIndex⟩ := not_or.mp both |>.imp not_not.mp not_not.mp
      have samePath := tables.separate _ _ _ le_rfl le_rfl reached' reached
      exact otherPage (page_eq_of_indices addrInRange inRange samePath sameIndex)
    apply (resolveWrapped_eq_some_iff written).mpr
    rw [← sameEntry] at present' same
    exact ⟨pt', by rw [sameWalk _ le_rfl, reached'], present', same⟩

theorem Tables.exists_mapGeneric (tables : Tables vs paths) (inRange : vbase < vspaceRange)
    (alignedFrom : vbase % 4096 = 0) (alignedTo : pbase % 4096 = 0)
    (fits : pbase < 2 ^ 52) :
    ∃ vs' paths', mapGeneric vs vbase pbase 4096 .readWriteExecuteUser = some (.ok (), vs') ∧
      Tables vs' paths' ∧ Mapped vs vs' vbase pbase := by
  have root : pml4Index vbase = 0 := by
    have below : vbase < 2 ^ 39 := inRange
    rw [X86.pml4Index_eq, Nat.div_eq_of_lt below]
  have pdptWithin := pdptIndex_lt vbase
  have pdptInRange : [] ++ [pml4Index vbase] ∈ tablePaths := by
    rw [root]
    exact mem_firstSlotPaths.mpr (.inl rfl)
  have pdInRange : ([] ++ [pml4Index vbase]) ++ [pdptIndex vbase] ∈ tablePaths := by
    rw [root]
    exact mem_firstSlotPaths.mpr (.inr (.inl ⟨_, pdptWithin, rfl⟩))
  have ptInRange :
      (([] ++ [pml4Index vbase]) ++ [pdptIndex vbase]) ++ [pdIndex vbase] ∈ tablePaths := by
    rw [root]
    exact mem_firstSlotPaths.mpr (.inr (.inr ⟨_, pdptWithin, _, pdIndex_lt vbase, rfl⟩))
  -- one table per level is found or made, each one reached from the one before
  obtain ⟨vs₁, _, tables₁, keeps₁, linked₁, pass₁⟩ := tables.exists_linked (by simp) rfl pdptInRange
  obtain ⟨vs₂, _, tables₂, keeps₂, linked₂, pass₂⟩ :=
    tables₁.exists_linked (by simp) linked₁.walk pdInRange
  obtain ⟨vs₃, paths₃, tables₃, keeps₃, linked₃, pass₃⟩ :=
    tables₂.exists_linked (by simp) linked₂.walk ptInRange
  have keeps := (keeps₁.trans keeps₂).trans keeps₃
  have reached : walk vs₃.child .pml4 (ptPath vbase) = some _ := linked₃.walk
  obtain ⟨entry, made, isEntry⟩ := exists_entry alignedTo fits
    { MapAction.readWriteExecuteUser.toPtRights with p := true }
  have pass := calc
    mapPass vs vbase pbase 4096 .readWriteExecuteUser
    _ = _ := mapPass_page alignedTo alignedFrom (by decide)
    _ = mapFromPml4Entry vs₁ vbase pbase 4096 .readWriteExecuteUser :=
        pass₁ fun vs => mapFromPml4Entry vs vbase pbase 4096 .readWriteExecuteUser
    _ = mapFromPdpt vs₁ _ vbase pbase 4096 .readWriteExecuteUser := by
      simp [mapFromPml4Entry, guard, linked₁.present, getPdpt]
    _ = _ := mapFromPdpt_page
    _ = mapFromPdptEntry vs₂ _ vbase pbase 4096 .readWriteExecuteUser :=
        pass₂ fun vs => mapFromPdptEntry vs _ vbase pbase 4096 .readWriteExecuteUser
    _ = mapFromPd vs₂ _ vbase pbase 4096 .readWriteExecuteUser := by
      simp [mapFromPdptEntry, guard, linked₂.present, linked₂.noPage, getPd]
    _ = _ := mapFromPd_page
    _ = mapFromPdEntry vs₃ _ vbase pbase 4096 .readWriteExecuteUser :=
        pass₃ fun vs => mapFromPdEntry vs _ vbase pbase 4096 .readWriteExecuteUser
    _ = _ := mapFromPdEntry_page made linked₃.present linked₃.noPage
  have mapped : Mapped vs₃ (vs₃.setEntry _ (ptIndex vbase) entry) vbase pbase :=
    tables₃.mapped_write inRange reached isEntry.address isEntry.present
  refine ⟨_, paths₃, ?_, (tables₃.write rfl reached _ _).1, mapped.here, ?_⟩
  · rw [mapGeneric]
    split
    · next failed => simp [pass] at failed
    · next failed => simp [pass] at failed
    · next done =>
        obtain ⟨rfl, rfl⟩ := by simpa [pass] using done
        simp
  · intro addr result addrInRange otherPage resolved
    exact mapped.elsewhere addr result addrInRange otherPage
      (keeps.resolveWrapped tables tables₃ resolved)

end VerifiedBetrfs.VSpace
