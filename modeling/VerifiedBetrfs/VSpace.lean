import Mathlib.Data.Option.Basic
import Mathlib.Tactic.Common
import Mathlib.Algebra.Order.Group.Nat

/-!
# The address space of `vspace/src/lib.rs`

A tree of page tables: a PML4, PDPTs, PDs and PTs with 512 entries each.  A panic of the code is
`none`.  Addresses are natural numbers; all that follows is far below `2 ^ 64`.
-/

namespace VerifiedBetrfs
namespace VSpace

def oneGib : Nat := 1024 * 1024 * 1024
def vspaceRange : Nat := 512 * 1024 * 1024 * 1024

/-- The flags that the code sets in the entries of its tables. -/
structure Flags where
  p : Bool := false
  ps : Bool := false
  rw : Bool := false
  us : Bool := false
  xd : Bool := false
  deriving DecidableEq, Repr

/-- The rights of a mapping. -/
inductive MapAction where
  | none
  | readUser
  | readKernel
  | readWriteUser
  | readWriteKernel
  | readExecuteUser
  | readExecuteKernel
  | readWriteExecuteUser
  | readWriteExecuteKernel
  deriving DecidableEq, Repr

/-- The rights of a mapping, the same for the three sizes of pages. -/
def MapAction.rights : MapAction → Flags
  | .none => {}
  | .readUser => { xd := true }
  | .readKernel => { us := true, xd := true }
  | .readWriteUser => { rw := true, xd := true }
  | .readWriteKernel => { rw := true, us := true, xd := true }
  | .readExecuteUser => {}
  | .readExecuteKernel => { us := true }
  | .readWriteExecuteUser => { rw := true }
  | .readWriteExecuteKernel => { rw := true, us := true }

def MapAction.toPdptRights (action : MapAction) : Flags := action.rights
def MapAction.toPdRights (action : MapAction) : Flags := action.rights
def MapAction.toPtRights (action : MapAction) : Flags := action.rights

/-- What the code takes from the crate `x86`, with what is assumed of it.  The entries of the four
kinds of tables are one type, since each is a word of memory and the code casts any page to a
table. -/
class X86 where
  Entry : Type
  /-- The constructor panics for some addresses. -/
  new : Nat → Flags → Option Entry
  /-- The entry of zeroed memory. -/
  zero : Entry
  address : Entry → Nat
  isPresent : Entry → Bool
  isPage : Entry → Bool
  basePageSize : Nat
  largePageSize : Nat
  hugePageSize : Nat
  pml4SlotSize : Nat
  pml4Index : Nat → Nat
  pdptIndex : Nat → Nat
  pdIndex : Nat → Nat
  ptIndex : Nat → Nat
  basePageOffset : Nat → Nat
  /-- An entry has room for the page-aligned addresses of 52 bits. -/
  exists_new : ∀ addr flags, addr % 4096 = 0 → addr < 2 ^ 52 →
      ∃ entry, new addr flags = some entry ∧
    address entry = addr ∧ isPresent entry = flags.p ∧ isPage entry = flags.ps
  new_zero : new 0 {} = some zero
  basePageSize_eq : basePageSize = 4096
  largePageSize_eq : largePageSize = 2 * 1024 * 1024
  hugePageSize_eq : hugePageSize = 1024 * 1024 * 1024
  pml4Index_eq : ∀ addr, pml4Index addr = addr / 2 ^ 39 % 512
  pdptIndex_eq : ∀ addr, pdptIndex addr = addr / 2 ^ 30 % 512
  pdIndex_eq : ∀ addr, pdIndex addr = addr / 2 ^ 21 % 512
  ptIndex_eq : ∀ addr, ptIndex addr = addr / 2 ^ 12 % 512
  basePageOffset_eq : ∀ addr, basePageOffset addr = addr % 4096

/-- Where a table is: in the record, or in a page of the memory. -/
inductive Table where
  | pml4
  | page (address : Nat)
  deriving DecidableEq, Repr

/-- The block that the operating system gives: three GiB at an address that a table entry
can hold. -/
structure MemoryMap where
  data : Nat
  aligned : data % 4096 = 0
  nonNull : data ≠ 0
  fits : data + 3 * oneGib ≤ 2 ^ 52

end VSpace

open VSpace in
/-- The tables in memory and the allocator of pages. -/
structure VSpace [X86] where
  pml4 : Nat → X86.Entry
  memCounter : Nat
  mapping : MemoryMap
  memory : Nat → Nat → X86.Entry

namespace VSpace

open X86 (Entry basePageOffset basePageSize hugePageSize isPage isPresent largePageSize pdIndex
  pdptIndex pml4Index pml4SlotSize ptIndex)

variable [X86]

/-- The error that a mapping reports. -/
structure VSpaceError where
  vaddr : Nat
  deriving DecidableEq, Repr

theorem pdptIndex_lt (addr : Nat) : pdptIndex addr < 512 := by
  rw [X86.pdptIndex_eq]
  exact Nat.mod_lt _ (by decide)

theorem pdIndex_lt (addr : Nat) : pdIndex addr < 512 := by
  rw [X86.pdIndex_eq]
  exact Nat.mod_lt _ (by decide)

theorem ptIndex_lt (addr : Nat) : ptIndex addr < 512 := by
  rw [X86.ptIndex_eq]
  exact Nat.mod_lt _ (by decide)

/-- What an entry holds. -/
structure IsEntry (entry : Entry) (addr : Nat) (flags : Flags) : Prop where
  address : X86.address entry = addr
  present : isPresent entry = flags.p
  page : isPage entry = flags.ps

theorem exists_entry {addr : Nat} (aligned : addr % 4096 = 0) (fits : addr < 2 ^ 52)
    (flags : Flags) : ∃ entry, X86.new addr flags = some entry ∧ IsEntry entry addr flags := by
  obtain ⟨entry, isNew, address, present, page⟩ := X86.exists_new addr flags aligned fits
  exact ⟨entry, isNew, address, present, page⟩

theorem isPresent_zero : isPresent (X86.zero : Entry) = false := by
  obtain ⟨entry, isNew, isEntry⟩ := exists_entry (Nat.zero_mod 4096) (by decide) {}
  obtain rfl := Option.some.inj (X86.new_zero.symm.trans isNew)
  exact isEntry.present

def entry (vs : VSpace) : Table → Nat → Entry
  | .pml4, index => vs.pml4 index
  | .page page, index => vs.memory page index

def setEntry (vs : VSpace) (table : Table) (index : Nat) (entry : Entry) : VSpace :=
  match table with
  | .pml4 => { vs with pml4 := Function.update vs.pml4 index entry }
  | .page page =>
    { vs with
      memory := Function.update vs.memory page
        (Function.update (vs.memory page) index entry) }

section

variable (vs : VSpace)

/-- The next pages of the allocator, zeroed. -/
def allocatePages (howMany : Nat) : Option (Nat × VSpace) := do
  guard (vs.memCounter < 3 * oneGib)
  let newRegion := vs.mapping.data + vs.memCounter
  guard (newRegion ≠ 0)
  return (newRegion,
    { vs with
      memCounter := vs.memCounter + howMany * 4096
      memory := fun page =>
        if newRegion ≤ page ∧ page < newRegion + howMany * basePageSize then
          fun _ => X86.zero
        else vs.memory page })

/-- The counter is advanced here and once more in `allocatePages`. -/
def allocateOnePage : Option (Nat × VSpace) :=
  allocatePages { vs with memCounter := vs.memCounter + 4096 } 1

def newTable : Option (Entry × VSpace) := do
  let (paddr, vs) ← vs.allocateOnePage
  let entry ← X86.new paddr { p := true, rw := true, us := true }
  return (entry, vs)

def newPt : Option (Entry × VSpace) := vs.newTable
def newPd : Option (Entry × VSpace) := vs.newTable
def newPdpt : Option (Entry × VSpace) := vs.newTable

end

def getPt (entry : Entry) : Table := .page (X86.address entry)
def getPd (entry : Entry) : Table := .page (X86.address entry)
def getPdpt (entry : Entry) : Table := .page (X86.address entry)

/-! ## Mapping a region

The loops return how much of the region they have mapped. -/

/-- The loop over the entries of a PDPT, each a page of one GiB. -/
def mapHugePages (rights : MapAction) (pdpt : Table) (pbase psize : Nat)
    (vs : VSpace) (pdptIdx mapped : Nat) : Option (Nat × VSpace) :=
  if mapped < psize ∧ hugePageSize ≤ psize - mapped ∧ pdptIdx < 512 then do
    guard (¬isPresent (vs.entry pdpt pdptIdx))
    let entry ← X86.new (pbase + mapped) { rights.toPdptRights with p := true, ps := true }
    mapHugePages rights pdpt pbase psize (vs.setEntry pdpt pdptIdx entry)
      (pdptIdx + 1) (mapped + hugePageSize)
  else some (mapped, vs)
termination_by 512 - pdptIdx

/-- The loop over the entries of a PD.  Unlike the loop above it reports a present entry as an
error, with the entries before it already written. -/
def mapLargePages (rights : MapAction) (pd : Table) (vbase pbase psize : Nat)
    (vs : VSpace) (pdIdx mapped : Nat) : Option (Except VSpaceError Nat × VSpace) :=
  if mapped < psize ∧ largePageSize ≤ psize - mapped ∧ pdIdx < 512 then
    if isPresent (vs.entry pd pdIdx) then some (.error ⟨vbase⟩, vs)
    else do
      let entry ← X86.new (pbase + mapped) { rights.toPdRights with p := true, ps := true }
      mapLargePages rights pd vbase pbase psize (vs.setEntry pd pdIdx entry)
        (pdIdx + 1) (mapped + largePageSize)
  else some (.ok mapped, vs)
termination_by 512 - pdIdx

/-- The loop over the entries of a PT.  It overwrites what was mapped before. -/
def mapBasePages (rights : MapAction) (pt : Table) (pbase psize : Nat)
    (vs : VSpace) (ptIdx mapped : Nat) : Option (Nat × VSpace) :=
  if mapped < psize ∧ ptIdx < 512 then do
    let entry ← X86.new (pbase + mapped) { rights.toPtRights with p := true }
    mapBasePages rights pt pbase psize (vs.setEntry pt ptIdx entry)
      (ptIdx + 1) (mapped + basePageSize)
  else some (mapped, vs)
termination_by 512 - ptIdx

section

variable (vs : VSpace) (pd : Table) (vbase pbase psize : Nat) (rights : MapAction)

/-- From the PD entry on, which is present. -/
def mapFromPdEntry : Option (Except VSpaceError Nat × VSpace) := do
  let entry := vs.entry pd (pdIndex vbase)
  guard (isPresent entry)
  if isPage entry then return (.error ⟨vbase⟩, vs)
  let (mapped, vs) ← mapBasePages rights (getPt entry) pbase psize vs (ptIndex vbase) 0
  return (.ok mapped, vs)

def mapFromPd : Option (Except VSpaceError Nat × VSpace) :=
  let pdIdx := pdIndex vbase
  if isPresent (vs.entry pd pdIdx) then mapFromPdEntry vs pd vbase pbase psize rights
  else
    let vaddrPos := pml4SlotSize * pml4Index vbase + hugePageSize * pdptIndex vbase +
      largePageSize * pdIdx
    if vbase = vaddrPos ∧ pbase % largePageSize = 0 ∧ largePageSize ≤ psize then
      mapLargePages rights pd vbase pbase psize vs pdIdx 0
    else do
      let (entry, vs) ← vs.newPt
      mapFromPdEntry (vs.setEntry pd pdIdx entry) pd vbase pbase psize rights

end

section

variable (vs : VSpace) (pdpt : Table) (vbase pbase psize : Nat) (rights : MapAction)

/-- From the PDPT entry on, which is present. -/
def mapFromPdptEntry : Option (Except VSpaceError Nat × VSpace) := do
  let entry := vs.entry pdpt (pdptIndex vbase)
  guard (isPresent entry)
  if isPage entry then return (.error ⟨vbase⟩, vs)
  mapFromPd vs (getPd entry) vbase pbase psize rights

def mapFromPdpt : Option (Except VSpaceError Nat × VSpace) :=
  let pdptIdx := pdptIndex vbase
  if isPresent (vs.entry pdpt pdptIdx) then mapFromPdptEntry vs pdpt vbase pbase psize rights
  else
    let vaddrPos := pml4SlotSize * pml4Index vbase + hugePageSize * pdptIdx
    if vbase = vaddrPos ∧ pbase % hugePageSize = 0 ∧ hugePageSize ≤ psize then do
      let (mapped, vs) ← mapHugePages rights pdpt pbase psize vs pdptIdx 0
      return (.ok mapped, vs)
    else do
      let (entry, vs) ← vs.newPd
      mapFromPdptEntry (vs.setEntry pdpt pdptIdx entry) pdpt vbase pbase psize rights

end

def mapFromPml4Entry (vs : VSpace) (vbase pbase psize : Nat) (rights : MapAction) :
    Option (Except VSpaceError Nat × VSpace) := do
  let entry := vs.entry .pml4 (pml4Index vbase)
  guard (isPresent entry)
  mapFromPdpt vs (getPdpt entry) vbase pbase psize rights

/-- The body of `map_generic`, whose recursive calls all go on behind what it has mapped. -/
def mapPass (vs : VSpace) (vbase pbase psize : Nat) (rights : MapAction) :
    Option (Except VSpaceError Nat × VSpace) := do
  guard (pbase % basePageSize = 0)
  guard (psize % basePageSize = 0)
  guard (vbase % basePageSize = 0)
  guard (rights ≠ .none)
  let pml4Idx := pml4Index vbase
  if isPresent (vs.entry .pml4 pml4Idx) then mapFromPml4Entry vs vbase pbase psize rights
  else do
    let (entry, vs) ← vs.newPdpt
    mapFromPml4Entry (vs.setEntry .pml4 pml4Idx entry) vbase pbase psize rights

variable {rights : MapAction} {pbase psize mapped mapped' : Nat} {vs vs' : VSpace}

theorem mapHugePages_mono {pdpt : Table} {pdptIdx : Nat}
    (result : mapHugePages rights pdpt pbase psize vs pdptIdx mapped = some (mapped', vs')) :
    mapped ≤ mapped' ∧
      (mapped < psize → hugePageSize ≤ psize - mapped → pdptIdx < 512 → mapped < mapped') := by
  fun_induction mapHugePages rights pdpt pbase psize vs pdptIdx mapped with
  | case1 vs pdptIdx mapped going ih =>
    simp only [Option.bind_eq_bind, Option.bind_eq_some_iff] at result
    obtain ⟨-, -, entry, -, rest⟩ := result
    have := (ih entry rest).1
    rw [X86.hugePageSize_eq] at this
    omega
  | case2 vs pdptIdx mapped stopped =>
    obtain ⟨rfl, rfl⟩ : mapped = mapped' ∧ vs = vs' := by simpa using result
    exact ⟨le_rfl, fun more room within => absurd ⟨more, room, within⟩ stopped⟩

theorem mapLargePages_mono {pd : Table} {vbase : Nat} {pdIdx : Nat}
    (result : mapLargePages rights pd vbase pbase psize vs pdIdx mapped = some (.ok mapped', vs')) :
    mapped ≤ mapped' ∧
      (mapped < psize → largePageSize ≤ psize - mapped → pdIdx < 512 → mapped < mapped') := by
  fun_induction mapLargePages rights pd vbase pbase psize vs pdIdx mapped with
  | case1 vs pdIdx mapped going present => simp at result
  | case2 vs pdIdx mapped going vacant ih =>
    simp only [Option.bind_eq_bind, Option.bind_eq_some_iff] at result
    obtain ⟨entry, -, rest⟩ := result
    have := (ih entry rest).1
    rw [X86.largePageSize_eq] at this
    omega
  | case3 vs pdIdx mapped stopped =>
    obtain ⟨rfl, rfl⟩ : mapped = mapped' ∧ vs = vs' := by simpa using result
    exact ⟨le_rfl, fun more room within => absurd ⟨more, room, within⟩ stopped⟩

theorem mapBasePages_mono {pt : Table} {ptIdx : Nat}
    (result : mapBasePages rights pt pbase psize vs ptIdx mapped = some (mapped', vs')) :
    mapped ≤ mapped' ∧ (mapped < psize → ptIdx < 512 → mapped < mapped') := by
  fun_induction mapBasePages rights pt pbase psize vs ptIdx mapped with
  | case1 vs ptIdx mapped going ih =>
    simp only [Option.bind_eq_bind, Option.bind_eq_some_iff] at result
    obtain ⟨entry, -, rest⟩ := result
    have := (ih entry rest).1
    rw [X86.basePageSize_eq] at this
    omega
  | case2 vs ptIdx mapped stopped =>
    obtain ⟨rfl, rfl⟩ : mapped = mapped' ∧ vs = vs' := by simpa using result
    exact ⟨le_rfl, fun more within => absurd ⟨more, within⟩ stopped⟩

section Progress

variable {vs vs' : VSpace} {table : Table} {vbase pbase psize mapped : Nat} {rights : MapAction}

section

variable (positive : 0 < psize)

include positive

theorem mapFromPdEntry_pos
    (result : mapFromPdEntry vs table vbase pbase psize rights = some (.ok mapped, vs')) :
    0 < mapped := by
  simp only [mapFromPdEntry, Option.bind_eq_bind, Option.bind_eq_some_iff] at result
  obtain ⟨-, -, result⟩ := result
  split at result
  · simp at result
  · obtain ⟨⟨mapped', vs''⟩, loop, same⟩ := Option.bind_eq_some_iff.mp result
    obtain ⟨rfl, rfl⟩ : mapped' = mapped ∧ vs'' = vs' := by simpa using same
    exact (mapBasePages_mono loop).2 positive (ptIndex_lt vbase)

theorem mapFromPd_pos
    (result : mapFromPd vs table vbase pbase psize rights = some (.ok mapped, vs')) :
    0 < mapped := by
  simp only [mapFromPd] at result
  split at result
  · exact mapFromPdEntry_pos positive result
  split_ifs at result with fitting
  · exact (mapLargePages_mono result).2 positive fitting.2.2 (pdIndex_lt vbase)
  · obtain ⟨_, -, rest⟩ := Option.bind_eq_some_iff.mp result
    exact mapFromPdEntry_pos positive rest

theorem mapFromPdptEntry_pos
    (result : mapFromPdptEntry vs table vbase pbase psize rights = some (.ok mapped, vs')) :
    0 < mapped := by
  simp only [mapFromPdptEntry, Option.bind_eq_bind, Option.bind_eq_some_iff] at result
  obtain ⟨-, -, result⟩ := result
  split at result
  · simp at result
  · exact mapFromPd_pos positive result

theorem mapFromPdpt_pos
    (result : mapFromPdpt vs table vbase pbase psize rights = some (.ok mapped, vs')) :
    0 < mapped := by
  simp only [mapFromPdpt] at result
  split at result
  · exact mapFromPdptEntry_pos positive result
  split_ifs at result with fitting
  · obtain ⟨⟨mapped', vs''⟩, loop, same⟩ := Option.bind_eq_some_iff.mp result
    obtain ⟨rfl, rfl⟩ : mapped' = mapped ∧ vs'' = vs' := by simpa using same
    exact (mapHugePages_mono loop).2 positive fitting.2.2 (pdptIndex_lt vbase)
  · obtain ⟨_, -, rest⟩ := Option.bind_eq_some_iff.mp result
    exact mapFromPdptEntry_pos positive rest

theorem mapPass_pos
    (result : mapPass vs vbase pbase psize rights = some (.ok mapped, vs')) : 0 < mapped := by
  simp only [mapPass, Option.bind_eq_bind, Option.bind_eq_some_iff] at result
  obtain ⟨-, -, -, -, -, -, -, -, result⟩ := result
  split at result
  · obtain ⟨-, -, rest⟩ := Option.bind_eq_some_iff.mp result
    exact mapFromPdpt_pos positive rest
  · obtain ⟨_, -, entered⟩ := Option.bind_eq_some_iff.mp result
    obtain ⟨-, -, rest⟩ := Option.bind_eq_some_iff.mp entered
    exact mapFromPdpt_pos positive rest

end

end Progress

/-- Map a region, pass by pass. -/
def mapGeneric (vs : VSpace) (vbase pbase psize : Nat) (rights : MapAction) :
    Option (Except VSpaceError Unit × VSpace) :=
  match _pass : mapPass vs vbase pbase psize rights with
  | none => none
  | some (.error error, vs') => some (.error error, vs')
  | some (.ok mapped, vs') =>
    if mapped < psize then
      mapGeneric vs' (vbase + mapped) (pbase + mapped) (psize - mapped) rights
    else some (.ok (), vs')
termination_by psize
decreasing_by
  have := mapPass_pos (by omega) _pass
  omega

def mapGenericWrapped (vs : VSpace) (vbase pregion pregionLen : Nat) :
    Option (Bool × VSpace) := do
  let (result, vs) ← mapGeneric vs vbase pregion pregionLen .readWriteExecuteUser
  return (result.isOk, vs)

/-- The loop of `createVSpace` over the first pages, each mapped to itself. -/
def mapIdentity (vs : VSpace) : Nat → Option VSpace
  | 0 => some vs
  | page + 1 => do
    let vs ← mapIdentity vs page
    let (result, vs) ← mapGeneric vs (page * 4096) (page * 4096) 4096 .readWriteExecuteUser
    guard result.isOk
    return vs

def unmapped (mapping : MemoryMap) (memory : Nat → Nat → Entry) : VSpace where
  pml4 _ := X86.zero
  memCounter := 4096
  mapping := mapping
  memory := memory

/-- The memory is the one the operating system gives, whatever it holds. -/
def createVSpace (mapping : MemoryMap) (memory : Nat → Nat → Entry) : Option VSpace :=
  mapIdentity (unmapped mapping memory) (vspaceRange / 4096)

/-- Every way to the end but a present PT entry panics; the code behind the panics is dead. -/
def resolveAddr (vs : VSpace) (addr : Nat) : Option (Option Nat) := do
  let pml4Entry := vs.entry .pml4 (pml4Index addr)
  guard (isPresent pml4Entry)
  let pdptEntry := vs.entry (getPdpt pml4Entry) (pdptIndex addr)
  guard (isPresent pdptEntry)
  guard (¬isPage pdptEntry)
  let pdEntry := vs.entry (getPd pdptEntry) (pdIndex addr)
  guard (isPresent pdEntry)
  guard (¬isPage pdEntry)
  let ptEntry := vs.entry (getPt pdEntry) (ptIndex addr)
  guard (isPresent ptEntry)
  return some (X86.address ptEntry + basePageOffset addr)

/-- Resolution as the replica calls it. -/
def resolveWrapped (vs : VSpace) (addr : Nat) : Option Nat := do
  let address ← vs.resolveAddr addr
  return address.getD 0

end VSpace
end VerifiedBetrfs
