import VerifiedBetrfs.VSpaceReplica

/-!
# The page tables as the processor reads them

The processor follows the present entries down to a page of one GiB, two MiB or four KiB.
`resolve_addr` knows only the last.
-/

namespace VerifiedBetrfs.VSpace

open X86 (Entry basePageOffset isPage isPresent pdIndex pdptIndex pml4Index ptIndex)

section Crate

variable [X86]

def translate (vs : VSpace) (addr : Nat) : Option Nat := do
  let pml4Entry := vs.entry .pml4 (pml4Index addr)
  guard (isPresent pml4Entry)
  let pdptEntry := vs.entry (getPdpt pml4Entry) (pdptIndex addr)
  guard (isPresent pdptEntry)
  if isPage pdptEntry then return X86.address pdptEntry + addr % X86.hugePageSize
  let pdEntry := vs.entry (getPd pdptEntry) (pdIndex addr)
  guard (isPresent pdEntry)
  if isPage pdEntry then return X86.address pdEntry + addr % X86.largePageSize
  let ptEntry := vs.entry (getPt pdEntry) (ptIndex addr)
  guard (isPresent ptEntry)
  return X86.address ptEntry + basePageOffset addr

/-- The entries of an address lead to a page of four KiB. -/
structure OnBasePage (vs : VSpace) (addr : Nat) (pml4Entry pdptEntry pdEntry ptEntry : Entry) :
    Prop where
  pml4 : vs.entry .pml4 (pml4Index addr) = pml4Entry
  pml4Present : isPresent pml4Entry
  pdpt : vs.entry (getPdpt pml4Entry) (pdptIndex addr) = pdptEntry
  pdptPresent : isPresent pdptEntry
  pdptNoPage : ¬isPage pdptEntry
  pd : vs.entry (getPd pdptEntry) (pdIndex addr) = pdEntry
  pdPresent : isPresent pdEntry
  pdNoPage : ¬isPage pdEntry
  pt : vs.entry (getPt pdEntry) (ptIndex addr) = ptEntry
  ptPresent : isPresent ptEntry

variable {vs : VSpace} {addr : Nat} {pml4Entry pdptEntry pdEntry ptEntry : Entry}

theorem OnBasePage.resolveWrapped
    (onPage : OnBasePage vs addr pml4Entry pdptEntry pdEntry ptEntry) :
    vs.resolveWrapped addr = vs.translate addr ∧
      vs.translate addr = some (X86.address ptEntry + basePageOffset addr) := by
  obtain ⟨rfl, pml4, rfl, pdpt, pdptNoPage, rfl, pd, pdNoPage, rfl, pt⟩ := onPage
  simp [VSpace.resolveWrapped, resolveAddr, translate, guard, pml4, pdpt, pdptNoPage,
    pd, pdNoPage, pt]

theorem exists_onBasePage {result : Nat} (resolved : vs.resolveWrapped addr = some result) :
    ∃ pml4Entry pdptEntry pdEntry ptEntry,
      OnBasePage vs addr pml4Entry pdptEntry pdEntry ptEntry := by
  simp only [VSpace.resolveWrapped, resolveAddr, Option.bind_eq_bind, Option.bind_eq_some_iff,
    Option.guard_eq_some'] at resolved
  obtain ⟨_, ⟨-, pml4, -, pdpt, -, pdptNoPage, -, pd, -, pdNoPage, -, pt, -⟩, -⟩ := resolved
  exact ⟨_, _, _, _, rfl, pml4, rfl, pdpt, pdptNoPage, rfl, pd, pdNoPage, rfl, pt⟩

/-- Resolution gives the address that the processor finds, or zero if it is not mapped, exactly for
the addresses on pages of four KiB.  On all others it panics. -/
theorem resolveWrapped_translates_iff (vs : VSpace) (addr : Nat) :
    (vs.resolveWrapped addr = some ((vs.translate addr).getD 0) ↔
      ∃ pml4Entry pdptEntry pdEntry ptEntry,
        OnBasePage vs addr pml4Entry pdptEntry pdEntry ptEntry) ∧
    (vs.resolveWrapped addr ≠ none → vs.resolveWrapped addr = vs.translate addr) := by
  refine ⟨⟨exists_onBasePage, ?_⟩, ?_⟩
  · rintro ⟨_, _, _, _, onPage⟩
    obtain ⟨resolved, isPage⟩ := onPage.resolveWrapped
    rw [resolved, isPage, Option.getD_some]
  · intro answered
    obtain ⟨result, resolved⟩ := Option.ne_none_iff_exists'.mp answered
    obtain ⟨_, _, _, _, onPage⟩ := exists_onBasePage resolved
    exact onPage.resolveWrapped.1

end Crate

open VSpaceIfc.PlainEntry in
/-- After the page zero is mapped, the first address behind the first PDPT is not mapped, and
asking for it panics. -/
theorem resolveWrapped_panics :
    ∃ vs, mapGeneric (unmapped VSpaceIfc.lowMapping fun _ _ => X86.zero) 0 0 4096
        .readWriteExecuteUser = some (.ok (), vs) ∧
      vs.translate vspaceRange = none ∧ vs.resolveWrapped vspaceRange = none := by
  have tables := VSpaceIfc.tables_unmapped VSpaceIfc.lowMapping fun _ _ => X86.zero
  obtain ⟨vs, paths, mapped, tables, -⟩ :=
    tables.exists_mapGeneric (by decide : 0 < vspaceRange) rfl rfl (by decide : 0 < 2 ^ 52)
  have absent : isPresent (vs.entry .pml4 (pml4Index vspaceRange)) = false := by
    by_contra present
    have present := Bool.eq_true_of_not_eq_false present
    have reached : [pml4Index vspaceRange] ∈ paths :=
      (tables.reached _ (List.cons_ne_nil _ _) (by decide)).mpr
        (by simp [TableTree.walk, child_of_present present])
    obtain isPath | ⟨_, -, isPath⟩ | ⟨_, -, _, -, isPath⟩ :=
      mem_firstSlotPaths.mp (tables.within reached) <;>
    simp [X86.pml4Index_eq, vspaceRange] at isPath
  exact ⟨vs, mapped, by simp [translate, guard, absent],
    by simp [VSpace.resolveWrapped, resolveAddr, guard, absent]⟩

end VerifiedBetrfs.VSpace
