import VerifiedBetrfs.NRSimple
import VerifiedBetrfs.VSpaceMapping

/-!
# The replicated address space

The state and all answers of `vSpaceIfc` are zero.  The answers of the implementation are followed
over whole sequences of operations.
-/

namespace VerifiedBetrfs

namespace NRIfc

/-- The answers of one copy of the data structure. -/
def results (nrifc : NRIfc) : nrifc.NRState → List nrifc.Input → List nrifc.ReturnType
  | _, [] => []
  | s, .rOp op :: ops => nrifc.read s op :: results nrifc s ops
  | s, .uOp op :: ops =>
    (nrifc.update s op).returnValue :: results nrifc (nrifc.update s op).newState ops

end NRIfc

namespace VSpaceIfc

open VSpace
open X86 (Entry basePageOffset)

/-- Map the page `key` to the address `val`. -/
structure UpdateOp where
  key : Nat
  val : Nat

/-- Resolve the address `key`. -/
structure ReadonlyOp where
  key : Nat

abbrev vSpaceIfc : NRIfc where
  NRState := Nat
  UpdateOp := UpdateOp
  ReadonlyOp := ReadonlyOp
  ReturnType := Nat
  initState := 0
  update _ _ := ⟨0, 0⟩
  read _ _ := 0

section

variable [X86]

def initializeVSpace (mapping : MemoryMap) (memory : Nat → Nat → Entry) : Option VSpace :=
  createVSpace mapping memory

/-- The boolean that the Rust function returns is a `uint64` for its caller. -/
def doUpdate (vs : VSpace) (op : UpdateOp) : Option (VSpace × Nat) := do
  let (ok, vs) ← vs.mapGenericWrapped op.key op.val 0x1000
  return (vs, ok.toNat)

def doReadonly (vs : VSpace) (op : ReadonlyOp) : Option Nat :=
  vs.resolveWrapped op.key

/-- The answers of the implementation. -/
def run : VSpace → List vSpaceIfc.Input → Option (List Nat)
  | _, [] => some []
  | vs, .rOp op :: ops => do
    let ret ← doReadonly vs op
    let rets ← run vs ops
    return ret :: rets
  | vs, .uOp op :: ops => do
    let (vs, ret) ← doUpdate vs op
    let rets ← run vs ops
    return ret :: rets

end

/-- Page-aligned keys and values inside the mapped range. -/
def InRange : vSpaceIfc.Input → Prop
  | .rOp op => op.key < vspaceRange ∧ op.key % 4096 = 0
  | .uOp op => (op.key < vspaceRange ∧ op.key % 4096 = 0) ∧
      op.val < vspaceRange ∧ op.val % 4096 = 0

/-- Where each page is mapped: at first to itself. -/
def identity (page : Nat) : Nat := page * 4096

def translate (translation : Nat → Nat) : vSpaceIfc.Input → Nat → Nat
  | .rOp _ => translation
  | .uOp op => Function.update translation (op.key / 4096) op.val

theorem translate_uOp (translation : Nat → Nat) (op : UpdateOp) :
    translate translation (.uOp op) = Function.update translation (op.key / 4096) op.val := rfl

/-- The answers of an address space with the given translation. -/
def answers : (Nat → Nat) → List vSpaceIfc.Input → List Nat
  | _, [] => []
  | translation, .rOp op :: ops => translation (op.key / 4096) :: answers translation ops
  | translation, .uOp op :: ops => 1 :: answers (translate translation (.uOp op)) ops

section

variable {translation : Nat → Nat} {ops : List vSpaceIfc.Input}

theorem results_eq_zeros (s : Nat) (ops : List vSpaceIfc.Input) :
    vSpaceIfc.results s ops = List.replicate ops.length (0 : Nat) := by
  induction ops generalizing s with
  | nil => rfl
  | cons op ops ih =>
    cases op with
    | rOp op => exact congrArg (List.cons (0 : Nat)) (ih s)
    | uOp op => exact congrArg (List.cons (0 : Nat)) (ih 0)

/-- The answer to one operation. -/
def answer (translation : Nat → Nat) : vSpaceIfc.Input → Nat
  | .rOp op => translation (op.key / 4096)
  | .uOp _ => 1

theorem getElem?_answers (translation : Nat → Nat) (ops : List vSpaceIfc.Input) (index : Nat) :
    (answers translation ops)[index]? =
      ops[index]?.map (answer ((ops.take index).foldl translate translation)) := by
  induction ops generalizing translation index with
  | nil => rfl
  | cons op ops ih =>
    cases index with
    | zero => cases op <;> rfl
    | succ index => cases op <;> simp [answers, ih, translate]

theorem length_answers (translation : Nat → Nat) (ops : List vSpaceIfc.Input) :
    (answers translation ops).length = ops.length := by
  induction ops generalizing translation with
  | nil => rfl
  | cons op ops ih => cases op <;> simp [answers, ih]

theorem answer_eq_zero_iff {op : vSpaceIfc.Input} :
    answer translation op = 0 ↔ ∃ key, op = .rOp ⟨key⟩ ∧ translation (key / 4096) = 0 := by
  cases op with
  | rOp op => exact ⟨fun zero => ⟨op.key, rfl, zero⟩,
    fun ⟨_, same, zero⟩ => by cases same; exact zero⟩
  | uOp op => exact ⟨fun absurdity => absurd absurdity one_ne_zero,
    fun ⟨_, same, _⟩ => by cases same⟩

theorem answers_eq_zeros_iff (inRange : ∀ op ∈ ops, InRange op) :
    answers identity ops = List.replicate ops.length 0 ↔ ∀ op ∈ ops, op = .rOp ⟨0⟩ := by
  induction ops with
  | nil => simp [answers]
  | cons op ops ih =>
    have rest := ih fun op later => inRange op (.tail _ later)
    cases op with
    | rOp op =>
      have aligned : op.key % 4096 = 0 := (inRange _ (.head _)).2
      have same : identity (op.key / 4096) = 0 ↔
          (NRIfc.Input.rOp op : vSpaceIfc.Input) = .rOp ⟨0⟩ := by
        obtain ⟨_⟩ := op
        simp only [identity, NRIfc.Input.rOp.injEq, ReadonlyOp.mk.injEq] at aligned ⊢
        omega
      simp [answers, List.replicate_succ, rest, same]
    | uOp op => simp [answers, List.replicate_succ]

end

section Crate

variable [X86]

/-- The tables of the address space hold the translation of the whole range. -/
def Translates (vs : VSpace) (translation : Nat → Nat) : Prop :=
  (∃ paths, Tables vs paths) ∧ ∀ addr < vspaceRange,
    vs.resolveWrapped addr = some (translation (addr / 4096) + basePageOffset addr)

section

variable (mapping : MemoryMap) (memory : Nat → Nat → Entry)

include mapping memory

theorem tables_unmapped : Tables (unmapped mapping memory) ∅ := by
  have nowhere : ∀ path : List Nat, path ≠ [] →
      TableTree.walk (unmapped mapping memory).child .pml4 path = none := by
    intro path nonempty
    cases path with
    | nil => exact absurd rfl nonempty
    | cons index path =>
      have absent : (unmapped mapping memory).child .pml4 index = none :=
        child_of_vacant (by simp [VSpace.entry, unmapped, isPresent_zero])
      rw [TableTree.walk, absent]
      rfl
  have rooted : ∀ {path : List Nat} {table : Table},
      TableTree.walk (unmapped mapping memory).child .pml4 path = some table →
        path = [] ∧ table = .pml4 := by
    intro path table reached
    cases path with
    | nil => exact ⟨rfl, (Option.some.inj reached).symm⟩
    | cons index path => simp [nowhere] at reached
  constructor
  case separate =>
    intro path path' table _ _ reached reached'
    rw [(rooted reached).1, (rooted reached').1]
  case within => exact Finset.empty_subset _
  case reached =>
    intro path nonempty _
    simp [nowhere path nonempty]
  case counter => rfl
  case below =>
    intro path address _ reached
    cases (rooted reached).2
  case noPages =>
    intro path table index _ reached present
    rw [(rooted reached).2] at present
    simp [VSpace.entry, unmapped, isPresent_zero] at present

theorem exists_mapIdentity {pages : Nat} (few : pages ≤ vspaceRange / 4096) :
    ∃ vs paths, mapIdentity (unmapped mapping memory) pages = some vs ∧ Tables vs paths ∧
      ∀ addr < vspaceRange, addr / 4096 < pages → vs.resolveWrapped addr = some addr := by
  induction pages with
  | zero =>
    exact ⟨_, ∅, rfl, tables_unmapped mapping memory, fun _ _ before => absurd before (by omega)⟩
  | succ page ih =>
    obtain ⟨vs, paths, made, tables, resolves⟩ := ih (by omega)
    have inRange : page * 4096 < vspaceRange := by
      omega
    have aligned : page * 4096 % 4096 = 0 := Nat.mul_mod_left page 4096
    obtain ⟨vs', paths', mapped, tables', result⟩ :=
      tables.exists_mapGeneric inRange aligned aligned (inRange.trans (by decide))
    refine ⟨vs', paths', ?_, tables', ?_⟩
    · simp [mapIdentity, made, mapped, guard, Except.isOk, Except.toBool]
    · intro addr addrInRange before
      by_cases here : addr / 4096 = page * 4096 / 4096
      · rw [result.here addr here, X86.basePageOffset_eq]
        congr 1
        omega
      · apply result.elsewhere addr addr addrInRange here
        exact resolves addr addrInRange (by omega)

theorem exists_initializeVSpace :
    ∃ vs, initializeVSpace mapping memory = some vs ∧ Translates vs identity := by
  obtain ⟨vs, paths, made, tables, resolves⟩ := exists_mapIdentity mapping memory le_rfl
  refine ⟨vs, made, ⟨paths, tables⟩, ?_⟩
  intro addr inRange
  have within : addr / 4096 < vspaceRange / 4096 := by
    rw [vspaceRange] at inRange ⊢
    omega
  have whole : identity (addr / 4096) + basePageOffset addr = addr := by
    rw [X86.basePageOffset_eq]
    exact Nat.div_add_mod' addr 4096
  rw [whole]
  exact resolves addr inRange within

end

variable {translation : Nat → Nat} {vs : VSpace} {ops : List vSpaceIfc.Input}

section

variable (translates : Translates vs translation)

include translates

theorem exists_doUpdate {op : UpdateOp} (inRange : InRange (.uOp op)) :
    ∃ vs', doUpdate vs op = some (vs', 1) ∧ Translates vs' (translate translation (.uOp op)) := by
  obtain ⟨⟨_, tables⟩, resolves⟩ := translates
  obtain ⟨⟨keyInRange, keyAligned⟩, valInRange, valAligned⟩ := inRange
  obtain ⟨vs', paths', mapped, tables', result⟩ :=
    tables.exists_mapGeneric keyInRange keyAligned valAligned (valInRange.trans (by decide))
  refine ⟨vs', ?_, ⟨paths', tables'⟩, ?_⟩
  · simp [doUpdate, mapGenericWrapped, mapped, Except.isOk, Except.toBool]
  intro addr addrInRange
  by_cases here : addr / 4096 = op.key / 4096
  · rw [result.here addr here, translate_uOp, here, Function.update_self]
  · rw [translate_uOp, Function.update_of_ne here]
    exact result.elsewhere addr _ addrInRange here (resolves addr addrInRange)

theorem doReadonly_eq {op : ReadonlyOp}
    (inRange : InRange (.rOp op)) : doReadonly vs op = some (translation (op.key / 4096)) := by
  have offset : basePageOffset op.key = 0 := (X86.basePageOffset_eq _).trans inRange.2
  rw [doReadonly, translates.2 op.key inRange.1, offset, Nat.add_zero]

theorem run_eq_answers (inRange : ∀ op ∈ ops, InRange op) :
    run vs ops = some (answers translation ops) := by
  induction ops generalizing vs translation with
  | nil => rfl
  | cons op ops ih =>
    have rest : ∀ op ∈ ops, InRange op := fun op later => inRange op (.tail _ later)
    have first := inRange op (.head _)
    cases op with
    | rOp op => simp [run, doReadonly_eq translates first, ih translates rest, answers]
    | uOp op =>
      obtain ⟨_, updated, translates'⟩ := exists_doUpdate translates first
      simp [run, updated, ih translates' rest, answers]

end

/-- Over every sequence of operations on a new address space, an answer is the one of the
specification exactly if the operation reads a page that is mapped to address zero at that time.  A
whole sequence is answered as specified exactly if it only reads the page zero. -/
theorem answers_specified_iff (mapping : MemoryMap) (memory : Nat → Nat → Entry)
    (ops : List vSpaceIfc.Input) (inRange : ∀ op ∈ ops, InRange op) :
    ∃ vs rets, initializeVSpace mapping memory = some vs ∧ run vs ops = some rets ∧
      rets.length = ops.length ∧
      (∀ index < ops.length,
        rets[index]? = (vSpaceIfc.results vSpaceIfc.initState ops)[index]? ↔
          ∃ key, ops[index]? = some (.rOp ⟨key⟩) ∧
            (ops.take index).foldl translate identity (key / 4096) = 0) ∧
      (rets = vSpaceIfc.results vSpaceIfc.initState ops ↔ ∀ op ∈ ops, op = .rOp ⟨0⟩) := by
  obtain ⟨vs, created, translates⟩ := exists_initializeVSpace mapping memory
  refine ⟨vs, answers identity ops, created, run_eq_answers translates inRange, ?_, ?_, ?_⟩
  · exact length_answers identity ops
  · intro index within
    have zero : (vSpaceIfc.results vSpaceIfc.initState ops)[index]? = some (0 : Nat) := by
      rw [results_eq_zeros]
      simp [within]
    rw [zero, getElem?_answers, List.getElem?_eq_getElem within]
    simp [answer_eq_zero_iff]
  · rw [results_eq_zeros]
    exact answers_eq_zeros_iff inRange

end Crate

/-- An entry that keeps its address and its flags apart. -/
structure PlainEntry where
  address : Nat
  flags : Flags

namespace PlainEntry

/-- The crate with plain entries: its assumptions can be met. -/
scoped instance x86 : X86 where
  Entry := PlainEntry
  new address flags :=
    if address % 4096 = 0 ∧ address < 2 ^ 52 then some ⟨address, flags⟩ else none
  zero := ⟨0, {}⟩
  address := address
  isPresent entry := entry.flags.p
  isPage entry := entry.flags.ps
  basePageSize := 4096
  largePageSize := 2 * 1024 * 1024
  hugePageSize := 1024 * 1024 * 1024
  pml4SlotSize := 512 * 1024 * 1024 * 1024
  pml4Index addr := addr / 2 ^ 39 % 512
  pdptIndex addr := addr / 2 ^ 30 % 512
  pdIndex addr := addr / 2 ^ 21 % 512
  ptIndex addr := addr / 2 ^ 12 % 512
  basePageOffset addr := addr % 4096
  exists_new _ _ aligned fits := ⟨_, if_pos ⟨aligned, fits⟩, rfl, rfl, rfl⟩
  new_zero := rfl
  basePageSize_eq := rfl
  largePageSize_eq := rfl
  hugePageSize_eq := rfl
  pml4Index_eq _ := rfl
  pdptIndex_eq _ := rfl
  pdIndex_eq _ := rfl
  ptIndex_eq _ := rfl
  basePageOffset_eq _ := rfl

end PlainEntry

/-- Memory at one GiB. -/
def lowMapping : MemoryMap where
  data := 0x40000000
  aligned := by decide
  nonNull := by decide
  fits := by decide

open PlainEntry in
theorem answers_specified_iff_zeroPage :
    ∃ vs rets, initializeVSpace lowMapping (fun _ _ => X86.zero) = some vs ∧
      run vs [.rOp ⟨0⟩] = some rets ∧
      rets = vSpaceIfc.results vSpaceIfc.initState [.rOp ⟨0⟩] := by
  obtain ⟨vs, rets, created, ran, -, -, whole⟩ :=
    answers_specified_iff lowMapping (fun _ _ => X86.zero) [.rOp ⟨0⟩]
      (List.forall_mem_singleton.mpr ⟨by decide, rfl⟩)
  exact ⟨vs, rets, created, ran, whole.mpr fun op member => List.mem_singleton.mp member⟩

open PlainEntry in
/-- An update and a read of its page: the clients get one and the new address, the
specification answers zero twice. -/
theorem answers_unspecified :
    ∃ vs, initializeVSpace lowMapping (fun _ _ => X86.zero) = some vs ∧
      run vs [.uOp ⟨0x1000, 0x2000⟩, .rOp ⟨0x1000⟩] = some [1, 0x2000] ∧
      vSpaceIfc.results vSpaceIfc.initState [.uOp ⟨0x1000, 0x2000⟩, .rOp ⟨0x1000⟩] = [0, 0] := by
  obtain ⟨vs, created, translates⟩ := exists_initializeVSpace lowMapping fun _ _ => X86.zero
  refine ⟨vs, created, ?_, rfl⟩
  have inRange : ∀ op ∈ [(.uOp ⟨0x1000, 0x2000⟩ : vSpaceIfc.Input), .rOp ⟨0x1000⟩],
      InRange op := by
    intro op member
    rcases List.mem_pair.mp member with rfl | rfl
    · exact ⟨⟨by decide, rfl⟩, by decide, rfl⟩
    · exact ⟨by decide, rfl⟩
  rw [run_eq_answers translates inRange]
  rfl

end VSpaceIfc
end VerifiedBetrfs
