import VerifiedBetrfs.AsyncMachine

/-!
# Shards of a state

The state of a concurrent system is split into shards that are owned by its threads.
-/

namespace VerifiedBetrfs

universe u v

namespace FiniteMap

variable {K : Type u} {V : Type v} [DecidableEq K] {m m' whole : FiniteMap K V} {key : K}
  {value : V}

/-- The union of two maps without a common key. -/
def join (m m' : FiniteMap K V) : Option (FiniteMap K V) :=
  if Disjoint m.support m'.support then some (m.mapUpdate m') else none

omit [DecidableEq K] in
theorem disjoint_support_iff : Disjoint m.support m'.support ↔
    ∀ key value, m.lookup key = some value → m'.lookup key = none := by
  simp only [Finset.disjoint_left, mem_support, Option.not_isSome_iff_eq_none]
  simp only [Option.isSome_iff_exists]
  exact ⟨fun apart key value found => apart ⟨value, found⟩,
    fun apart key ⟨value, found⟩ => apart key value found⟩

theorem join_eq_some_iff : m.join m' = some whole ↔
    (∀ key value, m.lookup key = some value → m'.lookup key = none) ∧ m.mapUpdate m' = whole := by
  rw [join, Option.ite_none_right_eq_some, Option.some.injEq, disjoint_support_iff]

section Join

variable {m m' whole : FiniteMap K V} (joined : m.join m' = some whole) {key : K} {value : V}

include joined

theorem lookup_of_join (key : K) : whole.lookup key = (m'.lookup key).or (m.lookup key) := by
  rw [← (join_eq_some_iff.mp joined).2, lookup_mapUpdate]

theorem lookup_right_of_join (found : m.lookup key = some value) : m'.lookup key = none :=
  (join_eq_some_iff.mp joined).1 key value found

theorem lookup_whole_of_join ⦃key : K⦄ ⦃value : V⦄ (found : m.lookup key = some value) :
    whole.lookup key = some value := by
  rw [lookup_of_join joined, lookup_right_of_join joined found, found]
  rfl

theorem join_insert_of_absent (value' : V) (absent : m'.lookup key = none) :
    (m.insert key value').join m' = some (whole.insert key value') := by
  refine join_eq_some_iff.mpr ⟨fun other value found' => ?_, ext fun other => ?_⟩
  · by_cases isKey : other = key
    · rw [isKey, absent]
    · rw [lookup_insert, if_neg isKey] at found'
      exact lookup_right_of_join joined found'
  · rw [lookup_mapUpdate, lookup_insert, lookup_insert, lookup_of_join joined]
    by_cases isKey : other = key
    · simp [isKey, absent]
    · simp [isKey]

theorem join_insert (value' : V) (found : m.lookup key = some value) :
    (m.insert key value').join m' = some (whole.insert key value') :=
  join_insert_of_absent joined value' (lookup_right_of_join joined found)

theorem join_insert_new (value' : V) (absent : whole.lookup key = none) :
    (m.insert key value').join m' = some (whole.insert key value') := by
  rw [lookup_of_join joined, Option.or_eq_none_iff] at absent
  exact join_insert_of_absent joined value' absent.1

theorem join_erase (found : m.lookup key = some value) :
    (m.erase key).join m' = some (whole.erase key) := by
  have absent := lookup_right_of_join joined found
  refine join_eq_some_iff.mpr ⟨fun other value found' => ?_, ext fun other => ?_⟩
  · exact lookup_right_of_join joined (lookup_of_erase found')
  · rw [lookup_mapUpdate, lookup_erase, lookup_erase, lookup_of_join joined]
    by_cases isKey : other = key
    · simp [isKey, absent]
    · simp [isKey]

theorem join_mapUpdate {changes : FiniteMap K V}
    (apart : ∀ key value, changes.lookup key = some value → m'.lookup key = none) :
    (m.mapUpdate changes).join m' = some (whole.mapUpdate changes) := by
  refine join_eq_some_iff.mpr ⟨fun key value found => ?_, ext fun key => ?_⟩
  · rw [lookup_mapUpdate, Option.or_eq_some_iff] at found
    obtain changed | ⟨-, kept⟩ := found
    · exact apart key value changed
    · exact lookup_right_of_join joined kept
  · rw [lookup_mapUpdate, lookup_mapUpdate, lookup_mapUpdate, lookup_of_join joined]
    cases changed : changes.lookup key with
    | none => simp
    | some value => simp [apart key value changed]

end Join

@[simp]
theorem join_empty (m : FiniteMap K V) : m.join empty = some m := by
  refine join_eq_some_iff.mpr ⟨fun _ _ _ => rfl, ext fun key => ?_⟩
  rw [lookup_mapUpdate, lookup_empty, Option.none_or]

/-- The map with one key. -/
def singleton (key : K) (value : V) : FiniteMap K V := empty.insert key value

@[simp]
theorem lookup_singleton (key other : K) (value : V) :
    (singleton key value).lookup other = if other = key then some value else none := by
  rw [singleton, lookup_insert, lookup_empty]

@[simp]
theorem join_singleton_eq_some_iff :
    m.join (singleton key value) = some whole ↔
      m.lookup key = none ∧ whole = m.insert key value := by
  rw [join_eq_some_iff, eq_comm (a := whole)]
  refine and_congr ⟨fun apart => ?_, fun absent other value' found => ?_⟩ ?_
  · refine Option.eq_none_iff_forall_ne_some.mpr fun value' found => ?_
    simpa using apart key value' found
  · have isOther : other ≠ key := by
      rintro rfl
      simp [absent] at found
    simp [isOther]
  · have same : m.mapUpdate (singleton key value) = m.insert key value := by
      ext1 other
      by_cases isKey : other = key <;> simp [isKey]
    rw [same]

theorem eq_erase_of_insert (absent : m.lookup key = none) (wholeEq : whole = m.insert key value) :
    m = whole.erase key := by
  ext1 other
  by_cases isKey : other = key <;> simp [wholeEq, isKey, absent]

end FiniteMap

namespace Exclusive

variable {V : Type v}

/-- At most one of two values is there. -/
def join : Option V → Option V → Option (Option V)
  | some _, some _ => none
  | some value, none => some (some value)
  | none, value => some value

theorem join_some_eq_some_iff {value : V} {other whole : Option V} :
    join (some value) other = some whole ↔ other = none ∧ whole = some value := by
  cases other <;> simp [join, eq_comm]

section Join

variable {first second whole : Option V} (joined : join first second = some whole)

include joined

theorem whole_of_join {value : V} (found : first = some value) : whole = some value := by
  subst found
  exact (join_some_eq_some_iff.mp joined).2

theorem join_replace {value : V} (value' : V) (found : first = some value) :
    join (some value') second = some (some value') := by
  subst found
  exact join_some_eq_some_iff.mpr ⟨(join_some_eq_some_iff.mp joined).1, rfl⟩

end Join

@[simp]
theorem join_none (value : Option V) : join value none = some value := by
  cases value <;> rfl

end Exclusive

namespace DisjointSet

variable {A : Type u} [DecidableEq A]

/-- The union of two sets without a common element. -/
def join (x y : Finset A) : Option (Finset A) := if Disjoint x y then some (x ∪ y) else none

theorem join_eq_some_iff {x y whole : Finset A} :
    join x y = some whole ↔ (∀ a ∈ x, a ∉ y) ∧ x ∪ y = whole := by
  rw [join, Option.ite_none_right_eq_some, Option.some.injEq, Finset.disjoint_left]

section Join

variable {x y whole : Finset A} (joined : join x y = some whole)

include joined

theorem mem_whole_of_join {a : A} (member : a ∈ x) : a ∈ whole := by
  rw [← (join_eq_some_iff.mp joined).2]
  exact Finset.mem_union_left y member

theorem join_insert_new {a : A} (absent : a ∉ whole) :
    join (insert a x) y = some (insert a whole) := by
  obtain ⟨apart, rfl⟩ := join_eq_some_iff.mp joined
  rw [Finset.mem_union, not_or] at absent
  refine join_eq_some_iff.mpr ⟨fun other member => ?_, Finset.insert_union a x y⟩
  obtain rfl | isOld := Finset.mem_insert.mp member
  · exact absent.2
  · exact apart other isOld

theorem join_erase {a : A} (member : a ∈ x) : join (x.erase a) y = some (whole.erase a) := by
  obtain ⟨apart, rfl⟩ := join_eq_some_iff.mp joined
  refine join_eq_some_iff.mpr ⟨fun other member' =>
    apart other (Finset.mem_of_mem_erase member'), ?_⟩
  rw [Finset.erase_union_distrib, Finset.erase_eq_of_notMem (apart a member)]

end Join

@[simp]
theorem join_empty (x : Finset A) : join x ∅ = some x := by
  simp [join]

@[simp]
theorem join_singleton_eq_some_iff {x whole : Finset A} {a : A} :
    join x {a} = some whole ↔ a ∉ x ∧ whole = insert a x := by
  rw [join_eq_some_iff, Finset.union_singleton, eq_comm]
  simp only [Finset.mem_singleton]
  exact and_congr_left fun _ => ⟨fun apart member => apart a member rfl,
    fun absent b member isA => absent (isA ▸ member)⟩

end DisjointSet

/-- A system whose requests enter it as tickets and leave it as stubs. -/
structure TicketStubSSM (M Input Output : Type) where
  dot : M → M → M
  ticket : RequestId → Input → M
  IsStub : RequestId → Output → M → Prop
  requestIdsInUse : M → Finset RequestId
  init : M
  Internal : M → M → Prop

namespace TicketStubSSM

variable {M Input Output : Type} (ssm : TicketStubSSM M Input Output)

def NewTicket (whole whole' : M) (rid : RequestId) (input : Input) : Prop :=
  rid ∉ ssm.requestIdsInUse whole ∧ whole' = ssm.dot whole (ssm.ticket rid input)

def ConsumeStub (whole whole' : M) (rid : RequestId) (output : Output) (stub : M) : Prop :=
  ssm.IsStub rid output stub ∧ whole = ssm.dot whole' stub

/-- A shard steps while the rest stays. -/
structure InternalNext (s s' shard shard' rest : M) : Prop where
  before : s = ssm.dot shard rest
  after : s' = ssm.dot shard' rest
  internal : ssm.Internal shard shard'

def Next (s s' : M) : AsyncOp Input Output → Prop
  | .start rid input => ssm.NewTicket s s' rid input
  | .endOp rid output => ∃ stub, ssm.ConsumeStub s s' rid output stub
  | .internalOp => ∃ shard shard' rest, ssm.InternalNext s s' shard shard' rest

end TicketStubSSM

def ticketStubStateMachine {M Input Output : Type} (ssm : TicketStubSSM M Input Output) :
    StateMachine M (AsyncOp Input Output) where
  Init s := s = ssm.init
  Next := ssm.Next

end VerifiedBetrfs
