import Mathlib.Algebra.Group.Nat.Defs
import VerifiedBetrfs.FiniteMap
import VerifiedBetrfs.KeyType

/-!
# The layout of the disk

Two superblocks, the journal, two places for the indirection table, and the node blocks.
-/

namespace VerifiedBetrfs.Bounds

def superblockSize : Nat := 4096

def journalBlockSize : Nat := 4096

def diskNumJournalBlocks : Nat := 64 * 1024

def indirectionTableBlockSize : Nat := 24 * 1024 * 1024

def nodeBlockSize : Nat := 2 * 1024 * 1024

/-- The first index of a node block. -/
def minNodeBlockIndex : Nat :=
  (2 * superblockSize + diskNumJournalBlocks * journalBlockSize +
    2 * indirectionTableBlockSize + nodeBlockSize - 1) / nodeBlockSize

def numBlocks : Nat := 0x100000

def maxTotalBucketWeight : Nat := 2 * 1024 * 1024 - 65536

def maxNumChildren : Nat := 8

end VerifiedBetrfs.Bounds

namespace VerifiedBetrfs.DiskLayout

open Bounds

/-- A range of bytes on disk. -/
structure Location where
  addr : Nat
  len : Nat
deriving DecidableEq

def numJournalBlocks : Nat := diskNumJournalBlocks

def indirectionTableMaxLength : Nat := indirectionTableBlockSize

def indirectionTable1Addr : Nat := 2 * 4096 + numJournalBlocks * 4096

def indirectionTable2Addr : Nat := indirectionTable1Addr + indirectionTableMaxLength

def ValidIndirectionTableAddr (addr : Nat) : Prop :=
  addr = indirectionTable1Addr ∨ addr = indirectionTable2Addr

def ValidNodeAddr (addr : Nat) : Prop :=
  addr % nodeBlockSize = 0 ∧ nodeBlockSize * minNodeBlockIndex ≤ addr

def ValidIndirectionTableLocation (loc : Location) : Prop :=
  ValidIndirectionTableAddr loc.addr ∧ 0 < loc.len ∧ loc.len ≤ indirectionTableMaxLength

instance (loc : Location) : Decidable (ValidIndirectionTableLocation loc) :=
  inferInstanceAs (Decidable ((_ ∨ _) ∧ _ ∧ _))

def ValidNodeLocation (loc : Location) : Prop :=
  ValidNodeAddr loc.addr ∧ loc.len ≤ nodeBlockSize

/-- The two ranges of bytes have a byte in common, or one is empty and inside
the other. -/
def overlap (loc loc' : Location) : Prop :=
  loc'.addr < loc.addr + loc.len ∧ loc.addr < loc'.addr + loc'.len

theorem overlap_comm {loc loc' : Location} : overlap loc loc' ↔ overlap loc' loc := and_comm

theorem ValidNodeAddr.exists_index {addr : Nat} (valid : ValidNodeAddr addr) :
    ∃ i, minNodeBlockIndex ≤ i ∧ addr = i * nodeBlockSize := by
  refine ⟨addr / nodeBlockSize, ?_, ?_⟩
  · rw [Nat.le_div_iff_mul_le (by decide), Nat.mul_comm]
    exact valid.2
  · exact (Nat.div_mul_cancel (Nat.dvd_of_mod_eq_zero valid.1)).symm

theorem overlappingNodesSameAddr {loc loc' : Location} (valid : ValidNodeLocation loc)
    (valid' : ValidNodeLocation loc') (overlaps : overlap loc loc') : loc.addr = loc'.addr := by
  obtain ⟨_, _, isAddr⟩ := valid.1.exists_index
  obtain ⟨_, _, isAddr'⟩ := valid'.1.exists_index
  have len := valid.2
  have len' := valid'.2
  obtain ⟨_, _⟩ := overlaps
  rw [nodeBlockSize] at isAddr isAddr' len len'
  omega

end VerifiedBetrfs.DiskLayout

namespace VerifiedBetrfs

open DiskLayout

namespace SectorType

/-- Where the journal and the table are. -/
structure Superblock where
  counter : UInt64
  journalStart : Nat
  journalLen : Nat
  indirectionTableLoc : Location
deriving DecidableEq

/-- The location of each node and its edges. -/
structure IndirectionTable where
  locs : FiniteMap Reference Location
  graph : FiniteMap Reference (List Reference)

end SectorType

namespace BlockCache

open SectorType

/-- All references of the graph are in it. -/
def GraphClosed (graph : FiniteMap Reference (List Reference)) : Prop :=
  ∀ ref succs, graph.lookup ref = some succs → ∀ succ ∈ succs, succ ∈ graph.support

/-- An indirection table that gives every reference a location. -/
structure WFCompleteIndirectionTable (table : IndirectionTable) : Prop where
  validLocs : ∀ ref loc, table.locs.lookup ref = some loc → ValidNodeLocation loc
  complete : table.graph.support = table.locs.support
  root : root ∈ table.graph.support
  closed : GraphClosed table.graph

/-- An indirection table in which some references have no location yet. -/
structure WFIndirectionTable (table : IndirectionTable) : Prop where
  validLocs : ∀ ref loc, table.locs.lookup ref = some loc → ValidNodeLocation loc
  allocated : table.locs.support ⊆ table.graph.support
  root : root ∈ table.graph.support
  closed : GraphClosed table.graph

/-- No two references have locations with the same address. -/
def AllLocationsForDifferentRefsDontOverlap (table : IndirectionTable) : Prop :=
  ∀ ref ref' loc loc', table.locs.lookup ref = some loc → table.locs.lookup ref' = some loc' →
    loc.addr = loc'.addr → ref = ref'

end BlockCache

end VerifiedBetrfs
