import VerifiedBetrfs.BetreeRefinesMap
import VerifiedBetrfs.PartialFlush
import VerifiedBetrfs.CompositeView
import VerifiedBetrfs.BlockSystemSafety
import VerifiedBetrfs.JournalSystemSafety
import VerifiedBetrfs.Journalist
import VerifiedBetrfs.IndirectionTableUpdates
import VerifiedBetrfs.BankDeadlock
import VerifiedBetrfs.BankBundle
import VerifiedBetrfs.InfiniteLogRefinement
import VerifiedBetrfs.CyclicBufferRwSafety
import VerifiedBetrfs.AbstractCacheSync
import VerifiedBetrfs.CacheRefinement
import VerifiedBetrfs.RwLockSafety
import VerifiedBetrfs.BlockAllocator
import VerifiedBetrfs.BucketSuccessor
import VerifiedBetrfs.VSpaceTranslation
import VerifiedBetrfs.HashMapHistory
import VerifiedBetrfs.LinearDListFreeStack
import VerifiedBetrfs.LinearLru
import VerifiedBetrfs.SpscQueue
import VerifiedBetrfs.DiskIOHandler
import VerifiedBetrfs.FlatCombiner
