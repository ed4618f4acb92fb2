import DmLockFree.AtomicKFifo.Steps
import DmLockFree.AtomicKFifo.Safety
import DmLockFree.Library.Placement
import DmLockFree.CDMQueue.Sequential
import DmLockFree.ThreadPool.Basic
import DmLockFree.ThreadPool.Pipeline
import DmLockFree.ThreadPool.Tasks
import DmLockFree.ThreadPool.Shutdown
import DmLockFree.CDMMutexQueue.Basic
import DmLockFree.CDMMutexQueue.Refinement
import DmLockFree.KFifo.Basic
import DmLockFree.KFifo.Sequential
import DmLockFree.KFifo.Refinement
import DmLockFree.Library.Threads
import DmLockFree.CDMQueue.Shared
import DmLockFree.CDMQueue.SharedInvariant
import DmLockFree.CDMQueue.SharedSafety
import DmLockFree.Library.SlotRing
import DmLockFree.CDMAtomicQueue.Basic
import DmLockFree.CDMAtomicQueue.Steps
import DmLockFree.CDMAtomicQueue.Invariant
import DmLockFree.CDMAtomicQueue.Run
import DmLockFree.CDMAtomicQueue.Safety
import DmLockFree.CAtomicQueue.Basic
import DmLockFree.CAtomicQueue.Steps
import DmLockFree.CAtomicQueue.Invariant
import DmLockFree.CAtomicQueue.Run
import DmLockFree.CAtomicQueue.Safety
import DmLockFree.Library.FreeList
import DmLockFree.RapidPool.Basic
import DmLockFree.RapidPool.Chunk
import DmLockFree.RapidPool.FreeSlots
import DmLockFree.RapidPool.Dynamic
import DmLockFree.RapidPool.Client
import DmLockFree.RapidPool.PerThread
import DmLockFree.Library.Monitor
import DmLockFree.ThreadSafeQueue.Basic
import DmLockFree.Library.Line
import DmLockFree.ThreadPool.Order
import DmLockFree.ThreadSafeQueue.Delivery
import DmLockFree.CAtomicQueue.Destructor
import DmLockFree.CAtomicQueue.Consumers
import DmLockFree.RapidPool.Throwing
import DmLockFree.RapidPool.Reentrant
import DmLockFree.AtomicKFifo.Observers
import DmLockFree.AtomicKFifo.Promises
import DmLockFree.AtomicKFifo.Records
import DmLockFree.KFifo.Records
import DmLockFree.AtomicKFifo.Reset
import DmLockFree.ThreadPool.Clients
import DmLockFree.Library.Alike
import DmLockFree.CDMQueue.Calls
import DmLockFree.CDMQueue.Restart
import DmLockFree.CDMQueue.FailedInit
import DmLockFree.CDMQueue.IntRange
import DmLockFree.KFifo.Requested
import DmLockFree.CDMAtomicQueue.Observer
import DmLockFree.CDMAtomicQueue.Alone
import DmLockFree.CDMAtomicQueue.Allocation
import DmLockFree.Library.Peak
import DmLockFree.RapidPool.Growth
import DmLockFree.ThreadPool.Downstream
import DmLockFree.Library.Loan
import DmLockFree.RapidPool.Renumber
import DmLockFree.RapidPool.ChunkHistory
import DmLockFree.ConcurrentQueue.FreeList.Steps
import DmLockFree.Library.Chain
import DmLockFree.Library.RefCount
import DmLockFree.ConcurrentQueue.FreeList.Invariant
import DmLockFree.ConcurrentQueue.FreeList.Run
import DmLockFree.ConcurrentQueue.FreeList.Safety
import DmLockFree.ConcurrentQueue.FreeList.Answers
import DmLockFree.ConcurrentQueue.Circular
import DmLockFree.ConcurrentQueue.Implicit.Basic
import DmLockFree.Library.Reservation
import DmLockFree.ConcurrentQueue.Implicit.Steps
import DmLockFree.ConcurrentQueue.Implicit.Counters
import DmLockFree.ConcurrentQueue.Implicit.Reckoning
import DmLockFree.ConcurrentQueue.Implicit.Ring
import DmLockFree.ConcurrentQueue.Implicit.Growth
import DmLockFree.ConcurrentQueue.Implicit.Room
import DmLockFree.ConcurrentQueue.Implicit.Blocks
import DmLockFree.ConcurrentQueue.Implicit.Facts
import DmLockFree.ConcurrentQueue.Implicit.Consume
import DmLockFree.ConcurrentQueue.Implicit.Find
import DmLockFree.ConcurrentQueue.Implicit.Take
import DmLockFree.ConcurrentQueue.Implicit.Count
import DmLockFree.ConcurrentQueue.Implicit.Release
import DmLockFree.ConcurrentQueue.Implicit.Dequeuing
import DmLockFree.ConcurrentQueue.Implicit.Produce
import DmLockFree.ConcurrentQueue.Implicit.Open
import DmLockFree.ConcurrentQueue.Implicit.Enqueuing
import DmLockFree.ConcurrentQueue.Implicit.Run
import DmLockFree.ConcurrentQueue.Implicit.Answers
import DmLockFree.ConcurrentQueue.Implicit.Safety
import DmLockFree.ConcurrentQueue.Implicit.Rest
import DmLockFree.ConcurrentQueue.Implicit.Wait
import DmLockFree.ConcurrentQueue.Implicit.Alone
import DmLockFree.ConcurrentQueue.BlockPool
import DmLockFree.ConcurrentQueue.Implicit.Memory
import DmLockFree.ConcurrentQueue.SharedBlocks
