import Hopter.Base.Word
import Hopter.Base.Memory
import Hopter.Base.Ring
import Hopter.Base.Run
import Hopter.Base.Leads
import Hopter.Base.Nest
import Hopter.Base.Reading
import Hopter.Base.FirstMin
import Hopter.Base.RoundRobin
import Hopter.Allocator.Heap
import Hopter.Allocator.Chunks
import Hopter.Allocator.FreeLists
import Hopter.Allocator.Invariant
import Hopter.Allocator.Init
import Hopter.Allocator.Free
import Hopter.Allocator.Malloc
import Hopter.Allocator.Client
import Hopter.Allocator.Links
import Hopter.Allocator.Fresh
import Hopter.Allocator.Accounting
import Hopter.Allocator.Fit
import Hopter.Exec.Machine
import Hopter.Exec.SoftLock
import Hopter.Exec.Contexts
import Hopter.Exec.Grounded
import Hopter.Exec.Deferred
import Hopter.Exec.Closures
import Hopter.Exec.Switch
import Hopter.Exec.Tasks
import Hopter.Schedule.Suspension
import Hopter.Schedule.SuspensionSafety
import Hopter.Time.Tick
import Hopter.Task.SegmentedStack
import Hopter.Task.HotSplit
import Hopter.Task.CallChain
import Hopter.Task.StackSafety
import Hopter.Task.StackAccounting
import Hopter.Task.StackLimit
import Hopter.Task.CallFrame
import Hopter.Interrupt.Thumb
import Hopter.Interrupt.ContextSwitch
import Hopter.Interrupt.Mask
import Hopter.Interrupt.MaskAll
import Hopter.Schedule.Masks
import Hopter.Assembly.Machine
import Hopter.Assembly.MemOps
import Hopter.Task.TaskList
import Hopter.Time.SleepQueue
import Hopter.Time.RelativeTick
import Hopter.Time.IntervalBarrier
import Hopter.Time.TimedWait
import Hopter.Task.Priority
import Hopter.Task.PriorityQueue
import Hopter.Unwind.Instructions
import Hopter.Unwind.Step
import Hopter.Unwind.Prologue
import Hopter.Unwind.Crossing
import Hopter.Unwind.Landing
import Hopter.Unwind.RegPop
import Hopter.Unwind.Pointer
import Hopter.Unwind.Lsda
import Hopter.Unwind.Table
import Hopter.Unwind.Lookup
import Hopter.Unwind.Restart
import Hopter.Unwind.Resume
import Hopter.Unwind.Entry
import Hopter.Unwind.Forced
import Hopter.Allocator.TaskHeap
import Hopter.Task.InitialStack
import Hopter.Task.Spawn
import Hopter.Sync.Semaphore
import Hopter.Sync.SemaphoreInvariant
import Hopter.Task.Breathing
import Hopter.Sync.Channel
import Hopter.Sync.DeferredOps
import Hopter.Sync.Mutex
import Hopter.Sync.MutexInvariant
import Hopter.Sync.PriorityInheritance
import Hopter.Sync.OwnerLock
import Hopter.Sync.Release
import Hopter.Sync.WaitQueues
import Hopter.Sync.MutexModels
import Hopter.Debug.CpuLoad
import Hopter.Kernel.Queues
import Hopter.Kernel.Outcome
import Hopter.Kernel.Objects
import Hopter.Kernel.SleepOperations
import Hopter.Kernel.Locks
import Hopter.Kernel.Preemption
import Hopter.Kernel.Places
import Hopter.Kernel.Placement
import Hopter.Kernel.Conservation
import Hopter.Kernel.SleepQueue
import Hopter.Kernel.Waits
import Hopter.Kernel.Removals
import Hopter.Kernel.Mailboxes
import Hopter.Kernel.Notifications
import Hopter.Kernel.Deadlines
import Hopter.Kernel.TaskQuota
