import LughOS.Library.Bytes
import LughOS.Library.Memory
import LughOS.Library.Table
import LughOS.Library.Runs
import LughOS.Library.Interruptible
import LughOS.Library.RingBuffer
import LughOS.Library.Digest
import LughOS.Library.CyclicOrder
import LughOS.Library.NewestLog
import LughOS.Library.StableQueue
import LughOS.Library.Search
import LughOS.Library.Sections
import LughOS.Library.Ancestry
import LughOS.Library.Framing
import LughOS.Library.Numeral
import LughOS.Workflow.Log
import LughOS.Workflow.Interruption
import LughOS.Workflow.Accounting
import LughOS.Workflow.Cursor
import LughOS.Auditor.Telemetry
import LughOS.Auditor.Replay
import LughOS.Auditor.Framing
import LughOS.Kernel.Isolation
import LughOS.Kernel.EndToEnd
import LughOS.Kernel.Conservation
import LughOS.Kernel.Reuse
import LughOS.Kernel.RequestReply
import LughOS.Kernel.RoundRobin
import LughOS.Kernel.Retry
import LughOS.Kernel.Surveys
import LughOS.Kernel.Subscriptions
import LughOS.Kernel.ChannelGraph
import LughOS.Kernel.TaskGraph
import LughOS.Kernel.Accounting
import LughOS.Kernel.Attribution
import LughOS.Kernel.UserPointers
import LughOS.Kernel.Dispatch
import LughOS.Kernel.Lifetime
import LughOS.Kernel.Resumption
import LughOS.Kernel.MemoryMap
import LughOS.Kernel.Denials
import LughOS.Kernel.Capacity
import LughOS.Kernel.ReceiveQueues
import LughOS.Storage.Copies
import LughOS.Update.Initialisation
import LughOS.Update.NameBuffers
import LughOS.Storage.KeyLength
import LughOS.Update.Interference
import LughOS.Kernel.MemoryGate
import LughOS.Kernel.Checksum
import LughOS.Kernel.Fairness
import LughOS.Kernel.TransactionLog
import LughOS.Update.Signature
import LughOS.Kernel.FrameAllocator
import LughOS.Kernel.BlockAllocator
import LughOS.Kernel.Conversion
import LughOS.Kernel.PriorityQueue
import LughOS.Kernel.MemoryUtils
import LughOS.Kernel.InterruptLevels
import LughOS.Kernel.PageTable
import LughOS.Kernel.Crypto
import LughOS.Kernel.LineageSummary
import LughOS.Kernel.PriorityScheduler
import LughOS.Kernel.Log
import LughOS.Update.Tampering
import LughOS.Arm.Timer
import LughOS.X86.InterruptService
import LughOS.Kernel.GraphAtTime
import LughOS.X86.InterruptEntry
import LughOS.Kernel.Mmu
import LughOS.Kernel.Console
