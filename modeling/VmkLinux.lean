import VmkLinux.Errno
import VmkLinux.Interleave
import VmkLinux.Sequence
import VmkLinux.TailQueue
import VmkLinux.ByteBuf
import VmkLinux.ReflectedCrc
import VmkLinux.OrderedChain
import VmkLinux.Pieces
import VmkLinux.BinaryHeap
import VmkLinux.Workqueue.Model
import VmkLinux.Workqueue.Pending
import VmkLinux.Workqueue.Accounting
import VmkLinux.Workqueue.Flush
import VmkLinux.Workqueue.Dispatch
import VmkLinux.Workqueue.Cancel
import VmkLinux.Workqueue.Destroy
import VmkLinux.Rcu.Model
import VmkLinux.Rcu.Queue
import VmkLinux.Rcu.GracePeriod
import VmkLinux.Rcu.Barrier
import VmkLinux.Task.Sleep
import VmkLinux.Completion.Model
import VmkLinux.Completion.Wakeup
import VmkLinux.Completion.Tokens
import VmkLinux.Semaphore.Model
import VmkLinux.Semaphore.Wakeup
import VmkLinux.Klist.Model
import VmkLinux.Klist.References
import VmkLinux.Klist.Iteration
import VmkLinux.Seq.Model
import VmkLinux.Seq.Content
import VmkLinux.Lib.Sort
import VmkLinux.Hid.Model
import VmkLinux.Hid.Report
import VmkLinux.Hid.Input
import VmkLinux.Mempool.Model
import VmkLinux.Mempool.Elements
import VmkLinux.Digits
import VmkLinux.Idr.Model
import VmkLinux.Idr.Tree
import VmkLinux.Idr.Update
import VmkLinux.Idr.Table
import VmkLinux.Idr.Calls
import VmkLinux.Scsi.States
import VmkLinux.Scsi.Model
import VmkLinux.Scsi.Invariant
import VmkLinux.Scsi.ExactlyOnce
import VmkLinux.Scsi.BottomHalf
import VmkLinux.Scsi.TimeoutWork
import VmkLinux.Scsi.Busy
import VmkLinux.Scsi.TaskMgmt
import VmkLinux.Scsi.Transfer
import VmkLinux.Scsi.CommandPool
import VmkLinux.Scsi.DeviceState
import VmkLinux.Scsi.InternalCommand
import VmkLinux.Scsi.FcModel
import VmkLinux.Scsi.FcQueues
import VmkLinux.Scsi.FcChanges
import VmkLinux.Scsi.FcBindings
import VmkLinux.Scsi.FcTeardown
import VmkLinux.Scsi.FcScans
import VmkLinux.Scsi.FcWork
import VmkLinux.Scsi.FcPhases
import VmkLinux.Scsi.FcFlags
import VmkLinux.Scsi.FcRelease
import VmkLinux.Scsi.FcVports
import VmkLinux.Scsi.SasRphy
import VmkLinux.Net.TxModel
import VmkLinux.Net.TxLocks
import VmkLinux.Net.TxServed
import VmkLinux.Net.TxClose
import VmkLinux.Net.TxFate
import VmkLinux.Net.TxBound
import VmkLinux.Net.TxStatus
import VmkLinux.Net.RxModel
import VmkLinux.Net.RxInFlight
import VmkLinux.Net.LroModel
import VmkLinux.Net.LroSessions
import VmkLinux.Net.LroOrder
import VmkLinux.Net.NapiModel
import VmkLinux.Net.NapiIdle
import VmkLinux.Net.NapiDisable
import VmkLinux.Net.RefModel
import VmkLinux.Net.RefBalance
import VmkLinux.Net.QueueIds
import VmkLinux.Net.RegisterModel
import VmkLinux.Net.RegisterAll
import VmkLinux.Net.SkbModel
import VmkLinux.Net.SkbContent
import VmkLinux.Net.SkbExpand
import VmkLinux.Net.SkbCopy
import VmkLinux.Net.SkbTrim
import VmkLinux.Net.SkbPull
import VmkLinux.Net.SkbReshape
import VmkLinux.Net.BlockDev
import VmkLinux.Net.LinkState
import VmkLinux.Net.Crc32
import VmkLinux.Net.Ipv6Walk
import VmkLinux.Net.MapPkt
import VmkLinux.Net.MapPktFrags
import VmkLinux.Net.MapPktChecks
import VmkLinux.Pci.Model
import VmkLinux.Pci.Binding
import VmkLinux.Pci.Vectors
import VmkLinux.Irq.Model
import VmkLinux.Irq.Table
import VmkLinux.Irq.Registry
import VmkLinux.Irq.Disable
import VmkLinux.Block.Queue
import VmkLinux.Block.Bio
import VmkLinux.Block.Segments
import VmkLinux.Block.Command
import VmkLinux.Block.BottomHalf
import VmkLinux.Block.Capacity
import VmkLinux.Block.DiskTable
import VmkLinux.CharDev.PrivateData
import VmkLinux.Ioctl.Dispatch
import VmkLinux.Stubs.Regions
import VmkLinux.Heap.Kmalloc
import VmkLinux.Stubs.HashChains
import VmkLinux.Stubs.PhysCopy
import VmkLinux.Stubs.UserCopy
import VmkLinux.Dma.Pool
import VmkLinux.Time.Timers
import VmkLinux.Task.Signals
import VmkLinux.Task.Create
import VmkLinux.Task.Kthread
import VmkLinux.SoftIrq.Model
import VmkLinux.SoftIrq.BottomHalf
import VmkLinux.SoftIrq.Tasklets
import VmkLinux.SoftIrq.Protocol
import VmkLinux.Proc.Model
import VmkLinux.Proc.Tree
import VmkLinux.Proc.Read
import VmkLinux.Proc.Concurrent
