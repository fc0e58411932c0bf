import Kfs.Lib.TransitionSystem
import Kfs.Memory.BuddyInvariant
import Kfs.Memory.BuddySpec
import Kfs.Memory.BuddyRuns
import Kfs.Memory.Kmalloc
import Kfs.Lib.Chain
import Kfs.Memory.SlabInvariant
import Kfs.Memory.SlabSpec
import Kfs.Memory.KmallocSpec
import Kfs.Memory.KmallocRuns
import Kfs.Memory.PageAlloc
import Kfs.Memory.Vmm
import Kfs.Memory.VmmSpec
import Kfs.Memory.VmmRuns
import Kfs.Lib.Tiling
import Kfs.Memory.Vma
import Kfs.Memory.VmaRuns
import Kfs.Proc.Scheduler
import Kfs.Lib.Outcome
import Kfs.Proc.SchedInvariant
import Kfs.Proc.SchedSpec
import Kfs.Proc.SchedRuns
import Kfs.Memory.BootAllocator
import Kfs.Memory.BootAllocatorSpec
import Kfs.Memory.BootMemory
import Kfs.Memory.BootExact
import Kfs.Memory.BootCuts
import Kfs.Memory.BootPages
import Kfs.Memory.UserCopy
import Kfs.Proc.Forest
import Kfs.Proc.Processes
import Kfs.Proc.TreeRuns
import Kfs.Proc.WakeRuns
import Kfs.Memory.AreaOps
import Kfs.Memory.AreaRuns
import Kfs.Proc.BlockingCall
import Kfs.Memory.BuddyInverse
import Kfs.Memory.LazyCopy
import Kfs.Memory.Mmu
import Kfs.Memory.PageLog
import Kfs.Memory.TwoRuns
import Kfs.Memory.Vmalloc
import Kfs.Proc.Directories
import Kfs.Proc.DirectorySpec
import Kfs.Proc.FreshFrames
import Kfs.Proc.LinearMap
import Kfs.Proc.Registry
import Kfs.Syscalls.Dispatch
import Kfs.Utils.IdRuns
import Kfs.Lib.Bytes
import Kfs.Lib.Fifo
import Kfs.Memory.BuddyCalls
import Kfs.Memory.BuddyDetect
import Kfs.Memory.CallLog
import Kfs.Memory.Ksize
import Kfs.Memory.SlotFrames
import Kfs.Proc.CloneLayout
import Kfs.Proc.ForkCopy
import Kfs.Proc.ForkFail
import Kfs.Proc.ReapRuns
import Kfs.Proc.RoundRobin
import Kfs.Proc.SleepRuns
import Kfs.Block.PartitionTable
import Kfs.Drivers.Ata
import Kfs.Drivers.AtaTransfers
import Kfs.Drivers.FailedRead
import Kfs.Memory.BootHoles
import Kfs.Memory.BootMerges
import Kfs.Memory.PageLedger
import Kfs.Memory.VmaFailure
import Kfs.Memory.VmaPlacement
import Kfs.Memory.Window
import Kfs.Proc.SectionLoad
import Kfs.Proc.SpaceFailure
import Kfs.Memory.SortMerge
import Kfs.Drivers.Pci
import Kfs.Drivers.PciWidths
import Kfs.Kernel.List
import Kfs.Kernel.ListSpec
import Kfs.Lib.Words
import Kfs.Utils.FtSplit
import Kfs.Drivers.CommandLine
import Kfs.Drivers.History
import Kfs.Drivers.Scrollback
import Kfs.Lib.WordMemory
import Kfs.Lib.Asm
import Kfs.Arch.Assembly
import Kfs.Arch.SwitchTo
import Kfs.Arch.Contexts
import Kfs.Arch.Descriptors
import Kfs.Arch.NewTasks
import Kfs.Drivers.ConsoleSpec
import Kfs.Drivers.Format
import Kfs.Syscalls.Write
import Kfs.Proc.Tlb
