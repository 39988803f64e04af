import RevCPU.Lib.Run
import RevCPU.MemCtrl.Processed
import RevCPU.MemCtrl.System
import RevCPU.MemCtrl.Responded
import RevCPU.MemCtrl.Steps
import RevCPU.Lib.Assoc
import RevCPU.MemCtrl.Bookkeeping
import RevCPU.MemCtrl.Accounting
import RevCPU.MemCtrl.Ordered
import RevCPU.MemCtrl.OrderedRun
import RevCPU.MemCtrl.AcquireRelease
import RevCPU.MemCtrl.Fence
import RevCPU.Mem.Segment
import RevCPU.Mem.State
import RevCPU.Mem.Heap
import RevCPU.Mem.HeapSpec
import RevCPU.Mem.HeapRun
import RevCPU.Mem.Access
import RevCPU.Mem.Protection
import RevCPU.Mem.ProtectionRun
import RevCPU.Mem.PageTable
import RevCPU.Mem.ReadAfterWrite
import RevCPU.Mem.PageTableRun
import RevCPU.Proc.Decode
import RevCPU.Proc.LoadStore
import RevCPU.Proc.Expand
import RevCPU.Proc.CompressedFields
import RevCPU.Proc.CompressedDecode
import RevCPU.Proc.CompressedRun
import RevCPU.Proc.CompressedRefines
import RevCPU.Lib.Serial
import RevCPU.MemCtrl.PartRange
import RevCPU.MemCtrl.Backend
import RevCPU.MemCtrl.TargetBytes
import RevCPU.MemCtrl.InFlight
import RevCPU.MemCtrl.Traced
import RevCPU.MemCtrl.TracedEffect
import RevCPU.MemCtrl.TracedQueue
import RevCPU.MemCtrl.TracedResponse
import RevCPU.MemCtrl.TracedRun
import RevCPU.MemCtrl.TracedStep
import RevCPU.Lib.SerialOrder
import RevCPU.MemCtrl.TracedReturn
import RevCPU.MemCtrl.Atomic
import RevCPU.MemCtrl.Lane
import RevCPU.MemCtrl.ProgramOrder
import RevCPU.Lib.Recency
import RevCPU.Mem.Tlb
import RevCPU.Mem.TlbNodes
import RevCPU.Mem.Translation
import RevCPU.Isa.Entry
import RevCPU.Isa.Tables
import RevCPU.Isa.Dispatch
import RevCPU.Isa.Seed
import RevCPU.Isa.Decode
import RevCPU.Isa.DecodeSelects
import RevCPU.Isa.Control
import RevCPU.Isa.ControlRefines
import RevCPU.Mem.Reserve
import RevCPU.Lib.Since
import RevCPU.Mem.ReserveRun
import RevCPU.Fetch.Prefetcher
import RevCPU.Fetch.Sound
import RevCPU.Fetch.Calls
import RevCPU.Fetch.FetchRun
import RevCPU.Fetch.Deletion
import RevCPU.Fetch.Faults
import RevCPU.MemCtrl.Limits
import RevCPU.MemCtrl.ReadBack
import RevCPU.Proc.LoadModes
import RevCPU.MemCtrl.AmoBack
import RevCPU.Proc.Atomics
import RevCPU.Proc.AtomicsLocal
import RevCPU.Proc.AtomicsCtrl
import RevCPU.Proc.AtomicsModes
import RevCPU.Sched.Pipeline
import RevCPU.Sched.ClockTick
import RevCPU.Sched.System
import RevCPU.Lib.Fallible
import RevCPU.Sched.Booked
import RevCPU.Sched.Decoded
import RevCPU.Sched.Moves
import RevCPU.Sched.Ticked
import RevCPU.Lib.Sum
import RevCPU.Sched.Places
import RevCPU.Sched.Conserve
import RevCPU.Sched.Threads
import RevCPU.Sched.CoProc
import RevCPU.Sched.Labels
import RevCPU.Sched.Ids
import RevCPU.Sched.Join
import RevCPU.Sched.Exec
import RevCPU.Lib.Tiles
import RevCPU.MemCtrl.Split
import RevCPU.Lib.Scan
import RevCPU.MachineModel
import RevCPU.Mem.Brk
import RevCPU.Lib.Image
import RevCPU.Loader.Elf
import RevCPU.Loader.LoadElf
import RevCPU.Loader.Args
import RevCPU.Loader.Frame
import RevCPU.Loader.Loaded
import RevCPU.Loader.Threads
import RevCPU.Loader.ArgBlock
import RevCPU.Proc.LoadClosed
import RevCPU.Loader.Guards
import RevCPU.Loader.Malformed
import RevCPU.Isa.Alu
import RevCPU.Isa.MulDiv
import RevCPU.MemCtrl.Width
import RevCPU.Isa.Integer
import RevCPU.Proc.EffAddr
import RevCPU.Isa.IntegerRefines
import RevCPU.Isa.CompressedAlu
import RevCPU.Isa.CompressedAluRefines
import RevCPU.Isa.Operands
import RevCPU.Proc.StoreCond
import RevCPU.Proc.StoreCondMem
import RevCPU.Proc.StoreCondResult
import RevCPU.MemCtrl.Reassembly
import RevCPU.Sched.Costs
import RevCPU.Mem.RoundedSeg
import RevCPU.Mem.AllocAt
import RevCPU.Loader.LineCalls
import RevCPU.Mem.RangeCheck
import RevCPU.Lib.Entries
import RevCPU.Opts.RevOpts
import RevCPU.Opts.Settings
import RevCPU.Opts.Bounded
import RevCPU.Opts.BoundedIff
import RevCPU.Proc.StoreRequests
import RevCPU.MemCtrl.Delivery
import RevCPU.MemCtrl.Delivered
import RevCPU.SysCalls.Chunk
import RevCPU.SysCalls.Gather
import RevCPU.Isa.CoProcWord
import RevCPU.SysCalls.ParseString
import RevCPU.SysCalls.Write
import RevCPU.SysCalls.WriteBuffer
import RevCPU.Sched.CoProcOnce
import RevCPU.Faults.Config
import RevCPU.Faults.Contained
import RevCPU.Faults.FitsIff
import RevCPU.Lib.Nesting
import RevCPU.Proc.NaNBox
import RevCPU.Proc.SingleLoad
import RevCPU.SysCalls.HostBuffer
import RevCPU.Trace.Nested
import RevCPU.Trace.PopRestores
import RevCPU.Loader.ArgLayout
import RevCPU.Loader.ArgvLaidOut
import RevCPU.Program.Runs
import RevCPU.MemCtrl.Drain
import RevCPU.Sched.RoundRobin
import RevCPU.Sched.Deadlock
import RevCPU.Sched.ReadyQueue
import RevCPU.Sched.SimpleCoProc
