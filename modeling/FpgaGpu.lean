import FpgaGpu.Library.System
import FpgaGpu.Library.History
import FpgaGpu.Library.Fifo
import FpgaGpu.Library.Copy
import FpgaGpu.Library.Regions
import FpgaGpu.Library.Tiling
import FpgaGpu.Library.Bytes
import FpgaGpu.Library.Paired
import FpgaGpu.Library.Arrays
import FpgaGpu.Library.Cells
import FpgaGpu.Library.Ledger
import FpgaGpu.Library.WaitQueues
import FpgaGpu.Library.RefGraph
import FpgaGpu.Library.Bump
import FpgaGpu.Library.Pages
import FpgaGpu.Library.Append
import FpgaGpu.Library.SpinLocks
import FpgaGpu.Driver.Dma
import FpgaGpu.Driver.DmaDevice
import FpgaGpu.Driver.DmaCopy
import FpgaGpu.Driver.Scatterlist
import FpgaGpu.Driver.DmaTally
import FpgaGpu.Driver.DmaBalance
import FpgaGpu.Driver.DmaPoll
import FpgaGpu.Driver.DmaCalls
import FpgaGpu.Driver.DmaApart
import FpgaGpu.Driver.Packet
import FpgaGpu.Driver.Blocks
import FpgaGpu.Driver.Bar0
import FpgaGpu.Driver.Machine
import FpgaGpu.Driver.Histories
import FpgaGpu.Driver.Rules
import FpgaGpu.Driver.Section
import FpgaGpu.Driver.RingRefinement
import FpgaGpu.Driver.RingFifo
import FpgaGpu.Driver.Windows
import FpgaGpu.Driver.CallHistory
import FpgaGpu.Umd.ClStatus
import FpgaGpu.Driver.Completion
import FpgaGpu.Driver.Execution
import FpgaGpu.Driver.Staging
import FpgaGpu.Driver.CommandIrq
import FpgaGpu.Driver.WaitQueues
import FpgaGpu.Driver.Wakeup
import FpgaGpu.Driver.Probe
import FpgaGpu.Driver.ProbeRules
import FpgaGpu.Driver.ProbeLedger
import FpgaGpu.Driver.ProbeBalance
import FpgaGpu.Driver.Minors
import FpgaGpu.Driver.Reload
import FpgaGpu.Driver.Refused
import FpgaGpu.Driver.DevFiles
import FpgaGpu.Driver.Lifetime
import FpgaGpu.Driver.OpenFiles
import FpgaGpu.Umd.Kernel
import FpgaGpu.Umd.Grid
import FpgaGpu.Umd.Clients
import FpgaGpu.Umd.ClientRules
import FpgaGpu.Umd.Transaction
import FpgaGpu.Umd.Isolation
import FpgaGpu.Umd.SoleClient
import FpgaGpu.Umd.Dispatch
import FpgaGpu.Umd.Vram
import FpgaGpu.Umd.Buffers
import FpgaGpu.Umd.BuffersApart
import FpgaGpu.Umd.KernelArgs
import FpgaGpu.Umd.ArgPage
import FpgaGpu.Umd.BufferMemory
import FpgaGpu.Umd.BufferArrays
import FpgaGpu.Umd.Build
import FpgaGpu.Umd.Objects
import FpgaGpu.Umd.ProgramSource
import FpgaGpu.Umd.ObjectEffects
import FpgaGpu.Umd.ObjectGraph
import FpgaGpu.Umd.Transfers
import FpgaGpu.Umd.VramPacking
import FpgaGpu.Umd.CreateFailures
import FpgaGpu.Umd.GridExact
import FpgaGpu.Umd.ScalarArgs
import FpgaGpu.Driver.OneCpu
import FpgaGpu.Umd.FailedLaunch
import FpgaGpu.Library.Paging
import FpgaGpu.Umd.Hosted
import FpgaGpu.Umd.HostedArrays
import FpgaGpu.Driver.Patient
import FpgaGpu.Umd.Capacity
import FpgaGpu.Library.LinkedRing
import FpgaGpu.Library.Footprints
import FpgaGpu.Library.CStruct
import FpgaGpu.Driver.CtxList
import FpgaGpu.Umd.HostProgram
import FpgaGpu.Umd.InOrder
import FpgaGpu.Umd.TempFiles
import FpgaGpu.Driver.Uapi
import FpgaGpu.Driver.StagedWords
import FpgaGpu.Driver.IoctlBytes
import FpgaGpu.Umd.EachOnce
