import AesOnGpu.Compression.CPackKraft
import AesOnGpu.Compression.CPackDiscipline
import AesOnGpu.Memory.Allocation
import AesOnGpu.Cache.Reserved
import AesOnGpu.Cache.DirtyData
import AesOnGpu.AddressDecoding.Lossless
import AesOnGpu.Barrier.Runs
import AesOnGpu.Barrier.FunctionalCore
import AesOnGpu.Dram.Progress
import AesOnGpu.Streams.Lossless
import AesOnGpu.Aes.Decryption
import AesOnGpu.Aes.RoundKeys
import AesOnGpu.Texture.Ordering
import AesOnGpu.Simt.CallRuns
import AesOnGpu.Atomics.Balanced
import AesOnGpu.Compression.BaseSize
import AesOnGpu.Compression.DoubleExponent
import AesOnGpu.Compression.ByteCounters
import AesOnGpu.SharedMemory.BankConflicts
import AesOnGpu.LoadStore.Release
import AesOnGpu.Memory.TopOfSpace
import AesOnGpu.Cache.MissQueue
import AesOnGpu.AddressDecoding.InRange
import AesOnGpu.Barrier.Broadcast
import AesOnGpu.Cache.LineIdentity
import AesOnGpu.Scheduler.WarpLimiting
import AesOnGpu.Scheduler.LongOperations
import AesOnGpu.Scheduler.MemoryBarrier
import AesOnGpu.Scheduler.FrontEnd
import AesOnGpu.FifoOccupancy
import AesOnGpu.MemoryPartition.SharedLimit
import AesOnGpu.Aes.ShiftRows
import AesOnGpu.Aes.Launch
import AesOnGpu.Aes.TestCollector
import AesOnGpu.Aes.Server
import AesOnGpu.Ptx.StaticVariables
import AesOnGpu.Ptx.MultiplyAdd
import AesOnGpu.Ptx.Division
import AesOnGpu.Ptx.Comparison
import AesOnGpu.Ptx.Shifts
import AesOnGpu.Ptx.Conversions
import AesOnGpu.Ptx.Vote
import AesOnGpu.ControlFlow.BlockRanges
import AesOnGpu.ControlFlow.CodeLayout
import AesOnGpu.Simt.ReturnPoint
import AesOnGpu.Cta.KernelRuns
import AesOnGpu.Ptx.SpacePredicates
import AesOnGpu.Cta.Occupancy
import AesOnGpu.Ptx.KernelParameters
import AesOnGpu.Texture.Tiling
import AesOnGpu.Ptx.VectorOperands
import AesOnGpu.Ptx.AtomCallback
import AesOnGpu.Execution.PipelineRuns
import AesOnGpu.Ptx.PreDecode
import AesOnGpu.Interconnect.Islip
import AesOnGpu.OperandCollector.CollectorRuns
