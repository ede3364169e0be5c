import D3OS.Device.IdePio
import D3OS.Device.Rtl8139
import D3OS.Ibverbs.Decode
import D3OS.Ibverbs.Delivery
import D3OS.Ibverbs.Doorbells
import D3OS.Ibverbs.Resets
import D3OS.Memory.BootHeap
import D3OS.Memory.ExitFrames
import D3OS.Memory.FreeFrames
import D3OS.Mlx4.Buffers
import D3OS.Mlx4.Cleanup
import D3OS.Mlx4.HostBytes
import D3OS.Mlx4.Isolation
import D3OS.Mlx4.ModifyErrors
import D3OS.Mlx4.UarAccess
import D3OS.Naming.Creation
import D3OS.Naming.FileReference
import D3OS.Naming.PipeCounter
import D3OS.Naming.PipeOpen
import D3OS.Naming.PipeReads
import D3OS.Naming.PipeWrites
import D3OS.Network.Locks
import D3OS.Network.LossTracker
import D3OS.Network.SocketOwners
import D3OS.Process.CopyArgs
import D3OS.Process.ElfLoading
import D3OS.Process.KillExact
import D3OS.Process.KilledThreads
import D3OS.Process.ProcessExit
import D3OS.Process.SchedulerLocks
import D3OS.Process.Unblock
import D3OS.Storage.Block
import D3OS.Text.Refinement
import D3OS.Uverbs.Errors
