import GunyahRuntime.LogBuf
import GunyahRuntime.TtyRuns
import GunyahRuntime.SleepRuns
import GunyahRuntime.Ticks
import GunyahRuntime.Reloc
import GunyahRuntime.Auxv
import GunyahRuntime.Str.ReadBack
import GunyahRuntime.Str.Truncation
import GunyahRuntime.Mmap.Limits
import GunyahRuntime.Mmap.Unmap
import GunyahRuntime.Irq.BitOps
import GunyahRuntime.Irq.DispatchLoop
import GunyahRuntime.Irq.Init
import GunyahRuntime.Slots
import GunyahRuntime.Fs
import GunyahRuntime.Str.Alignment
import GunyahRuntime.LogMsg
import GunyahRuntime.Str.Descriptor
import GunyahRuntime.Str.Meaning
import GunyahRuntime.Str.Segments
import GunyahRuntime.Memmove
import GunyahRuntime.MemsetRuns
import GunyahRuntime.Vectors
import GunyahRuntime.TrapFrame
import GunyahRuntime.SyscallReports
import GunyahRuntime.SyscallExit
import GunyahRuntime.SyscallEntry
