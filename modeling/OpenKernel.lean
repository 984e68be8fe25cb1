import OpenKernel.Lib.Put
import OpenKernel.Lib.Ring
import OpenKernel.Lib.History
import OpenKernel.Lib.Runs
import OpenKernel.Lib.BitFields
import OpenKernel.Lib.Effect
import OpenKernel.Memory.Elf
import OpenKernel.Memory.Allocator
import OpenKernel.Kernel.Queue
import OpenKernel.Kernel.Joiners
import OpenKernel.Kernel.Failure
import OpenKernel.Kernel.Registrations
import OpenKernel.Kernel.Events
import OpenKernel.Kernel.Reuse
import OpenKernel.Kernel.FutexWake
import OpenKernel.Kernel.MainThreads
import OpenKernel.Kernel.Families
import OpenKernel.Lib.Radix
import OpenKernel.Memory.Entries
import OpenKernel.Memory.Ownership
import OpenKernel.Memory.Release
import OpenKernel.Memory.Mapping
import OpenKernel.Memory.Spaces
import OpenKernel.Memory.Stacks
import OpenKernel.Memory.Separation
import OpenKernel.Memory.SpaceSteps
import OpenKernel.Memory.SpaceRuns
import OpenKernel.Memory.KernelHalf
import OpenKernel.Memory.Exclusive
import OpenKernel.Console.Pty
import OpenKernel.Files.Storage
import OpenKernel.Files.Vfs
import OpenKernel.Files.Lookup
import OpenKernel.Files.Descriptors
import OpenKernel.Files.FileModel
import OpenKernel.Files.FileRefinement
import OpenKernel.Console.Terminals
import OpenKernel.Devices.VirtioRng
import OpenKernel.Userland.SpawnArguments
import OpenKernel.Userland.Supervisor
import OpenKernel.Userland.SyscallResults
import OpenKernel.Console.Framebuffer
import OpenKernel.Console.Screen
import OpenKernel.Console.Rendering
import OpenKernel.Kernel.Instances
import OpenKernel.Kernel.ThreadCreation
import OpenKernel.Console.PtySessions
import OpenKernel.Console.PtyOwners
import OpenKernel.Memory.PartialMap
import OpenKernel.Memory.Conservation
import OpenKernel.Userland.UserRanges
import OpenKernel.Memory.CheckedElf
import OpenKernel.Memory.KernelMappings
import OpenKernel.Memory.ActiveTable
import OpenKernel.Kernel.ActiveSpace
import OpenKernel.Memory.BootFrames
import OpenKernel.Files.RamStore
import OpenKernel.Files.OpenFailure
import OpenKernel.Files.DirectoryReads
import OpenKernel.Kernel.Deadlines
import OpenKernel.Memory.NewPages
import OpenKernel.Kernel.Heap
import OpenKernel.Kernel.HeapFailure
import OpenKernel.Memory.Contents
import OpenKernel.Memory.LoadPages
import OpenKernel.Memory.LoadPlan
import OpenKernel.Memory.RejectedImage
import OpenKernel.Memory.AcceptedImage
import OpenKernel.Memory.TlsBlock
import OpenKernel.Memory.ProgramImage
import OpenKernel.Lib.Copying
import OpenKernel.Userland.MemoryRoutines
import OpenKernel.Lib.Dependencies
import OpenKernel.Userland.StartOrder
import OpenKernel.Lib.Blocks
import OpenKernel.Files.WorkingDirectory
import OpenKernel.Console.Keyboard
import OpenKernel.Console.ReportedWrites
import OpenKernel.Console.PixelBounds
import OpenKernel.Userland.PrivateRange
import OpenKernel.Userland.StartupStack
import OpenKernel.Memory.TakenFrames
import OpenKernel.Memory.FailedStacks
import OpenKernel.Memory.FreedFrames
import OpenKernel.Memory.ReleasedStacks
import OpenKernel.Kernel.FailedCreation
import OpenKernel.Kernel.LiveSpaces
import OpenKernel.Kernel.LiveRecords
import OpenKernel.Kernel.SpaceEffects
import OpenKernel.Kernel.Lifetimes
import OpenKernel.Kernel.ProcessLifetime
import OpenKernel.Kernel.Isolation
import OpenKernel.Kernel.FairQueue
import OpenKernel.Kernel.KernelStacks
import OpenKernel.Kernel.Turns
import OpenKernel.Kernel.UserMode
import OpenKernel.Kernel.SyscallReturn
import OpenKernel.Kernel.ThreadStart
import OpenKernel.Kernel.JoinResults
import OpenKernel.Kernel.MistakenWaits
import OpenKernel.Lib.Folding
import OpenKernel.Devices.Pci
import OpenKernel.Lib.LittleEndian
import OpenKernel.Devices.Ahci
import OpenKernel.Devices.SataCommands
import OpenKernel.Devices.SataStart
import OpenKernel.Devices.SataReads
import OpenKernel.Userland.LineEditor
import OpenKernel.Memory.Bootstrap
