import BasiliskII.ADB.KeyBuffer
import BasiliskII.ADB.Motion
import BasiliskII.ADB.Mouse
import BasiliskII.ADB.MouseModes
import BasiliskII.ADB.MouseSystem
import BasiliskII.Audio.Component
import BasiliskII.Audio.DoubleBuffer
import BasiliskII.Audio.LifeCycle
import BasiliskII.Audio.Threads
import BasiliskII.Cdrom.Position
import BasiliskII.Cdrom.ReadToc
import BasiliskII.Cdrom.Toc
import BasiliskII.Cpu.AddressingModes
import BasiliskII.Cpu.BadFrames
import BasiliskII.Cpu.BitFieldFlags
import BasiliskII.Cpu.BitFields
import BasiliskII.Cpu.CompareAndSwap
import BasiliskII.Cpu.CompareBounds
import BasiliskII.Cpu.DecimalArithmetic
import BasiliskII.Cpu.Exceptions
import BasiliskII.Cpu.ExecuteLoop
import BasiliskII.Cpu.ExtendedArithmetic
import BasiliskII.Cpu.InstructionRounds
import BasiliskII.Cpu.LongDivision
import BasiliskII.Cpu.LongMultiplication
import BasiliskII.Cpu.MoveMultiple
import BasiliskII.Cpu.NestedExecution
import BasiliskII.Cpu.OpcodeMerges
import BasiliskII.Cpu.RegisterShifts
import BasiliskII.Cpu.Shifts
import BasiliskII.Cpu.SignedDivision
import BasiliskII.Cpu.StackPointers
import BasiliskII.Cpu.TraceExceptions
import BasiliskII.Cpu.Traps
import BasiliskII.Disk.Driver
import BasiliskII.Disk.Partition
import BasiliskII.Disk.VolumeBounds
import BasiliskII.Drives.DriveList
import BasiliskII.Drives.StatusRecords
import BasiliskII.ExtFS.Calls
import BasiliskII.ExtFS.CatInfo
import BasiliskII.ExtFS.CatRecord
import BasiliskII.ExtFS.CnidStability
import BasiliskII.ExtFS.DirCount
import BasiliskII.ExtFS.FinderInfo
import BasiliskII.ExtFS.ForkLength
import BasiliskII.ExtFS.HelperFiles
import BasiliskII.ExtFS.HelperPath
import BasiliskII.ExtFS.NameCopy
import BasiliskII.ExtFS.Operations
import BasiliskII.ExtFS.PathBuffer
import BasiliskII.ExtFS.PathResolution
import BasiliskII.ExtFS.PathWalk
import BasiliskII.ExtFS.Transfer
import BasiliskII.Fpu.Arithmetic
import BasiliskII.Fpu.Comparison
import BasiliskII.Fpu.Conditions
import BasiliskII.Fpu.ControlRegisters
import BasiliskII.Fpu.Extended
import BasiliskII.Fpu.Fmovem
import BasiliskII.Fpu.FmovemLists
import BasiliskII.Fpu.FmovemRoundTrip
import BasiliskII.Fpu.IllegalInstructions
import BasiliskII.Fpu.Operations
import BasiliskII.Fpu.StateFrames
import BasiliskII.Fpu.StatusRegister
import BasiliskII.Input.CodeBounds
import BasiliskII.Input.HeldKeys
import BasiliskII.Input.InputMaps
import BasiliskII.Input.Keyboard
import BasiliskII.Input.Modifiers
import BasiliskII.Input.Touch
import BasiliskII.Input.TouchButtons
import BasiliskII.Interrupts.CpuLoop
import BasiliskII.Interrupts.EventsServed
import BasiliskII.Interrupts.IrqHandler
import BasiliskII.Interrupts.NotStranded
import BasiliskII.Jit.Blacklist
import BasiliskII.Jit.BlockRuns
import BasiliskII.Jit.Blocks
import BasiliskII.Jit.ChecksumRanges
import BasiliskII.Jit.MiddleRuns
import BasiliskII.Library.ByteBuilder
import BasiliskII.Library.ByteMemory
import BasiliskII.Library.CBuffer
import BasiliskII.Library.Compaction
import BasiliskII.Library.DescriptorTable
import BasiliskII.Library.FileBytes
import BasiliskII.Library.LinkCursor
import BasiliskII.Library.Occurrence
import BasiliskII.Library.SegmentList
import BasiliskII.Library.SentinelScan
import BasiliskII.Library.SignedWidth
import BasiliskII.Library.StampCache
import BasiliskII.Library.StepSystem
import BasiliskII.Library.StringDest
import BasiliskII.Library.WordSums
import BasiliskII.Library.WriteLog
import BasiliskII.Menu.ParseDir
import BasiliskII.Menu.FileSelector
import BasiliskII.Menu.MediaMenu
import BasiliskII.Menu.MenuSelection
import BasiliskII.Prefs.CommandLine
import BasiliskII.Prefs.LineBuffer
import BasiliskII.Prefs.Refinement
import BasiliskII.Prefs.RoundTrip
import BasiliskII.Prefs.Store
import BasiliskII.Prefs.Stream
import BasiliskII.Rom.RomArea
import BasiliskII.Rom.FindResource
import BasiliskII.Rom.SlotRom
import BasiliskII.Router.Checksums
import BasiliskII.Router.FromMac
import BasiliskII.Router.FromMacInvariant
import BasiliskII.Router.FromMacPacket
import BasiliskII.Router.FtpCommands
import BasiliskII.Router.FtpPorts
import BasiliskII.Router.IcmpPackets
import BasiliskII.Router.ListenerLinks
import BasiliskII.Router.ListenerRuns
import BasiliskII.Router.Listeners
import BasiliskII.Router.SlotIsolation
import BasiliskII.Router.Slots
import BasiliskII.Router.TcpEvents
import BasiliskII.Router.TcpOptions
import BasiliskII.Router.TcpTransitions
import BasiliskII.Router.ToMac
import BasiliskII.Router.ToMacInvariant
import BasiliskII.Router.UdpRuns
import BasiliskII.Rsrc.CheckLoad
import BasiliskII.Rsrc.PatchBounds
import BasiliskII.Rsrc.Search
import BasiliskII.SCSI.Direction
import BasiliskII.SCSI.Manager
import BasiliskII.SCSI.ScatterGather
import BasiliskII.SCSI.TibLoops
import BasiliskII.Sys.EjectSuspend
import BasiliskII.Sys.HandleInvariant
import BasiliskII.Sys.HandleList
import BasiliskII.Timer.Conversions
import BasiliskII.Timer.Descriptors
import BasiliskII.Timer.Drift
import BasiliskII.Timer.Manager
import BasiliskII.Timer.OnTime
import BasiliskII.Timer.Scheduled
import BasiliskII.Timer.TimeLeft
import BasiliskII.Video.FrameBanks
import BasiliskII.Video.Gamma
import BasiliskII.Video.GammaBounds
import BasiliskII.Video.GammaTable
import BasiliskII.Video.Refresh
import BasiliskII.Video.Resolutions
import BasiliskII.Video.SetGamma
import BasiliskII.Video.Vosf
