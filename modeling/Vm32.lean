import Vm32.Lib.Runs
import Vm32.Lib.Probe
import Vm32.Lib.BindingLog
import Vm32.Lib.Logged
import Vm32.Lib.FoldHash
import Vm32.Lib.BoundedString
import Vm32.Lib.CText
import Vm32.Lib.Progress
import Vm32.Lib.Footprint
import Vm32.Lib.Regions
import Vm32.Lib.Deltas
import Vm32.Lib.Fields
import Vm32.Hashing.Checksum
import Vm32.Hashing.Burst
import Vm32.Hashing.BitSerial
import Vm32.Hashing.Table
import Vm32.Hashing.TableInv
import Vm32.Hashing.TableStep
import Vm32.Hashing.TableOps
import Vm32.Hashing.TableMap
import Vm32.Hashing.TableOwnership
import Vm32.Hashing.TableCount
import Vm32.Hashing.TableBound
import Vm32.Hashing.TableResize
import Vm32.Vm.DecodeCache
import Vm32.Vm.Timers
import Vm32.Vm.State
import Vm32.Vm.Funcs
import Vm32.Vm.Frame
import Vm32.Vm.Handlers
import Vm32.Vm.Instruction
import Vm32.Vm.Loader
import Vm32.Vm.HotReload
import Vm32.Vm.DirectoryOrder
import Vm32.Vm.Lifecycle
import Vm32.Vm.LoaderLayout
import Vm32.Vm.ReloadFailure
import Vm32.Vm.RunProgram
import Vm32.Vm.StateHash
import Vm32.Vm.RegisterHashes
import Vm32.Vm.CacheCoherence
import Vm32.Vm.ReloadSwitch
import Vm32.Vm.Bookkeeping
import Vm32.Vm.Directory
import Vm32.Vm.Stop
import Vm32.Vm.VirtualTime
import Vm32.Vm.Integrity
import Vm32.Vm.Counters
import Vm32.Vm.EdgeBlocks
import Vm32.Vm.IecCalls
import Vm32.Vm.TimerRuns
import Vm32.Vm.RetentiveTimers
import Vm32.Vm.TimerInstructions
import Vm32.Vm.Latches
import Vm32.Vm.ProgramIntegrity
import Vm32.Vm.Reset
import Vm32.Vm.Fetch
import Vm32.Vm.ControlTransfer
import Vm32.Vm.Accesses
import Vm32.Vm.MemorySafety
import Vm32.Vm.MemoryHash
import Vm32.Vm.Strings
import Vm32.Vm.StringSplice
import Vm32.Vm.StringAliasing
import Vm32.System.Tasks
import Vm32.System.LegacyRuntime
import Vm32.System.SingleCycle
import Vm32.System.ScanBound
import Vm32.System.TimeBlind
import Vm32.System.EmbeddedRuns
import Vm32.System.Components
import Vm32.Asm.Encoding
import Vm32.Asm.Converter
import Vm32.Asm.Buffers
import Vm32.Asm.Output
import Vm32.Asm.Grammar
import Vm32.Asm.LongLines
import Vm32.Asm.Disassembly
import Vm32.Asm.Executes
import Vm32.Asm.SourceMachine
import Vm32.Asm.SourceRun
import Vm32.Asm.StraightLine
import Vm32.Asm.DataObjects
import Vm32.Asm.Scan
import Vm32.Asm.Independence
import Vm32.Asm.Log
import Vm32.Asm.Listing
import Vm32.Asm.LogReplay
import Vm32.System.CommandLine
import Vm32.System.Main
