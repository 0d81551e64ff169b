import GServer.Library.Runs
import GServer.Library.SortedSet
import GServer.FdManager
import GServer.FdCreation
import GServer.TimerManager
import GServer.TimerInvariant
import GServer.TimerSet
import GServer.RecurringTimer
import GServer.TimerHandles
import GServer.TimerExpiry
import GServer.Library.Locks
import GServer.SchedulerLocks
import GServer.SchedulerWorkers
import GServer.WorkerInvariant
import GServer.SchedulerShutdown
import GServer.WorkersKept
import GServer.SchedulerWait
import GServer.TaskQueue
import GServer.IOManager
import GServer.IOManagerInvariant
import GServer.PendingEvents
import GServer.EventHandlers
import GServer.EventFailure
import GServer.Readiness
import GServer.Library.Chunks
import GServer.Library.Doubles
import GServer.Library.Outcome
import GServer.ByteArray
import GServer.ByteArraySpec
import GServer.ByteArraySafety
import GServer.Library.FlatBuffer
import GServer.ByteArrayReadAt
import GServer.ByteArrayRefinement
import GServer.ByteArrayCodec
import GServer.ByteArrayGather
import GServer.ByteArrayFile
import GServer.ReadAtomicity
import GServer.StringPrefix
import GServer.SocketStreamRead
import GServer.Library.OrderedMap
import GServer.Http
import GServer.HeaderStore
import GServer.HttpParser
import GServer.HttpSession
import GServer.Library.Pieces
import GServer.HttpElements
import GServer.HttpReceive
import GServer.RequestBody
import GServer.Segmentation
import GServer.KeepAlive
import GServer.Stream
import GServer.Library.TextLines
import GServer.HttpMessage
import GServer.MethodToken
import GServer.HttpServer
import GServer.ServletDispatch
import GServer.TimerWakeup
import GServer.IdleWait
import GServer.Hook
import GServer.HookTimeout
import GServer.HookClose
import GServer.HookOutcome
import GServer.HookedSleep
import GServer.SocketOptions
import GServer.EventfdDrain
import GServer.Library.Folds
import GServer.Yaml
import GServer.Library.Guards
import GServer.ConfigVar
import GServer.ConfigMembers
import GServer.ConfigLoad
import GServer.Library.RwLock
import GServer.ConfigListeners
import GServer.LogDefine
import GServer.Logger
import GServer.LogCodec
import GServer.LogPattern
import GServer.LogPatternScan
import GServer.LogPatternKept
import GServer.FormatterInheritance
import GServer.FdTable
import GServer.FdContextMutex
import GServer.TypedAccessors
import GServer.Library.BitCount
import GServer.Library.ByteSwap
import GServer.Library.GroupText
import GServer.Address
import GServer.AddressPort
import GServer.AddressPrefix
import GServer.IPv6Prefix
import GServer.HostSplit
import GServer.TcpServer
import GServer.Library.RangeTable
import GServer.HttpTable
import GServer.RequestPhases
import GServer.RequestSyntax
import GServer.RequestAccepted
import GServer.RequestParsed
import GServer.Library.StackSwitching
import GServer.CoroutineContexts
import GServer.ContextInvariant
import GServer.ContextSwitch
import GServer.ContextRefinement
import GServer.ContextRuns
import GServer.HookConnect
import GServer.ConnectMoves
import GServer.ConnectOutcome
