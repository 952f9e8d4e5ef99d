import Dthread.FifoNet
import Dthread.Quiescence
import Dthread.ReqMsg
import Dthread.Queuing
import Dthread.SendDrain
import Dthread.Wakeups
import Dthread.ManagerTables
import Dthread.ManagerHandlers
import Dthread.ManagerEffects
import Dthread.HandlerSteps
import Dthread.ManagerOutcomes
import Dthread.TableWrites
import Dthread.AppThreads
import Dthread.ThreadFates
import Dthread.JobSystem
import Dthread.BufferDisposal
import Dthread.JoinTerminated
import Dthread.FailedCreate
import Dthread.MalformedMessages
import Dthread.JobRuns
import Dthread.JobLogs
import Dthread.RequestReply
import Dthread.Rank0Runs
import Dthread.Generations
import Dthread.SequenceSource
import Dthread.Handles
import Dthread.DetachedZombies
import Dthread.Joins
import Dthread.LocalSlots
import Dthread.RequestLists
import Dthread.ThreadLife
import Dthread.LifeRefinement
import Dthread.IdleShutdown
import Dthread.CancelEffect
import Dthread.TableSteps
import Dthread.TableCounts
import Dthread.FateRefinement
import Dthread.FateSteps
import Dthread.FateRuns
import Dthread.FinalStates
import Dthread.EncodedReturns
import Dthread.SlotSearch
import Dthread.StartSlots
import Dthread.DetachedCreate
import Dthread.ByteMemory
import Dthread.MachineInts
import Dthread.Extents
import Dthread.ShmRefs
import Dthread.BreakMalloc
import Dthread.BreakRuns
import Dthread.BsdMalloc
import Dthread.FreeLists
import Dthread.BsdBuckets
import Dthread.BsdRuns
import Dthread.Segments
import Dthread.SegmentAllocs
import Dthread.Collectives
import Dthread.SegmentEstablish
import Dthread.MpiTestsome
import Dthread.FifoChannels
import Dthread.MpiSystem
import Dthread.SendCompaction
import Dthread.MpiBuffers
import Dthread.MpiChannels
import Dthread.TreeFlood
import Dthread.BroadcastTree
import Dthread.HandlersReturn
import Dthread.ManagerWork
import Dthread.ThreadPlaces
import Dthread.JoinDeadlock
import Dthread.HandlerQueues
import Dthread.MainLoops
import Dthread.ShutdownDelivery
import Dthread.ShutdownEnd
import Dthread.CallLedger
import Dthread.CreateCalls
import Dthread.JoinValues
import Dthread.ShutdownBroadcast
import Dthread.BsdRealloc
import Dthread.BsdSizes
import Dthread.BreakSizes
import Dthread.Arenas
import Dthread.SegmentAvail
import Dthread.ArenaWrites
import Dthread.SegmentLayout
import Dthread.AnySizes
import Dthread.FreeByRef
import Dthread.PointerRefs
import Dthread.Bootstrap
import Dthread.XthreadInit
import Dthread.Xthread
import Dthread.XthreadCapacity
