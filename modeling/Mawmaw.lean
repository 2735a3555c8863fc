import Mawmaw.Lib.Reassembly
import Mawmaw.Lib.TaskSystem
import Mawmaw.Server.Metrics
import Mawmaw.Server.Workers
import Mawmaw.Server.Schedules
import Mawmaw.Publisher.Dashboard
import Mawmaw.Server.Delivery
import Mawmaw.Core.WindowBounds
import Mawmaw.Core.ScriptQueue
import Mawmaw.Core.Producers
import Mawmaw.Executor.WasmCodec
import Mawmaw.Executor.WasmScript
import Mawmaw.Executor.WasmRoundTrip
import Mawmaw.Executor.WasmResponse
import Mawmaw.Executor.WasmRequest
import Mawmaw.Server.Windows
import Mawmaw.Lib.Schedule
import Mawmaw.Lib.Accumulator
import Mawmaw.Core.WindowViews
import Mawmaw.Core.SnapshotCopy
import Mawmaw.Core.QueueWaiting
import Mawmaw.Server.Statistics
import Mawmaw.Server.PackedStatistics
import Mawmaw.Lib.Tally
import Mawmaw.Server.Counting
import Mawmaw.Server.Conservation
import Mawmaw.Server.MetricsThread
import Mawmaw.Server.DashboardRun
import Mawmaw.Server.MetricsRound
import Mawmaw.Lib.SharedStream
import Mawmaw.Publisher.WebSocketFrames
import Mawmaw.Publisher.WebSocketWire
import Mawmaw.Publisher.WebSocketServe
import Mawmaw.Lib.HandleTable
import Mawmaw.Publisher.Descriptors
import Mawmaw.Publisher.OwnDescriptors
import Mawmaw.Publisher.Teardown
import Mawmaw.Core.OverflowSignal
import Mawmaw.Config.Parse
import Mawmaw.Config.Routes
import Mawmaw.Server.Threads
import Mawmaw.Server.Naming
import Mawmaw.Executor.PythonScript
import Mawmaw.Server.Lineage
import Mawmaw.Server.FailedStart
import Mawmaw.Server.Reload
import Mawmaw.Lib.PartialTransfer
import Mawmaw.Publisher.ClientFrames
import Mawmaw.Publisher.WebSocketCalls
import Mawmaw.Publisher.WebSocketRoundTrip
import Mawmaw.Lib.SelfDelimiting
import Mawmaw.Executor.RequestFrame
import Mawmaw.Lib.Sha1
import Mawmaw.Publisher.Sha1
import Mawmaw.Lib.HttpRequest
import Mawmaw.Publisher.Handshake
import Mawmaw.Publisher.EventJson
import Mawmaw.Lib.Scan
import Mawmaw.Publisher.DashboardReads
import Mawmaw.Server.ChunkHeaders
import Mawmaw.Core.TimeWindows
import Mawmaw.Lib.Base64
import Mawmaw.Publisher.Base64
import Mawmaw.Config.Grammar
import Mawmaw.Config.WindowGrammar
import Mawmaw.Lib.Pieces
import Mawmaw.Publisher.HttpAnswers
import Mawmaw.Server.DefaultEndpoints
import Mawmaw.Core.RingHistory
import Mawmaw.Lib.Ledger
import Mawmaw.Server.ScriptIds
import Mawmaw.Server.Accounting
import Mawmaw.Lib.Progress
import Mawmaw.Core.QueueShutdown
import Mawmaw.Lib.DecimalText
import Mawmaw.Lib.HttpResponse
import Mawmaw.Publisher.HttpServer
import Mawmaw.Publisher.Broadcast
import Mawmaw.Lib.ReadAll
import Mawmaw.Publisher.ClientReads
import Mawmaw.Publisher.Session
import Mawmaw.Lib.Shutdown
import Mawmaw.Server.Shutdown
import Mawmaw.Lib.LinearMemory
import Mawmaw.Executor.Passthrough
import Mawmaw.Lib.Lines
import Mawmaw.Publisher.FileEndpoint
import Mawmaw.Server.FileLog
