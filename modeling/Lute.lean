import Lute.Lib.Trace
import Lute.Lib.Vec
import Lute.Lib.Search
import Lute.Lib.Delimited
import Lute.Lib.LexicalPath
import Lute.Lib.Endian
import Lute.Lib.OrdMap
import Lute.Lib.Mailbox
import Lute.Lib.Edge
import Lute.Lib.Pattern
import Lute.Lib.Descriptors
import Lute.Lib.RoundRobin
import Lute.Lib.Backoff
import Lute.Polaris.Buffer
import Lute.Polaris.BufferSafety
import Lute.Polaris.BufferRefinement
import Lute.Polaris.ReadFd
import Lute.Polaris.BufferLimits
import Lute.Polaris.BufferGrowth
import Lute.Polaris.IntCodec
import Lute.Polaris.CodecRoundTrip
import Lute.Polaris.Channel
import Lute.Polaris.EPollPoller
import Lute.Polaris.PollerBookkeeping
import Lute.Polaris.TCPConnection
import Lute.Polaris.OutputStream
import Lute.Polaris.WriteInterest
import Lute.Polaris.HighWaterMark
import Lute.Polaris.ShutdownOrder
import Lute.Polaris.SilentChannel
import Lute.Polaris.IdleChannel
import Lute.Polaris.ReadingFlag
import Lute.Polaris.EventLoop
import Lute.Polaris.Wakeup
import Lute.Polaris.FunctorOrder
import Lute.Polaris.EventLoopThread
import Lute.Polaris.ConnectionThreads
import Lute.Polaris.CrossThreadSend
import Lute.Polaris.HalfClose
import Lute.Polaris.TimerQueue
import Lute.Polaris.TimerInvariant
import Lute.Polaris.TimerWakeup
import Lute.Polaris.TimerCancel
import Lute.Polaris.TimerSets
import Lute.Polaris.TimerLife
import Lute.Polaris.AddTimerCalls
import Lute.Polaris.TimerExpiry
import Lute.Polaris.Connector
import Lute.Polaris.ConnectorAttempts
import Lute.Polaris.ConnectorSockets
import Lute.Polaris.TCPServer
import Lute.Polaris.ConnectionStage
import Lute.Polaris.ServerLoops
import Lute.Polaris.ConnectionNames
import Lute.Polaris.ClientNames
import Lute.Polaris.StageSteps
import Lute.Polaris.LifeCycle
import Lute.Polaris.Teardown
import Lute.Polaris.TeardownFrames
import Lute.Polaris.TornLife
import Lute.Polaris.TornDispatch
import Lute.Polaris.CleanTeardown
import Lute.CDN.MessageStream
import Lute.Http.HttpRequest
import Lute.Http.HttpContext
import Lute.Http.ParserSteps
import Lute.Http.Incremental
import Lute.Http.HeaderSection
import Lute.Http.HttpServer
import Lute.Http.Rendering
import Lute.Http.RequestLine
import Lute.Http.RequestRoundTrip
import Lute.Http.ResponseFraming
import Lute.Http.Framing
import Lute.Http.OneResponse
import Lute.Http.ParserTermination
import Lute.Http.RejectedLine
import Lute.Http.Application
import Lute.Http.FormFields
import Lute.Http.InsertStatement
import Lute.Http.Login
import Lute.Http.Registration
import Lute.Http.StalePage
import Lute.Http.FileNames
import Lute.Http.StaticRoot
import Lute.Polaris.Acceptor
import Lute.Polaris.AcceptorReserve
import Lute.Polaris.EventLoopThreadPool
import Lute.Polaris.ServerPool
import Lute.Polaris.Dispatch
import Lute.Http.Exchange
import Lute.Polaris.BufferedConnection
import Lute.Polaris.ConnectorRetries
import Lute.Polaris.ClientLife
import Lute.Polaris.Echo
import Lute.Polaris.WriteComplete
import Lute.Polaris.ServerPollers
import Lute.Polaris.ServerWakeup
import Lute.Polaris.ConnectionLifetime
