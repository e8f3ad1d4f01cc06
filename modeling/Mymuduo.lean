import Mymuduo.Lib.OrderedSet
import Mymuduo.Lib.Fifo
import Mymuduo.Lib.Grouping
import Mymuduo.Lib.Run
import Mymuduo.Lib.Coupled
import Mymuduo.Lib.Search
import Mymuduo.Lib.Numeral
import Mymuduo.Lib.Arrivals
import Mymuduo.Lib.Path
import Mymuduo.Lib.Table
import Mymuduo.Lib.Messages
import Mymuduo.Lib.Cells
import Mymuduo.Lib.Calendar
import Mymuduo.Lib.Descriptors
import Mymuduo.Base.Fault
import Mymuduo.Base.Decimal
import Mymuduo.Base.Printf
import Mymuduo.Base.LocalTime
import Mymuduo.Net.Buffer
import Mymuduo.Net.BufferQueue
import Mymuduo.Net.BufferSize
import Mymuduo.Net.ByteQueue
import Mymuduo.Net.Channel
import Mymuduo.Net.EPollPoller
import Mymuduo.Net.EventLoop
import Mymuduo.Net.InetAddress
import Mymuduo.Net.TcpServer
import Mymuduo.Net.TcpClient
import Mymuduo.Net.Registration
import Mymuduo.Net.PollerGrowth
import Mymuduo.Net.ChannelInterest
import Mymuduo.Net.ReleaseBuild
import Mymuduo.Net.LoopThreads
import Mymuduo.Net.TcpConnection
import Mymuduo.Net.OutputStream
import Mymuduo.Net.ShutdownOrder
import Mymuduo.Net.ForceClose
import Mymuduo.Net.WriteInterest
import Mymuduo.Net.ConnectionStages
import Mymuduo.Net.ServerLoops
import Mymuduo.Net.ServerInvariant
import Mymuduo.Net.ServerSteps
import Mymuduo.Net.ServerPoll
import Mymuduo.Net.ServerAccept
import Mymuduo.Net.ServerLifecycle
import Mymuduo.Net.Connector
import Mymuduo.Net.ConnectorLoop
import Mymuduo.Net.ConnectorRun
import Mymuduo.Net.ConnectorAttempts
import Mymuduo.Net.ConnectorDelays
import Mymuduo.Net.EventLoopThread
import Mymuduo.Net.QuitLoop
import Mymuduo.Net.TimerQueue
import Mymuduo.Net.TimerInvariant
import Mymuduo.Net.TimerCancel
import Mymuduo.Net.TimerFire
import Mymuduo.Net.TimerFd
import Mymuduo.Net.TimerOwnership
import Mymuduo.Logger.FixedBuffer
import Mymuduo.Logger.LogStream
import Mymuduo.Logger.FormatInteger
import Mymuduo.Logger.Streaming
import Mymuduo.Logger.Logging
import Mymuduo.Logger.TimePrefix
import Mymuduo.Logger.LogRecord
import Mymuduo.Logger.FileUtil
import Mymuduo.Logger.LogFile
import Mymuduo.Logger.Rolling
import Mymuduo.Logger.AsyncLogging
import Mymuduo.Logger.StopLogging
import Mymuduo.Logger.BufferSupply
import Mymuduo.Http.HttpConnection
import Mymuduo.Http.ParseRequest
import Mymuduo.Http.Exchange
import Mymuduo.Http.Resume
import Mymuduo.Http.ContentLength
import Mymuduo.Http.ParserSafety
import Mymuduo.Http.FormFields
import Mymuduo.Http.FormEncoding
import Mymuduo.Http.Request
import Mymuduo.Http.Headers
import Mymuduo.Http.Framing
import Mymuduo.Http.Pipeline
import Mymuduo.Http.RoundTrip
import Mymuduo.Http.Isolation
import Mymuduo.Http.Session
import Mymuduo.Http.IdleTimer
import Mymuduo.Http.SourceDirectory
import Mymuduo.Http.ServedFile
import Mymuduo.Http.Responses
import Mymuduo.Http.HeaderNames
import Mymuduo.Net.MessageStream
import Mymuduo.Net.EchoServer
import Mymuduo.Http.Wire
import Mymuduo.Http.ShutdownOnce
import Mymuduo.Http.Service
import Mymuduo.Logger.LogPipeline
import Mymuduo.Net.Acceptor
import Mymuduo.Net.ServerFrame
import Mymuduo.Net.LoopBalance
import Mymuduo.Net.Lifetime
import Mymuduo.Net.ServerStreams
import Mymuduo.Net.ChannelPhases
import Mymuduo.Net.ServerPhases
import Mymuduo.Net.ServerTeardown
import Mymuduo.Net.ClientDestruction
