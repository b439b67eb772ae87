import PinpointAgent.Framework.Lists
import PinpointAgent.Framework.JsonTree
import PinpointAgent.Framework.Word
import PinpointAgent.Framework.ByteBuffer
import PinpointAgent.Framework.Framing
import PinpointAgent.Framework.Interleaving
import PinpointAgent.Framework.FreeList
import PinpointAgent.Framework.RefCount
import PinpointAgent.Framework.Lockstep
import PinpointAgent.Framework.Ascent
import PinpointAgent.Framework.TryFinally
import PinpointAgent.Framework.Logged
import PinpointAgent.Framework.Channel
import PinpointAgent.Framework.Dict
import PinpointAgent.Framework.LexSequence
import PinpointAgent.Framework.Overlay
import PinpointAgent.Framework.SortedMap
import PinpointAgent.Framework.Lease
import PinpointAgent.Framework.Census
import PinpointAgent.Cache.Chunk
import PinpointAgent.Cache.ByteFifo
import PinpointAgent.Cache.Room
import PinpointAgent.Cache.Accounting
import PinpointAgent.Cache.Checked
import PinpointAgent.Cache.MemoryLimit
import PinpointAgent.ConnectionPool.RecvStream
import PinpointAgent.Server.HandleClient
import PinpointAgent.Server.Lossless
import PinpointAgent.Server.InBounds
import PinpointAgent.Server.LastRoom
import PinpointAgent.Server.Hello
import PinpointAgent.Server.Shutdown
import PinpointAgent.Server.Slots
import PinpointAgent.Router.GrpcAgent
import PinpointAgent.Router.AgentRouter
import PinpointAgent.Router.Retirement
import PinpointAgent.Router.ResponseTime
import PinpointAgent.Router.StatStream
import PinpointAgent.NodePool.NodeStore
import PinpointAgent.NodePool.PoolRefinement
import PinpointAgent.NodePool.SizeLimit
import PinpointAgent.NodePool.UserOptions
import PinpointAgent.NodePool.ThreadPool
import PinpointAgent.NodePool.TraceLinks
import PinpointAgent.NodePool.OwnTrace
import PinpointAgent.Agent.Agent
import PinpointAgent.Agent.Forest
import PinpointAgent.Agent.Release
import PinpointAgent.Agent.FailedStart
import PinpointAgent.Agent.SpanEvents
import PinpointAgent.Agent.SpanNumbers
import PinpointAgent.Agent.Alike
import PinpointAgent.Agent.Isolation
import PinpointAgent.ConnectionPool.TransLayer
import PinpointAgent.ConnectionPool.EventLoop
import PinpointAgent.ConnectionPool.Address
import PinpointAgent.ConnectionPool.HostPort
import PinpointAgent.ConnectionPool.WholeFrames
import PinpointAgent.Cache.State
import PinpointAgent.Cache.TraceLimit
import PinpointAgent.Agent.HelloMsg
import PinpointAgent.Agent.VersionOrder
import PinpointAgent.Agent.Delivery
import PinpointAgent.Agent.ForkedWorkers
import PinpointAgent.Agent.EncoderKeys
import PinpointAgent.Agent.ParentWalk
import PinpointAgent.Agent.ThreadLocal
import PinpointAgent.Agent.ForcedEnd
import PinpointAgent.Agent.PhpRequest
import PinpointAgent.Php.Interceptors
import PinpointAgent.Metadata.SpanSender
import PinpointAgent.Metadata.IdCache
import PinpointAgent.Filters.TSpan
import PinpointAgent.Filters.UrlTemplate
import PinpointAgent.Filters.UrlStatistics
import PinpointAgent.Filters.SpanMessage
import PinpointAgent.Filters.ProxyTime
import PinpointAgent.Filters.SpanQueue
import PinpointAgent.Filters.FilterChain
import PinpointAgent.Filters.Pipeline
import PinpointAgent.Python.Extension
import PinpointAgent.Python.ContextKeys
import PinpointAgent.Python.Decorators
import PinpointAgent.Python.Transparency
import PinpointAgent.Python.Celery
import PinpointAgent.Python.CeleryRoundTrip
import PinpointAgent.Python.CallTree
import PinpointAgent.Python.NestedCalls
import PinpointAgent.Python.OutgoingRequest
import PinpointAgent.Python.IncomingRequest
import PinpointAgent.Python.BegunTrace
import PinpointAgent.Python.TracePath
import PinpointAgent.Jsoncpp.Utf8
import PinpointAgent.Jsoncpp.Writer
import PinpointAgent.Jsoncpp.Reader
import PinpointAgent.Jsoncpp.Strings
import PinpointAgent.Jsoncpp.RoundTrip
import PinpointAgent.Jsoncpp.AnyText
import PinpointAgent.Agent.SpanText
import PinpointAgent.EndToEnd
import PinpointAgent.Handshake
import PinpointAgent.SharedConnections
