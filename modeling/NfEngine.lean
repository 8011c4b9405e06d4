import NfEngine.Lib.Transition
import NfEngine.Lib.Map
import NfEngine.Packet.Packet
import NfEngine.Execution.Action
import NfEngine.Session.SessionManager
import NfEngine.Ingress.RxRouter
import NfEngine.Egress.TxRouter
import NfEngine.Session.IndexAgreement
import NfEngine.Algorithm.MpscInvariant
import NfEngine.Algorithm.MpscGuarantees
import NfEngine.Algorithm.ByteRingBuffer
import NfEngine.Algorithm.ByteQueue
import NfEngine.Lib.Framing
import NfEngine.Lib.Decode
import NfEngine.Lib.Buffer
import NfEngine.Protocol.TcpReceive
import NfEngine.Protocol.Framing
import NfEngine.Protocol.FrameReader
import NfEngine.Protocol.TcpSegmentation
import NfEngine.Protocol.Descriptors
import NfEngine.Protocol.EventLoops
import NfEngine.Server.Model
import NfEngine.Server.Jobs
import NfEngine.Server.Lifecycle
import NfEngine.Server.Effects
import NfEngine.Server.Addressing
import NfEngine.Server.Presence
import NfEngine.Server.Placement
import NfEngine.Server.DuplicateLogin
import NfEngine.Ipc.IpcMessage
import NfEngine.Protocol.StreamReceive
import NfEngine.Protocol.HalfClose
import NfEngine.Ipc.IpcReactor
import NfEngine.Ipc.RoundTrip
import NfEngine.Ipc.ReplyOwnership
import NfEngine.Ipc.CallReplies
import NfEngine.Protocol.ConnTable
import NfEngine.Protocol.TcpTransmit
import NfEngine.Protocol.TlsTransmit
import NfEngine.Protocol.Interest
import NfEngine.Mgmt.AuthService
import NfEngine.Mgmt.HttpRouter
import NfEngine.Lib.Path
import NfEngine.Mgmt.StaticFiles
import NfEngine.Lib.Search
import NfEngine.Mgmt.Cookies
import NfEngine.Mgmt.Startup
import NfEngine.Db.DbManager
import NfEngine.Shard.ShardWorker
import NfEngine.Algorithm.SpscQueue
import NfEngine.Algorithm.SpscGuarantees
import NfEngine.Protocol.Wakeup
import NfEngine.Protocol.TxReactor
import NfEngine.Protocol.UdpReactor
import NfEngine.Protocol.WorkerOrder
import NfEngine.Server.InShardOrder
import NfEngine.Execution.Header
import NfEngine.Execution.LoginRequest
import NfEngine.Execution.Responses
import NfEngine.Protocol.FramedPackets
import NfEngine.Lib.Pool
import NfEngine.Lib.Provenance
import NfEngine.Db.ConnectionPool
import NfEngine.Shard.Tick
import NfEngine.Execution.MarketContext
import NfEngine.Server.Exchange
import NfEngine.Server.Answers
import NfEngine.Lib.Lock
import NfEngine.Algorithm.LockQueue
import NfEngine.Session.Locking
import NfEngine.Server.Authentication
import NfEngine.Server.Completion
import NfEngine.Server.WireAnswers
import NfEngine.Core.SnapshotProgress
