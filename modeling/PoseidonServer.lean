import PoseidonServer.Conn.AcceptQueue
import PoseidonServer.Conn.Accepted
import PoseidonServer.Conn.Acknowledged
import PoseidonServer.Conn.FieldBudget
import PoseidonServer.Conn.GoAway
import PoseidonServer.Conn.HpackSend
import PoseidonServer.Conn.NoLeak
import PoseidonServer.Conn.OpenBlock
import PoseidonServer.Conn.PushPromise
import PoseidonServer.Conn.Refunds
import PoseidonServer.Conn.Refused
import PoseidonServer.Conn.Reset.Runs
import PoseidonServer.Conn.SendCredit.Runs
import PoseidonServer.Conn.Settings
import PoseidonServer.Conn.StreamTable
import PoseidonServer.Conn.TableWidths
import PoseidonServer.Conn.ValidRequests
import PoseidonServer.ContentLength
import PoseidonServer.FrontDoors
import PoseidonServer.Grpc.Descriptors
import PoseidonServer.Grpc.Health
import PoseidonServer.Grpc.Reflection
import PoseidonServer.Grpc.Service
import PoseidonServer.Grpc.Timeout
import PoseidonServer.Grpc.Wire
import PoseidonServer.Http3.Control
import PoseidonServer.Http3.Grammar
import PoseidonServer.Http3.Response
import PoseidonServer.Middleware.AcceptEncoding
import PoseidonServer.Middleware.Decompress
import PoseidonServer.Middleware.Exposition
import PoseidonServer.Middleware.Gzip
import PoseidonServer.Middleware.Inject
import PoseidonServer.Middleware.Metrics
import PoseidonServer.Middleware.RateLimit
import PoseidonServer.Middleware.RealIP
import PoseidonServer.Server.Adapter
import PoseidonServer.Server.Buffered
import PoseidonServer.Server.HTTPRequest
import PoseidonServer.Server.Listen
import PoseidonServer.Server.Push
import PoseidonServer.Server.Teardown.Ledger
import PoseidonServer.Server.Teardown.Runs
import PoseidonServer.Server.Upgrade
