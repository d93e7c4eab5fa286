import Cloudein.Lib.Run
import Cloudein.Lib.Simulation
import Cloudein.Lib.Mutex
import Cloudein.Lib.KeyedList
import Cloudein.Lib.PairList
import Cloudein.Lib.Lease
import Cloudein.Lib.CString
import Cloudein.Lib.Stoi
import Cloudein.Lib.Istream
import Cloudein.Lib.Earlier
import Cloudein.Lib.NodeList
import Cloudein.Lib.StreamLoop
import Cloudein.Lib.Varint
import Cloudein.Protobuf.Stream
import Cloudein.Protobuf.UnknownFields
import Cloudein.Protobuf.Utf8
import Cloudein.Protobuf.FastScan
import Cloudein.Protobuf.Message
import Cloudein.Protobuf.RoundTrip
import Cloudein.Protobuf.MessageSpec
import Cloudein.Session.Common
import Cloudein.Session.Client
import Cloudein.Session.Dispatch
import Cloudein.Session.Ledger
import Cloudein.Session.Threads
import Cloudein.Session.Life
import Cloudein.Session.Completion
import Cloudein.Session.Context
import Cloudein.Session.Menu
import Cloudein.Session.OperationServer
import Cloudein.Session.Messages
import Cloudein.Server.Peer
import Cloudein.Server.CallData
import Cloudein.Server.HandleRpcs
import Cloudein.Rest.TxInfo
import Cloudein.Rest.TxStore
import Cloudein.Rest.Checker
import Cloudein.Rest.FailedRequests
import Cloudein.Rest.Handlers
import Cloudein.Rest.LeaseTable
import Cloudein.Rest.Interleaving
import Cloudein.Rest.Configuration
import Cloudein.Rest.BoundedCopies
import Cloudein.Rest.Statements
import Cloudein.Rest.Atomicity
import Cloudein.Rest.Latch
import Cloudein.RouteGuide.RoundTrip
import Cloudein.RouteGuide.Malformed
import Cloudein.RouteGuide.Chat
import Cloudein.RouteGuide.RecordRoute
import Cloudein.RouteGuide.Client
import Cloudein.RouteGuide.Messages
import Cloudein.RouteGuide.Calls
import Cloudein.Messages
import Cloudein.Network
import Cloudein.EndToEnd
import Cloudein.Progress
import Cloudein.Programs
