import CapyAmqp.Lib.Run
import CapyAmqp.Lib.Heap
import CapyAmqp.Common.Payload
import CapyAmqp.Deferred
import CapyAmqp.Lib.LockOrder
import CapyAmqp.Lib.SplitMap
import CapyAmqp.Cache.Basic
import CapyAmqp.Cache.Flat
import CapyAmqp.Cache.Sharding
import CapyAmqp.Cache.Table
import CapyAmqp.Lib.Prog
import CapyAmqp.Broker.State
import CapyAmqp.Broker.Fetch
import CapyAmqp.Broker.Listen
import CapyAmqp.Broker.Step
import CapyAmqp.Broker.FetchLife
import CapyAmqp.Broker.Frame
import CapyAmqp.Broker.FetchOutcome
import CapyAmqp.Broker.OneOutcome
import CapyAmqp.Broker.LateRegistration
import CapyAmqp.Broker.Ownership
import CapyAmqp.Broker.Directory
import CapyAmqp.Broker.ConnectionLoss
import CapyAmqp.Broker.RemovedListener
import CapyAmqp.Broker.ListenLife
import CapyAmqp.Broker.Delivery
import CapyAmqp.Broker.OneReply
import CapyAmqp.Broker.RoundTrip
import CapyAmqp.Broker.Traffic
import CapyAmqp.Broker.Completion
import CapyAmqp.Deferred.Gate
import CapyAmqp.Network.State
import CapyAmqp.Network.Correlation
import CapyAmqp.Broker.Independence
import CapyAmqp.Cache.Expiry
import CapyAmqp.Lib.Monitor
import CapyAmqp.Pool.Basic
import CapyAmqp.Pool.Holders
import CapyAmqp.Address.Basic
import CapyAmqp.Address.Match
import CapyAmqp.Address.Grammar
import CapyAmqp.Address.Port
import CapyAmqp.Address.Scheme
import CapyAmqp.Address.Userinfo
import CapyAmqp.Broker.ConnectionCache
import CapyAmqp.Deferred.Lifetime
import CapyAmqp.Broker.OneConnection
import CapyAmqp.Cache.Flush
import CapyAmqp.Broker.Bind
import CapyAmqp.Broker.Publish
import CapyAmqp.Broker.UniqueId
import CapyAmqp.Broker.ConnectionView
import CapyAmqp.Lib.BigEndian
import CapyAmqp.Lib.Ieee
import CapyAmqp.Lib.Reader
import CapyAmqp.Lib.SortedMap
import CapyAmqp.Msgpack.Value
import CapyAmqp.Msgpack.Diagnosis
import CapyAmqp.Msgpack.RoundTrip
import CapyAmqp.Msgpack.Shortest
import CapyAmqp.Broker.Requests
import CapyAmqp.Network.Wire
import CapyAmqp.Broker.Destructor
import CapyAmqp.Dotenv.Config
import CapyAmqp.Address.Diagnosis
import CapyAmqp.Cache.Curator
