import LumaBroker.Broker.Persistent
import LumaBroker.Broker.Fanout
import LumaBroker.Broker.InboundQoS2
import LumaBroker.Broker.Takeover
import LumaBroker.Router.Sequential
import LumaBroker.Router.SharedSequential
import LumaBroker.Api.Escalation
import LumaBroker.Broker.Routed
import LumaBroker.Broker.WillIsolation
import LumaBroker.Api.Process
import LumaBroker.Broker.Wire
import LumaBroker.Broker.Expiry
import LumaBroker.Broker.OutboundAck
import LumaBroker.Broker.ClusterQoS2
import LumaBroker.Protocol.PropertyOrder
import LumaBroker.Broker.Transport
import LumaBroker.Broker.Durable
import LumaBroker.Broker.RetainedStore
import LumaBroker.Broker.CleanStart
import LumaBroker.Router.RetainedRace
import LumaBroker.Broker.Stranded
import LumaBroker.Cluster.Reconcile
import LumaBroker.Lib.TokenBucket
import LumaBroker.Auth.RateLimiter
import LumaBroker.Auth.TokenCache
import LumaBroker.Session.ReceiveMaximum
import LumaBroker.Session.OfflineQueue
import LumaBroker.Broker.PacketIDs
import LumaBroker.Broker.TopicAlias
import LumaBroker.Broker.PublishAck
import LumaBroker.Broker.SweepRace
import LumaBroker.Broker.NoTrace
import LumaBroker.Router.Pruning
import LumaBroker.Router.Filters
import LumaBroker.Lib.History
import LumaBroker.Router.RetainedHistory
import LumaBroker.Api.Registration
import LumaBroker.Broker.Suback
import LumaBroker.Broker.Drain
import LumaBroker.Lib.Drift
import LumaBroker.Router.Gauge
import LumaBroker.Broker.Gauges
import LumaBroker.Protocol.ConnectCodec
import LumaBroker.Protocol.PropertyLength
import LumaBroker.Protocol.Reads
import LumaBroker.Protocol.Control
import LumaBroker.Protocol.SubscribeCodec
import LumaBroker.Lib.Total
import LumaBroker.Api.Hub
import LumaBroker.Lib.Channel
import LumaBroker.Broker.WriteLoop
import LumaBroker.Broker.PeerView
import LumaBroker.Config
import LumaBroker.Cluster.Membership
import LumaBroker.Lib.Feed
import LumaBroker.Broker.ClusterFeed
import LumaBroker.Api.Stream
import LumaBroker.Api.Lineage
import LumaBroker.Router.Each
import LumaBroker.Router.Steers
import LumaBroker.Broker.NilSession
import LumaBroker.Broker.Entitled
import LumaBroker.Broker.Lifecycle
import LumaBroker.Lib.Locks
import LumaBroker.Router.Locking
