import EsbProxy.RegistryLeases
import EsbProxy.PendingCalls
import EsbProxy.ReplyAddress
import EsbProxy.CallSafety
import EsbProxy.PubSub
import EsbProxy.Forwarding
import EsbProxy.Identity
import EsbProxy.Foundation.Wire
import EsbProxy.Protobuf
import EsbProxy.RequiredFields
import EsbProxy.Connections
import EsbProxy.ChannelFilters
import EsbProxy.UniqueConnections
import EsbProxy.PeerBooks
import EsbProxy.DistinctMethods
import EsbProxy.Foundation.Loop
import EsbProxy.HealthChecks
import EsbProxy.RoutedCalls
import EsbProxy.CleanUps
import EsbProxy.MainLoop
import EsbProxy.RedisMembers
import EsbProxy.BindLoops
import EsbProxy.Construction
import EsbProxy.RedisPings
import EsbProxy.IdentifierKeys
import EsbProxy.EmptyLists
import EsbProxy.Ages
import EsbProxy.BoundedWrites
import EsbProxy.RedisDiscovery
import EsbProxy.Throttles
import EsbProxy.Fairness
import EsbProxy.HeapRuns
