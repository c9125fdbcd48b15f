import EsbProxy.Command
import EsbProxy.Foundation.Loop

/-!
# The state of a proxy

The fields of `class Proxy` that its handlers read and write, with the records they hold. Hash
maps and ordered maps are `Foundation.Dict`s; the vectors of pointers to registered methods are
lists of the methods, since each method is pointed to by one vector only. Sockets, threads and
the counters `invokeCalls`, `invokeErrors` and `registerInvoke`, which nothing reads, are left
out.

## Main definitions

* `InvokeMethod`, `Subscriber`, `Proxy`: the records of `proxy.h` and `subscriber.h`.
* `Config`, `Proxy.init`: what the constructor of a proxy sets up.
* `methodsOf`: the methods filed under an identifier.
-/

namespace EsbProxy

open Foundation

/-- `LocalInvokeMethod` and `RemoteInvokeMethod` of `proxy.h`. The two records differ in the name
of the owner's guid only: `nodeGuid` of a local method, `proxyGuid` of a remote one. -/
structure InvokeMethod where
  identifier : Bytes
  ownerGuid : Bytes
  methodGuid : Bytes
  lastCheckTime : ℤ
  deriving DecidableEq

/-- A method registered by a node that is connected to this proxy. -/
abbrev LocalInvokeMethod := InvokeMethod

/-- A method that another proxy has advertised. -/
abbrev RemoteInvokeMethod := InvokeMethod

/-- The node that serves a local method. -/
abbrev LocalInvokeMethod.nodeGuid (e : LocalInvokeMethod) : Bytes := e.ownerGuid

/-- The proxy that advertised a remote method. -/
abbrev RemoteInvokeMethod.proxyGuid (e : RemoteInvokeMethod) : Bytes := e.ownerGuid

/-- The registered methods, by identifier. -/
abbrev Registry := Dict Bytes (List InvokeMethod)

/-- The methods filed under an identifier. -/
def methodsOf (registry : Registry) (identifier : Bytes) : List InvokeMethod :=
  (registry.lookup identifier).getD []

/-- A connection to the publisher of a peer, with the filters installed on its socket. -/
structure Subscriber where
  connectString : Bytes
  targetGuid : Bytes
  lastActiveTime : ℤ
  filters : List Bytes
  deriving DecidableEq

/-- `Subscriber::Subscriber`. The connection string is copied with `strncpy`, at most 512
bytes. -/
def Subscriber.new (connectString targetGuid : Bytes) (now : ℤ) : Subscriber where
  connectString := (cStr connectString).take 512
  targetGuid := cStr targetGuid
  lastActiveTime := int32 now
  filters := []

/-- The filters that `Subscriber::Connect` installs once the socket is connected: the guid of
the proxy and the channels subscribed so far. -/
def Subscriber.connect (guid : Bytes) (subscribeChannels : Dict Bytes Bytes) (now : ℤ)
    (sub : Subscriber) : Subscriber where
  connectString := sub.connectString
  targetGuid := sub.targetGuid
  lastActiveTime := int32 now
  filters := topicOf guid GUID_SIZE :: subscribeChannels.entries.map fun e => e.2

/-- `Subscriber::Subscribe`: a filter for the channel name and the tab behind it. -/
def Subscriber.subscribe (channel : Bytes) (sub : Subscriber) : Subscriber where
  connectString := sub.connectString
  targetGuid := sub.targetGuid
  lastActiveTime := sub.lastActiveTime
  filters := sub.filters ++ [(cStr channel ++ [tab, 0]).take (channel.length + 1)]

/-- A proxy. -/
structure Proxy where
  guid : Bytes
  host : Bytes
  responderPort : ℤ
  publisherPort : ℤ
  redisConnected : Bool
  lastRedisPing : ℤ
  lastRegistryExchange : ℤ
  lastResponsesCleanUp : ℤ
  subscribeChannels : Dict Bytes Bytes
  nodesGuids : Dict Bytes Bytes
  proxiesGuids : Dict Bytes Bytes
  subscribers : Dict Bytes Subscriber
  localInvokeMethods : Registry
  remoteInvokeMethods : Registry
  invokeResponses : Dict Bytes Bytes
  invokeResponsesCallTime : Dict Bytes ℤ

/-- What the constructor of a proxy is given, generates or obtains: the generated guid, the host
name, the ports its sockets were bound to, whether Redis answered, and the time. A guid is
`GUID_SIZE` digits, and a host name a C string without `'#'`. -/
structure Config where
  guid : Bytes
  host : Bytes
  responderPort : ℤ
  publisherPort : ℤ
  redisConnected : Bool
  startTime : ℤ
  length_guid : guid.length = GUID_SIZE
  zero_notMem_guid : 0 ∉ guid
  tab_notMem_guid : tab ∉ guid
  hash_notMem_guid : hash ∉ guid
  zero_notMem_host : 0 ∉ host
  hash_notMem_host : hash ∉ host

/-- The sites on the local host. -/
inductive Site
  | first
  | second
  | third
  deriving DecidableEq

instance : Fintype Site where
  elems := {.first, .second, .third}
  complete site := by cases site <;> decide

/-- The capital letter that the guid of a site repeats. -/
def Site.letter : Site → UInt8
  | first => 65
  | second => 66
  | third => 67

/-- A proxy on the local host. -/
def Config.ofSite (site : Site) (responderPort publisherPort : ℤ) : Config where
  guid := List.replicate GUID_SIZE site.letter
  host := ascii "127.0.0.1"
  responderPort := responderPort
  publisherPort := publisherPort
  redisConnected := true
  startTime := 0
  length_guid := List.length_replicate
  zero_notMem_guid := by decide +revert
  tab_notMem_guid := by decide +revert
  hash_notMem_guid := by decide +revert
  zero_notMem_host := by decide
  hash_notMem_host := by decide

/-- The proxy that the constructor leaves behind. -/
def Proxy.init (config : Config) : Proxy where
  guid := config.guid
  host := config.host
  responderPort := config.responderPort
  publisherPort := config.publisherPort
  redisConnected := config.redisConnected
  lastRedisPing := 0
  lastRegistryExchange := 0
  lastResponsesCleanUp := int32 config.startTime
  subscribeChannels := ∅
  nodesGuids := ∅
  proxiesGuids := ∅
  subscribers := ∅
  localInvokeMethods := ∅
  remoteInvokeMethods := ∅
  invokeResponses := ∅
  invokeResponsesCallTime := ∅

/-- How a handler can end the process: an `at` that throws, an index past the end of a vector,
or a missing Redis context or reply. -/
inductive Fault
  | outOfRange
  | indexPastEnd
  | nullPointer
  deriving DecidableEq

@[simp] theorem methodsOf_emplace (registry : Registry) (i i' : Bytes) :
    methodsOf (registry.emplace i []) i' = methodsOf registry i' :=
  Dict.getD_lookup_emplace i i' [] registry

theorem methodsOf_insert (registry : Registry) (i i' : Bytes) (vec : List InvokeMethod) :
    methodsOf (registry.insert i vec) i' = if i' = i then vec else methodsOf registry i' := by
  rw [methodsOf, Dict.lookup_insert]
  split_ifs <;> rfl

@[simp] theorem methodsOf_reorder (registry : Registry) (order : List Bytes) (i : Bytes) :
    methodsOf (registry.reorder order) i = methodsOf registry i := by
  rw [methodsOf, Dict.lookup_reorder, methodsOf]

theorem methodsOf_sweep (stale : InvokeMethod → Bool) (registry : Registry) (i : Bytes) :
    methodsOf (registry.sweep stale) i = (methodsOf registry i).filter fun e => !stale e := by
  rw [methodsOf, Dict.lookup_sweep, methodsOf]
  cases registry.lookup i <;> rfl

end EsbProxy
