import EsbProxy.State

/-!
# Channels: `PublishReq`, `SubscribeReq`, and `PingRequest`

A published event goes out once, on a frame whose topic is the channel name and whose command
carries `recursion` 1; an event that arrives with a positive `recursion` is not published again.
A subscription extends the filters of all connections, and is replayed on later ones.

## Main definitions

* `Proxy.publishReq`, `Proxy.subscribeReq`, `Proxy.pingRequest`.

## Main results

* `Proxy.publishReq_of_pos`, `Proxy.publishReq_of_nonpos`: the two ways an event is handled.
-/

namespace EsbProxy

open Foundation

namespace Proxy

/-- The command with which an event is published on its channel. -/
def event (s : Proxy) (cmdReq : Command) : Command where
  cmd? := some .publish
  identifier? := some cmdReq.identifier
  sourceProxyGuid? := some s.guid
  payload? := some cmdReq.payload
  recursion? := some 1

/-- `Proxy::PublishReq`. -/
def publishReq (cmdReq : Command) (s : Proxy) : List Frame :=
  if cmdReq.recursion > 0 then []
  else [publishOn cmdReq.identifier cmdReq.identifier.length (s.event cmdReq)]

/-- `Proxy::SubscribeReq`. -/
def subscribeReq (cmdReq : Command) (s : Proxy) : Proxy :=
  { s with
    subscribeChannels := s.subscribeChannels.insert cmdReq.identifier cmdReq.identifier
    subscribers := s.subscribers.mapVal fun sub => sub.subscribe cmdReq.identifier }

/-- The command with which a ping is answered. -/
def pong (s : Proxy) (cmdReq : Command) : Command where
  cmd? := some .response
  payload? := some (ascii "\"Pong\"")
  guidTo? := some cmdReq.guidFrom
  sourceProxyGuid? := some s.guid

/-- `Proxy::PingRequest`. -/
def pingRequest (cmdReq : Command) (s : Proxy) : List Frame :=
  [publish cmdReq.sourceProxyGuid (s.pong cmdReq)]

/-- An event that a proxy has published already is not published again. -/
theorem publishReq_of_pos {cmdReq : Command} (h : 0 < cmdReq.recursion) (s : Proxy) :
    s.publishReq cmdReq = [] :=
  if_pos h

/-- An event that no proxy has published yet is published once, on its channel. -/
theorem publishReq_of_nonpos {cmdReq : Command} (h : cmdReq.recursion ≤ 0) (s : Proxy) :
    s.publishReq cmdReq = [⟨cmdReq.identifier, s.event cmdReq⟩] := by
  rw [publishReq, if_neg (by omega), publishOn, topicOf_eq_self rfl]

end Proxy

end EsbProxy
