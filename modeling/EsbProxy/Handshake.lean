import EsbProxy.State

/-!
# Handshakes and discovery

A node or a proxy introduces itself to the responder of a proxy with a hello. To a node's hello
the proxy connects back; to a proxy's hello it answers with the address of its publisher. A
proxy finds the others through the Redis set `ZSET:PROXIES`, to which it adds itself as
`guid#tcp://host:port`, and says hello to every member that it is not connected to.

What the network does is a parameter: whether a connection succeeds, and which reply to a hello
arrives.

## Main definitions

* `Proxy.nodeHello`, `Proxy.proxyHello`, `Proxy.responderCallback`: the responder.
* `Proxy.proxyHelloRequest`, `Proxy.connectToAnotherProxy`: saying hello to another proxy.
* `Proxy.member`, `Proxy.visitMember`: the set of proxies, and one turn of the loop of
  `PingRedis` over it.

## Main results

* `Proxy.visitMember_cases`: a connection is entered under the guid of the member, or nothing is
  entered.
* `Proxy.responderCallback_eq`, `Proxy.visitMember_eq`: what the handshakes leave alone.
-/

namespace EsbProxy

open Foundation

/-- `tcp://host:port`. -/
def address (host : Bytes) (port : ℤ) : Bytes :=
  ascii "tcp://" ++ host ++ ascii ":" ++ decimal port

/-- What happens when a proxy says hello: whether the responder can be connected to, the reply
to the hello if one arrives in time, and whether the publisher named in it can be connected
to. -/
structure PeerOutcome where
  responderConnects : Bool
  reply : Option Command
  publisherConnects : Bool

/-- A command to Redis on the set `ZSET:PROXIES`. -/
inductive RedisCommand
  | zadd (score : ℤ) (member : Bytes)
  | zrem (member : Bytes)
  deriving DecidableEq

namespace Proxy

/-- Kill the first connection to an address, if there is one: the new one replaces it. -/
def killDuplicate (connectionString : Bytes) (s : Proxy) : Proxy :=
  { s with
    subscribers := s.subscribers.eraseFirst fun _ sub =>
      decide (sub.connectString = connectionString) }

/-- Enter a connection under a key, in place of the one to the same address. A connection that is
under the key already stays: `insert` does not overwrite. -/
def enterSubscriber (now : ℤ) (key connectionString targetGuid : Bytes) (s : Proxy) : Proxy :=
  { s with
    subscribers := (s.killDuplicate connectionString).subscribers.emplace key
      ((Subscriber.new connectionString targetGuid now).connect s.guid s.subscribeChannels now) }

/-! ### The responder -/

/-- `Proxy::NodeHello`: connect to the publisher of a node that said hello, and file the
connection under its address. -/
def nodeHello (now : ℤ) (connects : Bool) (cmdReq : Command) (s : Proxy) :
    Except Fault (Proxy × Command) :=
  let response := s.host ++ [hash] ++ decimal s.publisherPort
  match split (cStr cmdReq.payload) hash with
  | guid :: connectionString :: _ =>
    if connects then
      .ok ({ s.enterSubscriber now connectionString connectionString guid with
          nodesGuids := s.nodesGuids.insert guid guid },
        { cmd? := some .response, payload? := some response })
    else
      .ok (s,
        { cmd? := some .error
          payload? := some (ascii "ESB Proxy can not connect to your Node, check the firewall, " ++
            ascii "connectionString: `" ++ connectionString ++ ascii "`") })
  | _ => .error .indexPastEnd

/-- `Proxy::ProxyHello`. -/
def proxyHello (s : Proxy) : Command where
  cmd? := some .response
  payload? := some (address s.host s.publisherPort)

/-- The fields that `Proxy::ResponderCallback` sets in every reply. -/
def replied (s : Proxy) (cmdReq cmdResp : Command) : Command :=
  { cmdResp with
    guidFrom? := some s.guid
    guidTo? := some cmdReq.guidFrom
    sourceProxyGuid? := some s.guid }

/-- `Proxy::ResponderCallback`. -/
def responderCallback (now : ℤ) (connects : Bool) (cmdReq : Command) (s : Proxy) :
    Except Fault (Proxy × Command) :=
  match cmdReq.cmd with
  | .nodeHello =>
    match s.nodeHello now connects cmdReq with
    | .ok (s', cmdResp) => .ok (s', s.replied cmdReq cmdResp)
    | .error fault => .error fault
  | .proxyHello => .ok (s, s.replied cmdReq s.proxyHello)
  | .error => .ok (s, s.replied cmdReq {})
  | _ =>
    .ok (s, s.replied cmdReq
      { cmd? := some .error, payload? := some (ascii "Responder unknown command") })

/-! ### Saying hello to another proxy -/

/-- The hello of `Requester::SendProxyHello`. -/
def proxyHelloRequest (s : Proxy) (targetGuid : Bytes) : Command where
  cmd? := some .proxyHello
  guidTo? := some targetGuid
  guidFrom? := some s.guid
  sourceProxyGuid? := some s.guid
  payload? := some s.guid

/-- `Proxy::ConnectToAnotherProxy`. -/
def connectToAnotherProxy (now : ℤ) (proxyGuid connectionString : Bytes) (peer : PeerOutcome)
    (s : Proxy) : Proxy × List RedisCommand :=
  let redisKey := proxyGuid ++ [hash] ++ connectionString
  if address s.host s.responderPort = connectionString then (s, [.zrem redisKey])
  else if peer.responderConnects then
    match peer.reply with
    | none => (s, [.zrem redisKey])
    | some cmdResp =>
      -- `SendProxyHello` copies the payload of the reply into a buffer of 512 bytes
      let connectionString := (cStr cmdResp.payload).take 512
      if peer.publisherConnects then
        ({ s.enterSubscriber now proxyGuid connectionString proxyGuid with
            proxiesGuids := s.proxiesGuids.insert proxyGuid proxyGuid }, [])
      else ({ s with proxiesGuids := s.proxiesGuids.erase proxyGuid }, [])
  else (s, [.zrem redisKey])

/-! ### Discovery through Redis -/

/-- The member that a proxy adds to `ZSET:PROXIES`. -/
def member (s : Proxy) : Bytes := s.guid ++ [hash] ++ address s.host s.responderPort

/-- One turn of the loop of `Proxy::PingRedis` over the members of `ZSET:PROXIES`. -/
def visitMember (now : ℤ) (proxy : Bytes) (peer : PeerOutcome) (s : Proxy) :
    Except Fault (Proxy × List RedisCommand) :=
  match split (cStr proxy) hash with
  | guid2 :: connectionString :: _ =>
    if guid2 = s.guid then .ok (s, [])
    else if guid2 ∈ s.subscribers then .ok (s, [])
    else .ok (s.connectToAnotherProxy now guid2 connectionString peer)
  | _ => .error .indexPastEnd

/-! ### What the handshakes leave alone -/

/-- **What a request does.** Nothing changes, and the hello of a node is refused; or a node says
hello whose address can be connected to: then the connection is entered under the address, and
the node becomes known. -/
theorem responderCallback_cases {now : ℤ} {connects : Bool} {cmdReq cmdResp : Command}
    {s s' : Proxy} (hcall : s.responderCallback now connects cmdReq = .ok (s', cmdResp)) :
    ¬ (cmdReq.cmd = .nodeHello ∧ connects = true) ∧ s' = s ∧
        (cmdReq.cmd = .nodeHello → cmdResp.cmd = .error) ∨
      (cmdReq.cmd = .nodeHello ∧ connects = true) ∧ cmdResp.cmd = .response ∧
        ∃ guid connectionString rest,
        split (cStr cmdReq.payload) hash = guid :: connectionString :: rest ∧
        s' = { s.enterSubscriber now connectionString connectionString guid with
          nodesGuids := s.nodesGuids.insert guid guid } := by
  rw [responderCallback] at hcall
  split at hcall
  · rename_i hcmd
    split at hcall
    · rename_i s'' cmdResp' hhello
      cases hcall
      simp only [nodeHello] at hhello
      split at hhello
      · rename_i guid connectionString rest hsplit
        split_ifs at hhello with hconnects
        · cases hhello
          exact .inr ⟨⟨hcmd, hconnects⟩, rfl, guid, connectionString, rest, hsplit, rfl⟩
        · cases hhello
          exact .inl ⟨fun hhello => hconnects hhello.2, rfl, fun _ => rfl⟩
      · simp at hhello
    · simp at hcall
  · rename_i hcmd
    cases hcall
    exact .inl ⟨by simp [hcmd], rfl, by simp [hcmd]⟩
  · rename_i hcmd
    cases hcall
    exact .inl ⟨by simp [hcmd], rfl, by simp [hcmd]⟩
  · rename_i hcmd _ _
    cases hcall
    exact .inl ⟨fun hhello => hcmd hhello.1, rfl, fun hhello => absurd hhello hcmd⟩

/-- The responder changes the connections and the known nodes only. -/
theorem responderCallback_eq {now : ℤ} {connects : Bool} {cmdReq cmdResp : Command}
    {s s' : Proxy} (hcall : s.responderCallback now connects cmdReq = .ok (s', cmdResp)) :
    ∃ subs nodes, s' = { s with subscribers := subs, nodesGuids := nodes } := by
  obtain ⟨-, rfl, -⟩ | ⟨-, -, guid, connectionString, rest, -, rfl⟩ :=
    responderCallback_cases hcall
  · exact ⟨s'.subscribers, s'.nodesGuids, rfl⟩
  · exact ⟨_, _, rfl⟩

/-- **What visiting a member does.** Nothing is entered, possibly after the guid was dropped from
the known proxies; or the member names another proxy without a connection, its responder
answered, and the connection to the publisher that the answer names is entered under the guid. -/
theorem visitMember_cases {now : ℤ} {proxy : Bytes} {peer : PeerOutcome} {s s' : Proxy}
    {redis : List RedisCommand} (hvisit : s.visitMember now proxy peer = .ok (s', redis)) :
    s' = s ∨ ∃ guid2 connectionString rest,
      split (cStr proxy) hash = guid2 :: connectionString :: rest ∧ guid2 ≠ s.guid ∧
      guid2 ∉ s.subscribers ∧ (s' = { s with proxiesGuids := s.proxiesGuids.erase guid2 } ∨
        ∃ cmdResp, address s.host s.responderPort ≠ connectionString ∧
          peer.responderConnects = true ∧ peer.reply = some cmdResp ∧
          s' = { s.enterSubscriber now guid2 ((cStr cmdResp.payload).take 512) guid2 with
            proxiesGuids := s.proxiesGuids.insert guid2 guid2 }) := by
  rw [visitMember] at hvisit
  split at hvisit
  · rename_i guid2 connectionString rest hsplit
    split_ifs at hvisit with hself hknown
    · cases hvisit
      exact .inl rfl
    · cases hvisit
      exact .inl rfl
    have hs' : s' = (s.connectToAnotherProxy now guid2 connectionString peer).1 :=
      (congrArg Prod.fst (Except.ok.inj hvisit)).symm
    simp only [connectToAnotherProxy] at hs'
    by_cases howner : address s.host s.responderPort = connectionString
    · rw [if_pos howner] at hs'
      exact .inl hs'
    rw [if_neg howner] at hs'
    by_cases hconnects : peer.responderConnects = true
    · rw [if_pos hconnects] at hs'
      cases hreply : peer.reply with
      | none =>
        rw [hreply] at hs'
        exact .inl hs'
      | some cmdResp =>
        simp only [hreply] at hs'
        refine .inr ⟨guid2, connectionString, rest, hsplit, hself, hknown, ?_⟩
        by_cases hpublisher : peer.publisherConnects = true
        · rw [if_pos hpublisher] at hs'
          exact .inr ⟨cmdResp, howner, hconnects, rfl, hs'⟩
        · rw [if_neg hpublisher] at hs'
          exact .inl hs'
    · rw [if_neg hconnects] at hs'
      exact .inl hs'
  · simp at hvisit

theorem visitMember_eq {now : ℤ} {proxy : Bytes} {peer : PeerOutcome} {s s' : Proxy}
    {redis : List RedisCommand} (hvisit : s.visitMember now proxy peer = .ok (s', redis)) :
    ∃ subs proxies, s' = { s with subscribers := subs, proxiesGuids := proxies } := by
  obtain rfl | ⟨guid2, _, _, -, -, -, rfl | ⟨cmdResp, -, -, -, rfl⟩⟩ := visitMember_cases hvisit
  · exact ⟨s'.subscribers, s'.proxiesGuids, rfl⟩
  · exact ⟨s.subscribers, _, rfl⟩
  · exact ⟨_, _, rfl⟩

end Proxy

end EsbProxy
