import EsbProxy.Invocation
import EsbProxy.Registry
import EsbProxy.Channels
import EsbProxy.Handshake
import EsbProxy.Foundation.Trace

/-!
# The main loop as a step relation

`Proxy::SubscriberCallback` dispatches a command that was received through the subscriber of a
peer. The main loop of a proxy interleaves it with the responder, the discovery loop and the
housekeeping functions; one such call is one `Input`, and `Proxy.exec` executes it. A run of a
proxy is a trace of executed inputs.

The clock is read once for each input. Hash maps may change their iteration order at any time
(`Input.rehash`), so no result about runs depends on the order.

## Main definitions

* `Proxy.subscriberCallback`.
* `Input`, `Output`, `Proxy.exec`, `Proxy.Step`.
-/

namespace EsbProxy

open Foundation

namespace Proxy

/-- The command with which an unknown command is refused. -/
def unknownCommand (s : Proxy) (cmdReq : Command) : Command where
  cmd? := some .error
  payload? := some (ascii "Subscriber get unknown command: " ++ decimal cmdReq.cmd.number ++
    ascii ", payload: " ++ cStr cmdReq.payload)
  guidFrom? := some s.guid
  guidTo? := some cmdReq.guidFrom
  sourceProxyGuid? := some s.guid

/-- `Proxy::SubscriberCallback`. -/
def subscriberCallback (now : ℤ) (rand : ℕ) (cmdReq : Command) (nodeGuid : Bytes) (s : Proxy) :
    Except Fault (Proxy × List Frame) :=
  match cmdReq.cmd with
  | .errorResponse | .response => .ok (s.invokeResponse cmdReq nodeGuid)
  | .pong => .ok (s, [])
  | .registerInvoke => .ok (s.registerInvoke now cmdReq)
  | .invoke => .ok (s.invoke now rand cmdReq)
  | .registryExchangeRequest => .ok (s, s.registryExchangeResponder cmdReq)
  | .error => .ok (s, [])
  | .registryExchangeResponse =>
    match s.remoteRegistryUpdate now cmdReq with
    | .ok s' => .ok (s', [])
    | .error fault => .error fault
  | .ping => .ok (s, s.pingRequest cmdReq)
  | .publish => .ok (s, s.publishReq cmdReq)
  | .subscribe => .ok (s.subscribeReq cmdReq, [])
  | .nodeHello | .proxyHello | .registerInvokeOk =>
    .ok (s, [publish nodeGuid (s.unknownCommand cmdReq)])

/-- `Subscriber::Poll` marks the subscriber active from which a command was received. -/
def markActive (now : ℤ) (key : Bytes) (s : Proxy) : Proxy :=
  match s.subscribers.lookup key with
  | some sub =>
    { s with subscribers := s.subscribers.insert key { sub with lastActiveTime := int32 now } }
  | none => s

/-- The silence in seconds after which a subscriber is killed (`MAX_INACTIVE_SUBSCRIBER`). -/
def maxInactiveSubscriber : ℤ := 30

/-- The main loop kills a subscriber whose queue is empty and that was silent for too long. -/
def killInactive (now : ℤ) (key : Bytes) (s : Proxy) : Proxy :=
  match s.subscribers.lookup key with
  | some sub =>
    if now - sub.lastActiveTime > maxInactiveSubscriber then
      { s with subscribers := s.subscribers.erase key }
    else s
  | none => s

end Proxy

/-- The orders in which the hash maps of a proxy are traversed from now on. -/
structure Orders where
  subscribers : List Bytes := []
  localInvokeMethods : List Bytes := []
  remoteInvokeMethods : List Bytes := []
  invokeResponses : List Bytes := []
  invokeResponsesCallTime : List Bytes := []

/-- Change the iteration order of the hash maps. -/
def Proxy.rehash (orders : Orders) (s : Proxy) : Proxy :=
  { s with
    subscribers := s.subscribers.reorder orders.subscribers
    localInvokeMethods := s.localInvokeMethods.reorder orders.localInvokeMethods
    remoteInvokeMethods := s.remoteInvokeMethods.reorder orders.remoteInvokeMethods
    invokeResponses := s.invokeResponses.reorder orders.invokeResponses
    invokeResponsesCallTime :=
      s.invokeResponsesCallTime.reorder orders.invokeResponsesCallTime }

/-- One call of the main loop. -/
inductive Input
  /-- A command was received through the subscriber filed under `key`. -/
  | command (now : ℤ) (rand : ℕ) (cmdReq : Command) (key : Bytes)
  /-- A request reached the responder. -/
  | request (now : ℤ) (connects : Bool) (cmdReq : Command)
  /-- The discovery loop visits a member of `ZSET:PROXIES`. -/
  | visitMember (now : ℤ) (proxy : Bytes) (peer : PeerOutcome)
  /-- The discovery loop is over. -/
  | pingedRedis (now : ℤ)
  | killInactive (now : ℤ) (key : Bytes)
  | remoteRegistryHealthChecks (now : ℤ)
  | localRegistryHealthChecks (now : ℤ)
  | requestRegistryExchange (now : ℤ)
  | cleanUpResponsesMap (now : ℤ)
  | rehash (orders : Orders)

/-- The clock value that an input reads. -/
def Input.clock : Input → Option ℤ
  | command now _ _ _ => some now
  | request now _ _ => some now
  | visitMember now _ _ => some now
  | pingedRedis now => some now
  | killInactive now _ => some now
  | remoteRegistryHealthChecks now => some now
  | localRegistryHealthChecks now => some now
  | requestRegistryExchange now => some now
  | cleanUpResponsesMap now => some now
  | rehash _ => none

/-- What an input makes a proxy send: published frames, the reply of the responder, and commands
to Redis. -/
structure Output where
  frames : List Frame := []
  reply : Option Command := none
  redis : List RedisCommand := []

/-- Execute one call of the main loop. -/
def Proxy.exec (s : Proxy) : Input → Except Fault (Proxy × Output)
  | .command now rand cmdReq key =>
    match (s.markActive now key).subscriberCallback now rand cmdReq key with
    | .ok (s', frames) => .ok (s', { frames := frames })
    | .error fault => .error fault
  | .request now connects cmdReq =>
    match s.responderCallback now connects cmdReq with
    | .ok (s', cmdResp) => .ok (s', { reply := some cmdResp })
    | .error fault => .error fault
  | .visitMember now proxy peer =>
    match s.visitMember now proxy peer with
    | .ok (s', redis) => .ok (s', { redis := redis })
    | .error fault => .error fault
  | .pingedRedis now => .ok ({ s with lastRedisPing := int32 now }, {})
  | .killInactive now key => .ok (s.killInactive now key, {})
  | .remoteRegistryHealthChecks now => .ok (s.remoteRegistryHealthChecks now, {})
  | .localRegistryHealthChecks now => .ok (s.localRegistryHealthChecks now, {})
  | .requestRegistryExchange now =>
    .ok ((s.requestRegistryExchange now).1, { frames := (s.requestRegistryExchange now).2 })
  | .cleanUpResponsesMap now => .ok (s.cleanUpResponsesMap now, {})
  | .rehash orders => .ok (s.rehash orders, {})

/-- A step of a proxy: an input that is executed without a fault. -/
def Proxy.Step (s : Proxy) (i : Input) (out : Output) (s' : Proxy) : Prop :=
  s.exec i = .ok (s', out)

/-- A run of a proxy from its construction: the executed inputs, and the state reached. -/
abbrev Proxy.Run (config : Config) (h : List (Transition Proxy Input Output)) (s : Proxy) :
    Prop :=
  Trace Proxy.Step (Proxy.init config) h s

/-- Execute a list of inputs on a new proxy: the transitions, and the state reached. -/
def Proxy.execute (config : Config) (inputs : List Input) :
    Option (List (Transition Proxy Input Output) × Proxy) :=
  Foundation.execute (fun s i => (s.exec i).toOption) (Proxy.init config) inputs

theorem Proxy.run_execute {config : Config} {inputs : List Input}
    {h : List (Transition Proxy Input Output)} {s : Proxy}
    (hrun : Proxy.execute config inputs = some (h, s)) : Proxy.Run config h s := by
  refine trace_execute (fun s i out s' hexec => ?_) hrun
  rw [Proxy.Step]
  cases hstep : s.exec i with
  | error fault => simp [hstep, Except.toOption] at hexec
  | ok result =>
    obtain rfl : result = (s', out) := by simpa [hstep, Except.toOption] using hexec
    rfl

/-! ### The inputs of a run -/

/-- The clock values of a run stay `margin` seconds below the largest `int`. -/
def ClocksBelow (margin : ℤ) (h : List (Transition Proxy Input Output)) : Prop :=
  ∀ t ∈ h, ∀ now, t.action.clock = some now → 0 ≤ now ∧ now + margin < 2 ^ 31

/-- The clock values that the inputs of a run read, oldest first. -/
def clocks (h : List (Transition Proxy Input Output)) : List ℤ :=
  h.filterMap fun t => t.action.clock

section

variable {config : Config} {inputs : List Input} {h : List (Transition Proxy Input Output)}
  {s : Proxy}

theorem mem_of_execute {i : Input} (hrun : Proxy.execute config inputs = some (h, s))
    (hi : i ∈ inputs) : ∃ t ∈ h, t.action = i := by
  rw [← map_action_execute hrun] at hi
  obtain ⟨t, ht, rfl⟩ := List.mem_map.mp hi
  exact ⟨t, ht, rfl⟩

theorem clocks_of_execute (hrun : Proxy.execute config inputs = some (h, s)) :
    clocks h = inputs.filterMap Input.clock := by
  rw [← map_action_execute hrun, List.filterMap_map]
  rfl

theorem clocksBelow_of_clocks {margin : ℤ}
    (hclocks : ∀ now ∈ clocks h, 0 ≤ now ∧ now + margin < 2 ^ 31) : ClocksBelow margin h :=
  fun t ht now hnow => hclocks now (List.mem_filterMap.mpr ⟨t, ht, hnow⟩)

end

/-! ### Executed inputs -/

/-- Receiving a command changes the record of its subscriber only. -/
theorem Proxy.markActive_eq (now : ℤ) (key : Bytes) (s : Proxy) :
    ∃ subs, s.markActive now key = { s with subscribers := subs } := by
  rw [markActive]
  split
  · exact ⟨_, rfl⟩
  · exact ⟨s.subscribers, rfl⟩

/-- An executed command, with the record of its subscriber brought up to date first. -/
theorem Proxy.Step.of_command {s s' : Proxy} {now : ℤ} {rand : ℕ} {cmdReq : Command}
    {key : Bytes} {out : Output}
    (hstep : Proxy.Step s (.command now rand cmdReq key) out s') :
    ∃ subs frames, s.markActive now key = { s with subscribers := subs } ∧
      Proxy.subscriberCallback now rand cmdReq key { s with subscribers := subs } =
        .ok (s', frames) ∧ out = { frames := frames } := by
  obtain ⟨subs, hsubs⟩ := s.markActive_eq now key
  rw [Proxy.Step, Proxy.exec, hsubs] at hstep
  split at hstep
  · rename_i s'' frames hcall
    obtain ⟨rfl, rfl⟩ : s'' = s' ∧ { frames := frames } = out := by simpa using hstep
    exact ⟨subs, frames, hsubs, hcall, rfl⟩
  · simp at hstep

/-- Killing a silent subscriber changes the subscribers only. -/
theorem Proxy.killInactive_eq (now : ℤ) (key : Bytes) (s : Proxy) :
    ∃ subs, s.killInactive now key = { s with subscribers := subs } := by
  rw [killInactive]
  split
  · split_ifs
    · exact ⟨_, rfl⟩
    · exact ⟨s.subscribers, rfl⟩
  · exact ⟨s.subscribers, rfl⟩

/-- An executed request: only the connections and the known nodes may change. -/
theorem Proxy.Step.of_request {s s' : Proxy} {now : ℤ} {connects : Bool} {cmdReq : Command}
    {out : Output} (hstep : Proxy.Step s (.request now connects cmdReq) out s') :
    ∃ subs nodes cmdResp, s.responderCallback now connects cmdReq = .ok (s', cmdResp) ∧
      s' = { s with subscribers := subs, nodesGuids := nodes } ∧
      out = { reply := some cmdResp } := by
  rw [Proxy.Step, Proxy.exec] at hstep
  split at hstep
  · rename_i s'' cmdResp hcall
    cases hstep
    obtain ⟨subs, nodes, heq⟩ := Proxy.responderCallback_eq hcall
    exact ⟨subs, nodes, cmdResp, hcall, heq, rfl⟩
  · simp at hstep

/-- An executed visit of a member: only the connections and the known proxies may change. -/
theorem Proxy.Step.of_visitMember {s s' : Proxy} {now : ℤ} {proxy : Bytes} {peer : PeerOutcome}
    {out : Output} (hstep : Proxy.Step s (.visitMember now proxy peer) out s') :
    ∃ subs proxies redis, s.visitMember now proxy peer = .ok (s', redis) ∧
      s' = { s with subscribers := subs, proxiesGuids := proxies } ∧
      out = { redis := redis } := by
  rw [Proxy.Step, Proxy.exec] at hstep
  split at hstep
  · rename_i s'' redis hvisit
    cases hstep
    obtain ⟨subs, proxies, heq⟩ := Proxy.visitMember_eq hvisit
    exact ⟨subs, proxies, redis, hvisit, heq, rfl⟩
  · simp at hstep

/-- Killing silent subscribers is executed: only the connections may change. -/
theorem Proxy.Step.of_killInactive {s s' : Proxy} {now : ℤ} {key : Bytes} {out : Output}
    (hstep : Proxy.Step s (.killInactive now key) out s') :
    ∃ subs, s.killInactive now key = s' ∧ s' = { s with subscribers := subs } ∧ out = {} := by
  obtain ⟨subs, hsubs⟩ := s.killInactive_eq now key
  cases hstep
  exact ⟨subs, rfl, hsubs, rfl⟩

/-! ### What no input changes -/

/-- A command changes the connections and their channels, the registries and the pending maps
only. -/
theorem Proxy.subscriberCallback_eq {s s' : Proxy} {now : ℤ} {rand : ℕ} {cmdReq : Command}
    {nodeGuid : Bytes} {frames : List Frame}
    (hcall : s.subscriberCallback now rand cmdReq nodeGuid = .ok (s', frames)) :
    ∃ channels subs registryL registryR responses times,
      s' = { s with
        subscribeChannels := channels
        subscribers := subs
        localInvokeMethods := registryL
        remoteInvokeMethods := registryR
        invokeResponses := responses
        invokeResponsesCallTime := times } := by
  rw [Proxy.subscriberCallback] at hcall
  cases hcmd : cmdReq.cmd <;> simp only [hcmd] at hcall
  case response | errorResponse =>
    obtain ⟨responses, times, rfl⟩ := Proxy.invokeResponse_eq (Except.ok.inj hcall)
    exact ⟨_, _, _, _, _, _, rfl⟩
  case invoke =>
    obtain ⟨registryL, registryR, -, -, hroute⟩ := Proxy.invoke_cases now rand cmdReq s
    rcases hroute with ⟨entry, -, -, heq⟩ | ⟨-, ⟨entry, -, -, heq⟩ | ⟨-, heq⟩⟩
    all_goals
      rw [heq] at hcall
      cases hcall
      exact ⟨_, _, _, _, _, _, rfl⟩
  case registryExchangeResponse =>
    split at hcall
    · rename_i s'' hupd
      obtain ⟨methods, -, rfl⟩ := Proxy.remoteRegistryUpdate_eq hupd
      cases hcall
      exact ⟨_, _, _, _, _, _, rfl⟩
    · simp at hcall
  all_goals
    cases hcall
    exact ⟨_, _, _, _, _, _, rfl⟩

/-- Two states of one proxy: what the constructor fixed is the same. -/
structure Proxy.SameIdentity (s s' : Proxy) : Prop where
  guid : s'.guid = s.guid
  host : s'.host = s.host
  responderPort : s'.responderPort = s.responderPort
  publisherPort : s'.publisherPort = s.publisherPort
  redisConnected : s'.redisConnected = s.redisConnected

/-- No input changes what the constructor fixed, and only visits of members change the known
proxies. -/
theorem Proxy.Step.sameIdentity {s s' : Proxy} {i : Input} {out : Output}
    (hstep : Proxy.Step s i out s') :
    s.SameIdentity s' ∧
      ((∀ now proxy peer, i ≠ .visitMember now proxy peer) → s'.proxiesGuids = s.proxiesGuids) := by
  cases i with
  | command now rand cmdReq key =>
    obtain ⟨subs, frames, -, hcall, rfl⟩ := hstep.of_command
    obtain ⟨_, _, _, _, _, _, rfl⟩ := Proxy.subscriberCallback_eq hcall
    exact ⟨⟨rfl, rfl, rfl, rfl, rfl⟩, fun _ => rfl⟩
  | request now connects cmdReq =>
    obtain ⟨subs, nodes, cmdResp, -, rfl, rfl⟩ := hstep.of_request
    exact ⟨⟨rfl, rfl, rfl, rfl, rfl⟩, fun _ => rfl⟩
  | visitMember now proxy peer =>
    obtain ⟨subs, proxies, redis, -, rfl, rfl⟩ := hstep.of_visitMember
    exact ⟨⟨rfl, rfl, rfl, rfl, rfl⟩, fun hi => absurd rfl (hi now proxy peer)⟩
  | killInactive now key =>
    obtain ⟨subs, -, rfl, rfl⟩ := hstep.of_killInactive
    exact ⟨⟨rfl, rfl, rfl, rfl, rfl⟩, fun _ => rfl⟩
  | cleanUpResponsesMap now =>
    have hsame := Proxy.sameButPending_cleanUpResponsesMap now s
    cases hstep
    rw [hsame]
    exact ⟨⟨rfl, rfl, rfl, rfl, rfl⟩, fun _ => rfl⟩
  | requestRegistryExchange now =>
    obtain ⟨time, htime⟩ := s.requestRegistryExchange_eq now
    cases hstep
    rw [htime]
    exact ⟨⟨rfl, rfl, rfl, rfl, rfl⟩, fun _ => rfl⟩
  | pingedRedis now =>
    cases hstep
    exact ⟨⟨rfl, rfl, rfl, rfl, rfl⟩, fun _ => rfl⟩
  | remoteRegistryHealthChecks now =>
    cases hstep
    exact ⟨⟨rfl, rfl, rfl, rfl, rfl⟩, fun _ => rfl⟩
  | localRegistryHealthChecks now =>
    cases hstep
    exact ⟨⟨rfl, rfl, rfl, rfl, rfl⟩, fun _ => rfl⟩
  | rehash orders =>
    cases hstep
    exact ⟨⟨rfl, rfl, rfl, rfl, rfl⟩, fun _ => rfl⟩

/-- A proxy keeps its guid. -/
theorem Proxy.Run.guid_eq {config : Config} {h : List (Transition Proxy Input Output)}
    {s : Proxy} (hrun : Proxy.Run config h s) : s.guid = config.guid :=
  Trace.invariant (I := fun s => s.guid = config.guid) rfl
    (fun _ _ _ _ hstep hguid => hstep.sameIdentity.1.guid.trans hguid) hrun

end EsbProxy
