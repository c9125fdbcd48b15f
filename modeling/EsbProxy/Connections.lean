import EsbProxy.Dispatch

/-!
# Connections

The subscribers of a proxy are its connections to the publishers of nodes and of other proxies. A
connection is entered when a hello succeeds: the hello that a node says to the proxy, filed under
the address of the node, or the hello that the proxy says to a member of `ZSET:PROXIES`, filed
under the guid of the member. It is killed when another one to the same address replaces it, or
when it was silent for too long. Every `SUBSCRIBE` extends its filters.

`ConnectionEffect` says what an input does to the connections and to the books about them. It
leaves out when the connections were active last, and the order in which they are traversed.

## Main definitions

* `Link`, `Proxy.link`: a connection without the time at which it was active last.
* `Hello`, `Proxy.helloOf`: the hellos that succeed.
* `Proxy.killedBy`, `Proxy.survivor`: the connection that an input kills, and those it leaves.
* `ConnectionEffect`: what an input does to the connections.
* `Hello.Valid`: what is known of a hello that succeeds.
* `Makes`: a transition of a run made a connection.

## Main results

* `Proxy.Step.connectionEffect`.
* `Proxy.Run.exists_makes`, `Proxy.Run.link_of_makes`, `Makes.unique`: every connection was made by
  one transition of the run.
-/

namespace EsbProxy

open Foundation

/-- A connection, apart from the time at which it was active last. -/
structure Link where
  connectString : Bytes
  targetGuid : Bytes
  filters : List Bytes
  deriving DecidableEq

def Subscriber.link (sub : Subscriber) : Link where
  connectString := sub.connectString
  targetGuid := sub.targetGuid
  filters := sub.filters

/-- The filter of a channel: its name and a tab. -/
def channelFilter (channel : Bytes) : Bytes := (cStr channel ++ [tab, 0]).take (channel.length + 1)

/-- A connection with the filters of more channels. -/
def Link.extend (channels : List Bytes) (link : Link) : Link :=
  { link with filters := link.filters ++ channels.map channelFilter }

/-- Who said the hello that made a connection: the node at the other end, or the proxy itself to
another proxy. -/
inductive Maker
  | node
  | proxy
  deriving DecidableEq

/-- A hello that succeeds: the key under which the connection is filed, the address to which it
is, and the guid of the peer. -/
structure Hello where
  maker : Maker
  key : Bytes
  address : Bytes
  guid : Bytes
  deriving DecidableEq

/-- The channel that an input subscribes. -/
def Input.channel : Input → Option Bytes
  | command _ _ cmdReq _ => if cmdReq.cmd = .subscribe then some cmdReq.identifier else none
  | _ => none

namespace Proxy

/-- The connection under a key. -/
def link (s : Proxy) (key : Bytes) : Option Link := (s.subscribers.lookup key).map Subscriber.link

/-- The hello of an input, if it succeeds: the address of the node can be connected to, or the
member is another proxy without a connection that answers and can be connected to. -/
def helloOf (s : Proxy) : Input → Option Hello
  | .request _ connects cmdReq =>
    match split (cStr cmdReq.payload) hash with
    | guid :: connectionString :: _ =>
      if cmdReq.cmd = .nodeHello ∧ connects = true then
        some ⟨.node, connectionString, connectionString, guid⟩
      else none
    | _ => none
  | .visitMember _ proxy peer =>
    match split (cStr proxy) hash, peer.reply with
    | guid2 :: connectionString :: _, some cmdResp =>
      if guid2 ≠ s.guid ∧ guid2 ∉ s.subscribers ∧
          address s.host s.responderPort ≠ connectionString ∧ peer.responderConnects = true ∧
          peer.publisherConnects = true then
        some ⟨.proxy, guid2, (cStr cmdResp.payload).take 512, guid2⟩
      else none
    | _, _ => none
  | _ => none

/-- The key of the first connection to an address. -/
def duplicate (connectionString : Bytes) (s : Proxy) : Option Bytes :=
  s.subscribers.firstKey fun _ sub => decide (sub.connectString = connectionString)

/-- The key of a subscriber that was silent for too long. -/
def expired (now : ℤ) (key : Bytes) (s : Proxy) : Option Bytes :=
  match s.subscribers.lookup key with
  | some sub => if now - sub.lastActiveTime > maxInactiveSubscriber then some key else none
  | none => none

/-- The key of the connection that an input kills. -/
def killedBy (s : Proxy) (i : Input) : Option Bytes :=
  match s.helloOf i with
  | some hello => s.duplicate hello.address
  | none =>
    match i with
    | .killInactive now key => s.expired now key
    | _ => none

/-- The connection under a key that an input leaves. -/
def survivor (s : Proxy) (i : Input) (key : Bytes) : Option Link :=
  if s.killedBy i = some key then none else s.link key

/-- The connection that a hello makes: its filters are the guid of the proxy and the channels
subscribed so far. -/
def linkOf (s : Proxy) (hello : Hello) : Link where
  connectString := (cStr hello.address).take 512
  targetGuid := cStr hello.guid
  filters := topicOf s.guid GUID_SIZE :: s.subscribeChannels.entries.map fun e => e.2

end Proxy

/-- What an input does to the connections and to the books about them. -/
inductive ConnectionEffect (s : Proxy) (i : Input) (s' : Proxy) : Prop
  /-- No hello succeeds, and no channel is subscribed. A connection may be killed, and a guid
  without a connection may be dropped from the known proxies. -/
  | left (quiet : s.helloOf i = none) (silent : i.channel = none)
      (links : ∀ key, s'.link key = s.survivor i key)
      (channels : s'.subscribeChannels = s.subscribeChannels)
      (nodes : s'.nodesGuids = s.nodesGuids)
      (proxies : s'.proxiesGuids = s.proxiesGuids ∨
        ∃ guid2, s.link guid2 = none ∧ s'.proxiesGuids = s.proxiesGuids.erase guid2)
  /-- A channel is subscribed on all connections. -/
  | subscribed (channel : Bytes) (quiet : s.helloOf i = none)
      (subscribes : i.channel = some channel) (kills : s.killedBy i = none)
      (links : ∀ key, s'.link key = (s.link key).map (Link.extend [channel]))
      (channels : s'.subscribeChannels = s.subscribeChannels.insert channel channel)
      (nodes : s'.nodesGuids = s.nodesGuids) (proxies : s'.proxiesGuids = s.proxiesGuids)
  /-- A hello succeeds. Its connection is entered unless another one survives under its key. -/
  | entered (hello : Hello) (now : ℤ) (greets : s.helloOf i = some hello)
      (clock : i.clock = some now) (silent : i.channel = none)
      (subs : s'.subscribers =
        (s.enterSubscriber now hello.key hello.address hello.guid).subscribers)
      (links : ∀ key, s'.link key =
        if key = hello.key then some ((s.survivor i key).getD (s.linkOf hello))
        else s.survivor i key)
      (channels : s'.subscribeChannels = s.subscribeChannels)
      (nodes : s'.nodesGuids =
        if hello.maker = .node then s.nodesGuids.insert hello.guid hello.guid else s.nodesGuids)
      (proxies : s'.proxiesGuids =
        if hello.maker = .proxy then s.proxiesGuids.insert hello.guid hello.guid
        else s.proxiesGuids)

variable {config : Config} {h : List (Transition Proxy Input Output)} {s s' : Proxy} {i : Input}
  {out : Output}

/-! ### What one input does -/

namespace Proxy

theorem link_eq_none_iff {key : Bytes} : s.link key = none ↔ key ∉ s.subscribers := by
  rw [link, Option.map_eq_none_iff, AList.lookup_eq_none]

theorem link_congr (hsubs : s'.subscribers = s.subscribers) (key : Bytes) :
    s'.link key = s.link key := by
  rw [link, link, hsubs]

theorem lookup_markActive (now : ℤ) (key key' : Bytes) (s : Proxy) :
    (s.markActive now key).subscribers.lookup key' =
      if key' = key then
        (s.subscribers.lookup key').map fun sub => { sub with lastActiveTime := int32 now }
      else s.subscribers.lookup key' := by
  rw [markActive]
  cases hsub : s.subscribers.lookup key with
  | none =>
    split_ifs with hkey
    · rw [hkey, hsub, Option.map_none]
    · rfl
  | some sub =>
    rw [Dict.lookup_insert]
    split_ifs with hkey
    · rw [hkey, hsub, Option.map_some]
    · rfl

/-- A silent subscriber is killed. -/
theorem lookup_killInactive (now : ℤ) (key key' : Bytes) (s : Proxy) :
    (s.killInactive now key).subscribers.lookup key' =
      if s.expired now key = some key' then none else s.subscribers.lookup key' := by
  rw [killInactive, expired]
  cases hsub : s.subscribers.lookup key with
  | none => rw [if_neg (by simp)]
  | some sub =>
    by_cases hsilent : now - sub.lastActiveTime > maxInactiveSubscriber
    · simp only [if_pos hsilent, Dict.lookup_erase, Option.some.injEq, eq_comm]
    · simp only [if_neg hsilent]
      rw [if_neg (by simp)]

@[simp] theorem link_markActive (now : ℤ) (key key' : Bytes) (s : Proxy) :
    (s.markActive now key).link key' = s.link key' := by
  rw [link, lookup_markActive, link]
  split_ifs
  · rw [Option.map_map]
    rfl
  · rfl

@[simp] theorem link_subscribeReq (cmdReq : Command) (key : Bytes) (s : Proxy) :
    (s.subscribeReq cmdReq).link key = (s.link key).map (Link.extend [cmdReq.identifier]) := by
  simp only [link, subscribeReq, Dict.lookup_mapVal, Option.map_map]
  rfl

/-- The connections after one is entered in place of the first one to its address. -/
theorem link_enterSubscriber (now : ℤ) (hello : Hello) (key : Bytes) (s : Proxy) :
    (s.enterSubscriber now hello.key hello.address hello.guid).link key =
      if key = hello.key then
        some ((if s.duplicate hello.address = some key then none else s.link key).getD
          (s.linkOf hello))
      else if s.duplicate hello.address = some key then none else s.link key := by
  rw [link, enterSubscriber, Dict.lookup_emplace, killDuplicate]
  simp only [Dict.lookup_eraseFirst]
  change _ = if key = hello.key then some ((if s.duplicate hello.address = some key then none else
    (s.subscribers.lookup key).map Subscriber.link).getD (s.linkOf hello)) else _
  by_cases hkey : key = hello.key
  · subst hkey
    rw [if_pos rfl, if_pos rfl, duplicate]
    split_ifs
    · rfl
    · cases s.subscribers.lookup hello.key <;> rfl
  · rw [if_neg hkey, if_neg hkey, duplicate]
    split_ifs <;> rfl

/-- The connections after a silent subscriber was killed. -/
theorem link_killInactive (now : ℤ) (key key' : Bytes) (s : Proxy) :
    (s.killInactive now key).link key' =
      if s.expired now key = some key' then none else s.link key' := by
  rw [link, lookup_killInactive, link]
  split_ifs
  · rfl
  · rfl

/-! ### Inputs that leave the connections alone -/

/-- A command leaves the connections and the books about them alone, unless it subscribes a
channel. -/
theorem subscriberCallback_connections {now : ℤ} {rand : ℕ} {cmdReq : Command}
    {nodeGuid : Bytes} {frames : List Frame}
    (hcall : s.subscriberCallback now rand cmdReq nodeGuid = .ok (s', frames)) :
    s'.nodesGuids = s.nodesGuids ∧ s'.proxiesGuids = s.proxiesGuids ∧
      (cmdReq.cmd ≠ .subscribe ∧ s'.subscribers = s.subscribers ∧
          s'.subscribeChannels = s.subscribeChannels ∨
        cmdReq.cmd = .subscribe ∧ s' = s.subscribeReq cmdReq) := by
  rw [subscriberCallback] at hcall
  cases hcmd : cmdReq.cmd <;> simp only [hcmd] at hcall
  case response | errorResponse =>
    obtain ⟨responses, times, rfl⟩ := invokeResponse_eq (Except.ok.inj hcall)
    exact ⟨rfl, rfl, .inl ⟨by simp, rfl, rfl⟩⟩
  case invoke =>
    obtain ⟨registryL, registryR, -, -, hroute⟩ := invoke_cases now rand cmdReq s
    rcases hroute with ⟨entry, -, -, heq⟩ | ⟨-, ⟨entry, -, -, heq⟩ | ⟨-, heq⟩⟩
    all_goals
      rw [heq] at hcall
      cases hcall
      exact ⟨rfl, rfl, .inl ⟨by simp, rfl, rfl⟩⟩
  case registryExchangeResponse =>
    split at hcall
    · rename_i s'' hupd
      obtain ⟨methods, -, rfl⟩ := remoteRegistryUpdate_eq hupd
      cases hcall
      exact ⟨rfl, rfl, .inl ⟨by simp, rfl, rfl⟩⟩
    · simp at hcall
  case subscribe =>
    cases hcall
    exact ⟨rfl, rfl, .inr ⟨rfl, rfl⟩⟩
  all_goals
    cases hcall
    exact ⟨rfl, rfl, .inl ⟨by simp, rfl, rfl⟩⟩

end Proxy

/-- An input without a hello that kills nothing and leaves the connections and the books as they
are. -/
private theorem ConnectionEffect.of_same (quiet : s.helloOf i = none) (silent : i.channel = none)
    (kills : s.killedBy i = none) (links : ∀ key, s'.link key = s.link key)
    (channels : s'.subscribeChannels = s.subscribeChannels)
    (nodes : s'.nodesGuids = s.nodesGuids) (proxies : s'.proxiesGuids = s.proxiesGuids) :
    ConnectionEffect s i s' :=
  .left quiet silent (fun key => by rw [links, Proxy.survivor, kills, if_neg (by simp)]) channels
    nodes (.inl proxies)

/-- What a command does to the connections. -/
private theorem connectionEffect_command {now : ℤ} {rand : ℕ} {cmdReq : Command} {key : Bytes}
    (hstep : Proxy.Step s (.command now rand cmdReq key) out s') :
    ConnectionEffect s (.command now rand cmdReq key) s' := by
  obtain ⟨subs, frames, hactive, hcall, -⟩ := hstep.of_command
  have hmarked : ∀ k, Proxy.link { s with subscribers := subs } k = s.link k := fun k => by
    rw [← hactive, Proxy.link_markActive]
  obtain ⟨hnodes, hproxies, ⟨hcmd, hsubs, hchannels⟩ | ⟨hcmd, rfl⟩⟩ :=
    Proxy.subscriberCallback_connections hcall
  · exact .of_same rfl (if_neg hcmd) rfl
      (fun k => (Proxy.link_congr hsubs k).trans (hmarked k)) hchannels hnodes hproxies
  · refine .subscribed cmdReq.identifier rfl (if_pos hcmd) rfl (fun k => ?_) rfl rfl rfl
    rw [Proxy.link_subscribeReq, hmarked]

/-- An input whose hello succeeds. -/
private theorem ConnectionEffect.of_enterSubscriber {now : ℤ} {hello : Hello}
    (greets : s.helloOf i = some hello) (clock : i.clock = some now) (silent : i.channel = none)
    (subs : s'.subscribers =
      (s.enterSubscriber now hello.key hello.address hello.guid).subscribers)
    (channels : s'.subscribeChannels = s.subscribeChannels)
    (nodes : s'.nodesGuids =
      if hello.maker = .node then s.nodesGuids.insert hello.guid hello.guid else s.nodesGuids)
    (proxies : s'.proxiesGuids =
      if hello.maker = .proxy then s.proxiesGuids.insert hello.guid hello.guid
      else s.proxiesGuids) : ConnectionEffect s i s' := by
  have hkilled : s.killedBy i = s.duplicate hello.address := by
    simp only [Proxy.killedBy, greets]
  refine .entered hello now greets clock silent subs (fun key => ?_) channels nodes proxies
  rw [Proxy.link_congr subs, Proxy.link_enterSubscriber, Proxy.survivor, hkilled]

/-- What a request to the responder does to the connections. -/
private theorem connectionEffect_request {now : ℤ} {connects : Bool} {cmdReq : Command}
    (hstep : Proxy.Step s (.request now connects cmdReq) out s') :
    ConnectionEffect s (.request now connects cmdReq) s' := by
  obtain ⟨subs, nodes, cmdResp, hcall, -, -⟩ := hstep.of_request
  obtain ⟨hfails, rfl, -⟩ | ⟨hsucceeds, -, guid, connectionString, rest, hsplit, rfl⟩ :=
    Proxy.responderCallback_cases hcall
  · have hquiet : s'.helloOf (.request now connects cmdReq) = none := by
      rw [Proxy.helloOf]
      split
      · rw [if_neg hfails]
      · rfl
    exact .of_same hquiet rfl (by simp only [Proxy.killedBy, hquiet]) (fun _ => rfl) rfl rfl rfl
  · have hgreets : s.helloOf (.request now connects cmdReq) =
        some ⟨.node, connectionString, connectionString, guid⟩ := by
      rw [Proxy.helloOf, hsplit]
      exact if_pos hsucceeds
    exact .of_enterSubscriber hgreets rfl rfl rfl rfl rfl rfl

/-- **What visiting a member does.** No hello succeeds, and at most the guid of a member without a
connection is dropped; or a hello succeeds, and its connection is entered. -/
theorem Proxy.visitMember_helloOf {now : ℤ} {proxy : Bytes} {peer : PeerOutcome}
    {redis : List RedisCommand} (hvisit : s.visitMember now proxy peer = .ok (s', redis)) :
    s.helloOf (.visitMember now proxy peer) = none ∧
        (s' = s ∨ ∃ guid2, guid2 ∉ s.subscribers ∧
          s' = { s with proxiesGuids := s.proxiesGuids.erase guid2 }) ∨
      ∃ guid2 connectionString,
        s.helloOf (.visitMember now proxy peer) = some ⟨.proxy, guid2, connectionString, guid2⟩ ∧
        s' = { s.enterSubscriber now guid2 connectionString guid2 with
          proxiesGuids := s.proxiesGuids.insert guid2 guid2 } := by
  rw [visitMember] at hvisit
  split at hvisit
  · rename_i guid2 connectionString rest hsplit
    simp only [helloOf, hsplit]
    split_ifs at hvisit with hself hknown
    · cases hvisit
      left
      refine ⟨?_, .inl rfl⟩
      cases peer.reply <;> simp [hself]
    · cases hvisit
      left
      refine ⟨?_, .inl rfl⟩
      cases peer.reply <;> simp [hknown]
    have hs' : s' = (s.connectToAnotherProxy now guid2 connectionString peer).1 :=
      (congrArg Prod.fst (Except.ok.inj hvisit)).symm
    simp only [connectToAnotherProxy] at hs'
    by_cases howner : address s.host s.responderPort = connectionString
    · rw [if_pos howner] at hs'
      left
      refine ⟨?_, .inl hs'⟩
      cases peer.reply <;> simp [howner]
    rw [if_neg howner] at hs'
    by_cases hconnects : peer.responderConnects = true
    · rw [if_pos hconnects] at hs'
      cases hreply : peer.reply with
      | none =>
        rw [hreply] at hs'
        exact .inl ⟨rfl, .inl hs'⟩
      | some cmdResp =>
        simp only [hreply] at hs'
        by_cases hpublisher : peer.publisherConnects = true
        · rw [if_pos hpublisher] at hs'
          exact .inr ⟨guid2, (cStr cmdResp.payload).take 512,
            if_pos ⟨hself, hknown, howner, hconnects, hpublisher⟩, hs'⟩
        · rw [if_neg hpublisher] at hs'
          exact .inl ⟨if_neg fun hall => hpublisher hall.2.2.2.2, .inr ⟨guid2, hknown, hs'⟩⟩
    · rw [if_neg hconnects] at hs'
      left
      refine ⟨?_, .inl hs'⟩
      cases peer.reply <;> simp [hconnects]
  · simp at hvisit

/-- What visiting a member does to the connections. -/
private theorem connectionEffect_visitMember {now : ℤ} {proxy : Bytes} {peer : PeerOutcome}
    (hstep : Proxy.Step s (.visitMember now proxy peer) out s') :
    ConnectionEffect s (.visitMember now proxy peer) s' := by
  obtain ⟨subs, proxies, redis, hvisit, -, -⟩ := hstep.of_visitMember
  obtain ⟨hquiet, rfl | ⟨guid2, hmissing, rfl⟩⟩ | ⟨guid2, connectionString, hgreets, rfl⟩ :=
    Proxy.visitMember_helloOf hvisit
  · exact .of_same hquiet rfl (by simp only [Proxy.killedBy, hquiet]) (fun _ => rfl) rfl rfl rfl
  · have hkills : s.killedBy (.visitMember now proxy peer) = none := by
      simp only [Proxy.killedBy, hquiet]
    refine .left hquiet rfl (fun key => ?_) rfl rfl
      (.inr ⟨guid2, Proxy.link_eq_none_iff.mpr hmissing, rfl⟩)
    rw [Proxy.survivor, hkills, if_neg (by simp)]
    rfl
  · exact .of_enterSubscriber hgreets rfl rfl rfl rfl rfl rfl

/-- **What an input does to the connections.** -/
theorem Proxy.Step.connectionEffect (hstep : Proxy.Step s i out s') : ConnectionEffect s i s' := by
  cases i with
  | command now rand cmdReq key => exact connectionEffect_command hstep
  | request now connects cmdReq => exact connectionEffect_request hstep
  | visitMember now proxy peer => exact connectionEffect_visitMember hstep
  | killInactive now key =>
    obtain ⟨subs, hkill, hs', -⟩ := hstep.of_killInactive
    refine .left rfl rfl (fun key' => ?_) (by rw [hs']) (by rw [hs']) (.inl (by rw [hs']))
    rw [← hkill, Proxy.link_killInactive]
    rfl
  | cleanUpResponsesMap now =>
    have hsame := Proxy.sameButPending_cleanUpResponsesMap now s
    cases hstep
    rw [hsame]
    exact .of_same rfl rfl rfl (fun _ => rfl) rfl rfl rfl
  | requestRegistryExchange now =>
    obtain ⟨time, htime⟩ := s.requestRegistryExchange_eq now
    cases hstep
    rw [htime]
    exact .of_same rfl rfl rfl (fun _ => rfl) rfl rfl rfl
  | rehash orders =>
    cases hstep
    refine .of_same rfl rfl rfl (fun key => ?_) rfl rfl rfl
    rw [Proxy.link, Proxy.rehash, Dict.lookup_reorder, Proxy.link]
  | pingedRedis | remoteRegistryHealthChecks | localRegistryHealthChecks =>
    cases hstep
    exact .of_same rfl rfl rfl (fun _ => rfl) rfl rfl rfl

/-! ### One connection -/

theorem Proxy.link_of_survivor {key : Bytes} {link : Link}
    (hsurvives : s.survivor i key = some link) : s.link key = some link := by
  rw [survivor] at hsurvives
  split_ifs at hsurvives
  exact hsurvives


theorem Link.extend_nil (link : Link) : link.extend [] = link := by
  simp [Link.extend]

theorem Link.extend_append (link : Link) (channels channels' : List Bytes) :
    (link.extend channels).extend channels' = link.extend (channels ++ channels') := by
  simp [Link.extend]

/-- **A connection after an input.** One that survives gets the filter of the subscribed channel.
Under a key where none survives, there is the connection of a hello that succeeds. -/
theorem ConnectionEffect.link_eq (heffect : ConnectionEffect s i s') (key : Bytes) :
    s'.link key =
      match s.survivor i key with
      | some link => some (link.extend i.channel.toList)
      | none => (s.helloOf i).bind fun hello =>
          if key = hello.key then some (s.linkOf hello) else none := by
  cases heffect with
  | left quiet silent links =>
    rw [links, quiet, silent]
    cases s.survivor i key with
    | none => rfl
    | some link => exact congrArg some link.extend_nil.symm
  | subscribed channel quiet subscribes kills links =>
    have hsurvivor : s.survivor i key = s.link key := by
      rw [Proxy.survivor, kills, if_neg (by simp)]
    rw [links, hsurvivor, quiet, subscribes]
    cases s.link key <;> rfl
  | entered hello now greets clock silent subs links =>
    rw [links, greets, silent]
    cases s.survivor i key with
    | none => rfl
    | some link =>
      have hkept : link.extend (Option.toList none) = link := link.extend_nil
      simp only [Option.getD_some, hkept, ite_self]

/-- The subscribers after a hello that succeeds. -/
theorem ConnectionEffect.subs_of_helloOf (heffect : ConnectionEffect s i s') {hello : Hello}
    (hgreets : s.helloOf i = some hello) : ∃ now, i.clock = some now ∧
      s'.subscribers = (s.enterSubscriber now hello.key hello.address hello.guid).subscribers := by
  cases heffect with
  | left quiet => simp [quiet] at hgreets
  | subscribed channel quiet => simp [quiet] at hgreets
  | entered hello' now greets clock _ subs =>
    obtain rfl := Option.some.inj (greets.symm.trans hgreets)
    exact ⟨now, clock, subs⟩

/-! ### Hellos -/

section

variable {hello : Hello}

theorem zero_notMem_take {b : Bytes} (n : ℕ) (hb : 0 ∉ b) : 0 ∉ b.take n :=
  fun h => hb (List.mem_of_mem_take h)

/-- What is known of a hello that succeeds. -/
structure Hello.Valid (s : Proxy) (hello : Hello) : Prop where
  zero_notMem_address : 0 ∉ hello.address
  zero_notMem_guid : 0 ∉ hello.guid
  key_of_node : hello.maker = .node → hello.key = hello.address
  key_of_proxy : hello.maker = .proxy → hello.key = hello.guid
  fresh : hello.maker = .proxy → s.link hello.key = none

theorem Proxy.valid_of_helloOf (hgreets : s.helloOf i = some hello) : hello.Valid s := by
  cases i with
  | request now connects cmdReq =>
    rw [helloOf] at hgreets
    split at hgreets
    · rename_i guid connectionString rest hsplit
      split_ifs at hgreets
      cases hgreets
      exact
        { zero_notMem_address := zero_notMem_of_mem_split
            (hsplit ▸ List.mem_cons_of_mem _ List.mem_cons_self)
          zero_notMem_guid := zero_notMem_of_mem_split (hsplit ▸ List.mem_cons_self)
          key_of_node := fun _ => rfl
          key_of_proxy := fun hmaker => by cases hmaker
          fresh := fun hmaker => by cases hmaker }
    · cases hgreets
  | visitMember now proxy peer =>
    rw [helloOf] at hgreets
    split at hgreets
    · rename_i guid2 connectionString rest cmdResp hsplit hreply
      split_ifs at hgreets with hsucceeds
      cases hgreets
      exact
        { zero_notMem_address := zero_notMem_take 512 (zero_notMem_cStr _)
          zero_notMem_guid := zero_notMem_of_mem_split (hsplit ▸ List.mem_cons_self)
          key_of_node := fun hmaker => by cases hmaker
          key_of_proxy := fun _ => rfl
          fresh := fun _ => link_eq_none_iff.mpr hsucceeds.2.1 }
    · cases hgreets
  | _ => cases hgreets

/-- A new connection is to the address of its hello, when that has less than 512 bytes. -/
theorem Hello.Valid.connectString_eq (hvalid : hello.Valid s) (hshort : hello.address.length < 512)
    (s' : Proxy) : (s'.linkOf hello).connectString = hello.address := by
  rw [Proxy.linkOf, cStr_eq_self hvalid.zero_notMem_address,
    List.take_of_length_le (by omega)]

theorem Hello.Valid.targetGuid_eq (hvalid : hello.Valid s) (s' : Proxy) :
    (s'.linkOf hello).targetGuid = hello.guid := by
  rw [Proxy.linkOf, cStr_eq_self hvalid.zero_notMem_guid]

end

/-! ### Connections over a run -/

/-- A hello succeeds and enters its connection: none survives under its key. -/
def Proxy.Enters (s : Proxy) (i : Input) (hello : Hello) : Prop :=
  s.helloOf i = some hello ∧ s.survivor i hello.key = none

/-- A transition makes the connection under a key, and no later one kills it. -/
structure Makes (t : Transition Proxy Input Output) (hello : Hello) (key : Bytes)
    (later : List (Transition Proxy Input Output)) : Prop where
  enters : t.pre.Enters t.action hello
  key_eq : hello.key = key
  kept : ∀ t' ∈ later, t'.pre.killedBy t'.action ≠ some key

/-- An input with a hello subscribes no channel. -/
theorem Proxy.channel_eq_none_of_helloOf {hello : Hello} (hgreets : s.helloOf i = some hello) :
    i.channel = none := by
  cases i with
  | command => simp [helloOf] at hgreets
  | _ => rfl

/-- The channels that the transitions of a run subscribe. -/
def subscriptions (h : List (Transition Proxy Input Output)) : List Bytes :=
  h.filterMap fun t => t.action.channel

theorem subscriptions_concat (h : List (Transition Proxy Input Output))
    (t : Transition Proxy Input Output) :
    subscriptions (h ++ [t]) = subscriptions h ++ t.action.channel.toList := by
  rw [subscriptions, List.filterMap_append, ← subscriptions]
  cases hchannel : t.action.channel <;> simp [hchannel]

variable {h₁ h₂ h₁' h₂' : List (Transition Proxy Input Output)}
  {t t' : Transition Proxy Input Output} {hello hello' : Hello} {key : Bytes}

/-- The transition that makes a connection subscribes no channel. -/
theorem Makes.subscriptions_eq (hmakes : Makes t hello key h₂) :
    subscriptions (h₁ ++ t :: h₂) = subscriptions h₁ ++ subscriptions h₂ := by
  have hsilent := Proxy.channel_eq_none_of_helloOf hmakes.enters.1
  simp [subscriptions, hsilent]

/-- **What a connection has become.** It has the filters that it was made with, and those of all
channels that were subscribed later. -/
theorem Proxy.Run.link_of_makes : ∀ {h₂ : List (Transition Proxy Input Output)} {s : Proxy},
    Proxy.Run config (h₁ ++ t :: h₂) s → Makes t hello key h₂ →
      s.link key = some ((t.pre.linkOf hello).extend (subscriptions h₂)) := by
  intro h₂
  induction h₂ using List.reverseRecOn with
  | nil =>
    intro s hrun hmakes
    obtain ⟨-, hstep, rfl⟩ := Trace.last hrun
    have hlink := hstep.connectionEffect.link_eq key
    obtain ⟨⟨hgreets, hfree⟩, rfl, -⟩ := hmakes
    rw [hfree, hgreets] at hlink
    simpa [subscriptions, Link.extend_nil] using hlink
  | append_singleton h₂ t' ih =>
    intro s hrun hmakes
    rw [← List.cons_append, ← List.append_assoc] at hrun
    obtain ⟨hbefore, hstep, rfl⟩ := Trace.last hrun
    obtain ⟨henters, hkey, hkept⟩ := hmakes
    have hlink := ih hbefore ⟨henters, hkey, fun t'' ht'' => hkept t'' (by simp [ht''])⟩
    have hsurvives : t'.pre.survivor t'.action key =
        some ((t.pre.linkOf hello).extend (subscriptions h₂)) := by
      rw [Proxy.survivor, if_neg (hkept t' (by simp)), hlink]
    rw [hstep.connectionEffect.link_eq key, hsurvives]
    simp only [Link.extend_append, subscriptions_concat]

/-- Every connection was made by a transition of the run, and not killed since. -/
theorem Proxy.Run.exists_makes (hrun : Proxy.Run config h s) {link : Link}
    (hlink : s.link key = some link) :
    ∃ h₁ t hello h₂, h = h₁ ++ t :: h₂ ∧ Makes t hello key h₂ := by
  induction hrun generalizing link with
  | nil => simp [Proxy.link, Proxy.init] at hlink
  | @snoc h s i out s' hrun hstep ih =>
    rw [hstep.connectionEffect.link_eq key] at hlink
    cases hsurvivor : s.survivor i key with
    | none =>
      rw [hsurvivor] at hlink
      obtain ⟨hello, hgreets, hentered⟩ := Option.bind_eq_some_iff.mp hlink
      have hkey : key = hello.key := by
        by_contra hne
        simp [hne] at hentered
      exact ⟨h, ⟨s, i, out, s'⟩, hello, [], rfl, ⟨hgreets, hkey ▸ hsurvivor⟩, hkey.symm, by simp⟩
    | some link' =>
      have hkept : s.killedBy i ≠ some key := by
        intro hkilled
        rw [Proxy.survivor, if_pos hkilled] at hsurvivor
        cases hsurvivor
      rw [Proxy.survivor, if_neg hkept] at hsurvivor
      obtain ⟨h₁, t, hello, h₂, rfl, henters, hkey, hlater⟩ := ih hsurvivor
      refine ⟨h₁, t, hello, h₂ ++ [⟨s, i, out, s'⟩], by simp, henters, hkey, fun t' ht' => ?_⟩
      rcases List.mem_append.mp ht' with ht' | ht'
      · exact hlater t' ht'
      · exact List.mem_singleton.mp ht' ▸ hkept

/-- A connection that was made and not killed is not made again. -/
private theorem not_makes_of_makes (hrun : Proxy.Run config (h₁ ++ t :: (h₂ ++ t' :: h₂')) s)
    (hmakes : Makes t hello key (h₂ ++ t' :: h₂')) : ¬ Makes t' hello' key h₂' := by
  rintro ⟨⟨-, hfree⟩, rfl, -⟩
  rw [← List.cons_append, ← List.append_assoc] at hrun
  obtain ⟨hbefore, -, -⟩ := Trace.split_cons hrun
  have hlink := Proxy.Run.link_of_makes hbefore
    ⟨hmakes.enters, hmakes.key_eq, fun t'' ht'' => hmakes.kept t'' (by simp [ht''])⟩
  rw [Proxy.survivor, if_neg (hmakes.kept t' (by simp)), hlink] at hfree
  cases hfree

/-- A connection was made by one transition only. -/
theorem Makes.unique (hrun : Proxy.Run config h s) (hsplit : h = h₁ ++ t :: h₂)
    (hmakes : Makes t hello key h₂) (hsplit' : h = h₁' ++ t' :: h₂')
    (hmakes' : Makes t' hello' key h₂') : t = t' ∧ hello = hello' := by
  obtain ⟨between, rfl, htail⟩ | ⟨between, rfl, htail⟩ :=
    List.append_eq_append_iff.mp (hsplit.symm.trans hsplit')
  · cases between with
    | nil =>
      obtain ⟨rfl, rfl⟩ := List.cons.inj htail
      exact ⟨rfl, Option.some.inj (hmakes.enters.1.symm.trans hmakes'.enters.1)⟩
    | cons t₁ between =>
      obtain ⟨rfl, rfl⟩ := List.cons.inj htail
      exact absurd hmakes' (not_makes_of_makes (hsplit ▸ hrun) hmakes)
  · cases between with
    | nil =>
      obtain ⟨rfl, rfl⟩ := List.cons.inj htail
      exact ⟨rfl, Option.some.inj (hmakes.enters.1.symm.trans hmakes'.enters.1)⟩
    | cons t₁ between =>
      obtain ⟨rfl, rfl⟩ := List.cons.inj htail
      exact absurd hmakes (not_makes_of_makes (hsplit' ▸ hrun) hmakes')

end EsbProxy
