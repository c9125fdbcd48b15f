import EsbProxy.Dispatch

/-!
# Networks of proxies

A network consists of proxies, client nodes, the frames in flight and the Redis set of proxies.
Every *site* is one process: a proxy that is restarted is another site, with another guid. A site
is started once, and may stop at any time.

A frame on the channel of a guid is in flight until one receiver has handled it, or it is lost:
the transport may delay, reorder and lose frames, but neither duplicates nor forges them. An
event on a published channel is a broadcast, and may be handled by any number of proxies, any
number of times. A client node sends any command to any proxy, with its own guid as source;
only the answer of one proxy to the registry request of another is not a command of a node.

The discovery loop runs over the members that Redis returned (`scan`), one step for each member,
so that everything else may happen between two of them. A proxy's hello is answered by the
process that listens at the address at that moment.

## Main definitions

* `Roster`, `Net`: the sites, and the state of a network.
* `Net.Action`, `Net.Step`, `Net.Run`: its steps and runs.
* `Net.exec`: the steps as a function.

## Main results

* `Net.Run.forall_proxy`: what every input of a proxy keeps holds of all proxies of a network.
* `Net.Run.assume_guarantee`: an invariant of the proxies and one of the frames in flight that
  support each other.
* `Net.Run.identity`: no proxy ever changes its guid or its address.
* `Net.step_of_exec`: executed actions are steps.
-/

namespace EsbProxy

open Foundation

/-- The proxies of a network, with pairwise distinct guids. -/
structure Roster (ι : Type*) where
  config : ι → Config
  guid_injective : Function.Injective fun a => (config a).guid

/-- The address at which the responder of a proxy listens. -/
def Config.responderAddress (config : Config) : Bytes := address config.host config.responderPort

/-- The member of `ZSET:PROXIES` that names a proxy. -/
def Config.member (config : Config) : Bytes := (Proxy.init config).member

/-- The life of a site. -/
inductive Status
  | notStarted
  | running
  | stopped
  deriving DecidableEq

/-- The state of a network. -/
structure Net (ι : Type*) where
  status : ι → Status
  proxy : ι → Proxy
  /-- The frames in flight on the channels of guids. -/
  wire : List Frame
  /-- The events published on channels so far. -/
  aired : List Frame
  /-- The members of `ZSET:PROXIES`. -/
  redis : List Bytes
  /-- The members that the discovery loop of each proxy has not visited yet. -/
  scan : ι → List Bytes

/-- What Redis makes of a command. -/
def RedisCommand.apply (members : List Bytes) : RedisCommand → List Bytes
  | zadd _ member => if member ∈ members then members else members ++ [member]
  | zrem member => members.filter (· ≠ member)

/-- The calls of the main loop that do not receive anything. -/
def Input.Housekeeping : Input → Prop
  | pingedRedis _ | killInactive _ _ | remoteRegistryHealthChecks _ | localRegistryHealthChecks _
  | requestRegistryExchange _ | cleanUpResponsesMap _ | rehash _ => True
  | command _ _ _ _ | request _ _ _ | visitMember _ _ _ => False

instance : DecidablePred Input.Housekeeping := fun i =>
  match i with
  | .pingedRedis _ | .killInactive _ _ | .remoteRegistryHealthChecks _
  | .localRegistryHealthChecks _ | .requestRegistryExchange _ | .cleanUpResponsesMap _
  | .rehash _ => .isTrue trivial
  | .command _ _ _ _ | .request _ _ _ | .visitMember _ _ _ => .isFalse id

namespace Net

variable {ι : Type*}

/-- What can happen in a network. -/
inductive Action (ι : Type*)
  /-- A proxy starts. -/
  | start (a : ι)
  /-- A proxy stops. -/
  | stop (a : ι)
  /-- A client node sends a command to a proxy. -/
  | send (node : Bytes) (a : ι) (cmdReq : Command)
  /-- The transport loses a frame. -/
  | lose (f : Frame)
  /-- A proxy handles a frame on its channel. -/
  | deliver (a : ι) (f : Frame) (now : ℤ) (rand : ℕ) (key : Bytes)
  /-- A proxy handles a published event. -/
  | overhear (a : ι) (f : Frame) (now : ℤ) (rand : ℕ) (key : Bytes)
  /-- A proxy looks after its tables. -/
  | housekeep (a : ι) (i : Input)
  /-- A request of a client node reaches the responder of a proxy. -/
  | greet (a : ι) (now : ℤ) (connects : Bool) (cmdReq : Command)
  /-- A proxy adds itself to `ZSET:PROXIES` and reads the members. -/
  | pingRedis (a : ι) (now : ℤ) (members : List Bytes)
  /-- The discovery loop of a proxy visits the next member, and the responder of `answered`, or
  nobody, answers its hello. -/
  | visit (a : ι) (now : ℤ) (answered : Option ι) (responderConnects publisherConnects : Bool)

/-- What saying hello to a member brings: the answer of the site that listens at the address. -/
def peerOutcome (net : Net ι) (a : ι) (now : ℤ) (member : Bytes) (answered : Option ι)
    (responderConnects publisherConnects : Bool) : PeerOutcome where
  responderConnects := responderConnects
  reply := answered.bind fun b =>
    match (split (cStr member) hash)[0]? with
    | some guid2 =>
      match (net.proxy b).responderCallback now true ((net.proxy a).proxyHelloRequest guid2) with
      | .ok (_, cmdResp) => some cmdResp
      | .error _ => none
    | none => none
  publisherConnects := publisherConnects

/-- A site answers at the address of a member. -/
def Answers (net : Net ι) (member : Bytes) (b : ι) : Prop :=
  net.status b = .running ∧
    (split (cStr member) hash)[1]? =
      some (address (net.proxy b).host (net.proxy b).responderPort)

instance (net : Net ι) (member : Bytes) (b : ι) : Decidable (net.Answers member b) :=
  inferInstanceAs (Decidable (_ ∧ _))

variable [DecidableEq ι]

/-- The network after a proxy executed an input: its frames are put in flight or aired, its
commands reach Redis. -/
def commit (a : ι) (s' : Proxy) (out : Output) (net : Net ι) : Net ι :=
  { net with
    proxy := Function.update net.proxy a s'
    wire := net.wire ++ out.frames.filter fun f => decide (f.command.cmd ≠ .publish)
    aired := net.aired ++ out.frames.filter fun f => decide (f.command.cmd = .publish)
    redis := out.redis.foldl RedisCommand.apply net.redis }

@[simp] theorem commit_proxy (net : Net ι) (a b : ι) (s' : Proxy) (out : Output) :
    (net.commit a s' out).proxy b = if b = a then s' else net.proxy b :=
  Function.update_apply ..

variable (roster : Roster ι)

/-- The network in which no proxy has started. -/
def init : Net ι where
  status := fun _ => .notStarted
  proxy := fun a => Proxy.init (roster.config a)
  wire := []
  aired := []
  redis := []
  scan := fun _ => []

/-- A client node may send the command: it has a guid of its own, and names it as source. -/
structure FromNode (node : Bytes) (cmdReq : Command) : Prop where
  length_node : node.length = GUID_SIZE
  ne_guid : ∀ b, node ≠ (roster.config b).guid
  source : cmdReq.sourceProxyGuid = node
  notAnswer : cmdReq.cmd ≠ .registryExchangeResponse

/-- The address of a site is free. -/
def AddressFree (net : Net ι) (a : ι) : Prop :=
  ∀ b, net.status b = .running →
    (roster.config b).responderAddress ≠ (roster.config a).responderAddress

/-- One step of a network, with the frames that a proxy publishes in it. -/
inductive Step : Net ι → Action ι → List Frame → Net ι → Prop
  | start {net : Net ι} {a : ι} (fresh : net.status a = .notStarted)
      (free : AddressFree roster net a) :
      Step net (.start a) [] { net with status := Function.update net.status a .running }
  | stop {net : Net ι} {a : ι} (running : net.status a = .running) :
      Step net (.stop a) [] { net with status := Function.update net.status a .stopped }
  | send {net : Net ι} {node : Bytes} {a : ι} {cmdReq : Command}
      (client : FromNode roster node cmdReq) :
      Step net (.send node a cmdReq) []
        { net with wire := net.wire ++ [⟨(roster.config a).guid, cmdReq⟩] }
  | lose {net : Net ι} {f : Frame} (inFlight : f ∈ net.wire) :
      Step net (.lose f) [] { net with wire := net.wire.erase f }
  | deliver {net : Net ι} {a : ι} {f : Frame} {now : ℤ} {rand : ℕ} {key : Bytes} {s' : Proxy}
      {out : Output} (running : net.status a = .running) (inFlight : f ∈ net.wire)
      (addressed : f.topic = (roster.config a).guid)
      (handled : (net.proxy a).Step (.command now rand f.command key) out s') :
      Step net (.deliver a f now rand key) out.frames
        (commit a s' out { net with wire := net.wire.erase f })
  | overhear {net : Net ι} {a : ι} {f : Frame} {now : ℤ} {rand : ℕ} {key : Bytes} {s' : Proxy}
      {out : Output} (running : net.status a = .running) (onAir : f ∈ net.aired)
      (handled : (net.proxy a).Step (.command now rand f.command key) out s') :
      Step net (.overhear a f now rand key) out.frames (commit a s' out net)
  | housekeep {net : Net ι} {a : ι} {i : Input} {s' : Proxy} {out : Output}
      (running : net.status a = .running) (housekeeping : i.Housekeeping)
      (handled : (net.proxy a).Step i out s') :
      Step net (.housekeep a i) out.frames (commit a s' out net)
  | greet {net : Net ι} {a : ι} {now : ℤ} {connects : Bool} {cmdReq : Command} {s' : Proxy}
      {out : Output} (running : net.status a = .running)
      (handled : (net.proxy a).Step (.request now connects cmdReq) out s') :
      Step net (.greet a now connects cmdReq) out.frames (commit a s' out net)
  | pingRedis {net : Net ι} {a : ι} {now : ℤ} {members : List Bytes}
      (running : net.status a = .running) (connected : (net.proxy a).redisConnected = true)
      (due : 2 ≤ now - (net.proxy a).lastRedisPing)
      (returned : ∀ m ∈ members,
        m ∈ RedisCommand.apply net.redis (.zadd (int32 now) (net.proxy a).member)) :
      Step net (.pingRedis a now members) []
        { net with
          redis := RedisCommand.apply net.redis (.zadd (int32 now) (net.proxy a).member)
          scan := Function.update net.scan a members }
  | visit {net : Net ι} {a : ι} {now : ℤ} {answered : Option ι}
      {responderConnects publisherConnects : Bool} {member : Bytes} {rest : List Bytes}
      {s' : Proxy} {out : Output} (running : net.status a = .running)
      (next : net.scan a = member :: rest) (listens : ∀ b ∈ answered, net.Answers member b)
      (handled : (net.proxy a).Step (.visitMember now member
        (net.peerOutcome a now member answered responderConnects publisherConnects)) out s') :
      Step net (.visit a now answered responderConnects publisherConnects) out.frames
        (commit a s' out { net with scan := Function.update net.scan a rest })

/-- A run of a network in which no proxy had started: its steps, and the state reached. -/
abbrev Run (h : List (Transition (Net ι) (Action ι) (List Frame))) (net : Net ι) : Prop :=
  Trace (Step roster) (init roster) h net

/-! ### What holds of all proxies -/

section Proxies

variable {roster} {net net' : Net ι} {act : Action ι} {frames : List Frame}
  {h : List (Transition (Net ι) (Action ι) (List Frame))}

/-- A step of a network changes no proxy, or one proxy executes an input. -/
theorem Step.proxy_cases (hstep : Step roster net act frames net') :
    net'.proxy = net.proxy ∨ ∃ a i s' out, (net.proxy a).Step i out s' ∧
      net'.proxy = Function.update net.proxy a s' := by
  cases hstep with
  | start => exact .inl rfl
  | stop => exact .inl rfl
  | send => exact .inl rfl
  | lose => exact .inl rfl
  | pingRedis => exact .inl rfl
  | deliver _ _ _ handled => exact .inr ⟨_, _, _, _, handled, rfl⟩
  | overhear _ _ handled => exact .inr ⟨_, _, _, _, handled, rfl⟩
  | housekeep _ _ handled => exact .inr ⟨_, _, _, _, handled, rfl⟩
  | greet _ handled => exact .inr ⟨_, _, _, _, handled, rfl⟩
  | visit _ _ _ handled => exact .inr ⟨_, _, _, _, handled, rfl⟩

/-- What holds of all proxies and is kept by every input holds of them after a step. -/
theorem Step.forall_proxy {I : ι → Proxy → Prop}
    (keep : ∀ a s i out s', Proxy.Step s i out s' → I a s → I a s')
    (hstep : Step roster net act frames net') (hI : ∀ a, I a (net.proxy a)) (a : ι) :
    I a (net'.proxy a) := by
  obtain heq | ⟨b, i, s', out, hexec, heq⟩ := hstep.proxy_cases
  · rw [heq]
    exact hI a
  · rw [heq, Function.update_apply]
    split_ifs with hab
    · subst hab
      exact keep a _ i out s' hexec (hI a)
    · exact hI a

/-- **Invariants of proxies hold in networks.** What holds of a new proxy, and is kept by every
input, holds of all proxies in every reachable state of a network. -/
theorem Run.forall_proxy {I : ι → Proxy → Prop}
    (new : ∀ a, I a (Proxy.init (roster.config a)))
    (keep : ∀ a s i out s', Proxy.Step s i out s' → I a s → I a s') (run : Run roster h net)
    (a : ι) : I a (net.proxy a) :=
  Trace.invariant (I := fun net : Net ι => ∀ a, I a (net.proxy a)) new
    (fun _ _ _ _ hstep hI => hstep.forall_proxy keep hI) run a

/-- **Identity of the proxies.** No proxy of a network ever changes its guid or its address. -/
theorem Run.identity (run : Run roster h net) (a : ι) :
    (Proxy.init (roster.config a)).SameIdentity (net.proxy a) := by
  refine Run.forall_proxy (I := fun a s => (Proxy.init (roster.config a)).SameIdentity s)
    (fun a => ⟨rfl, rfl, rfl, rfl, rfl⟩) (fun a s i out s' hstep hs => ?_) run a
  obtain ⟨hguid, hhost, hresponder, hpublisher, hredis⟩ := hstep.sameIdentity.1
  exact ⟨hguid.trans hs.guid, hhost.trans hs.host, hresponder.trans hs.responderPort,
    hpublisher.trans hs.publisherPort, hredis.trans hs.redisConnected⟩

theorem Run.guid_eq (run : Run roster h net) (a : ι) :
    (net.proxy a).guid = (roster.config a).guid :=
  (Run.identity run a).guid

/-- **Assume and guarantee.** Let `W` hold of the frames that nodes send, and `I` of new proxies. If
every input of a proxy with `I`, when the command that it may bring satisfies `W` or is an event,
keeps `I` and publishes frames with `W`, besides events, then `W` holds of all frames in flight and
`I` of all proxies, in every reachable state. Both may speak about the run so far. -/
theorem Run.assume_guarantee
    {W : List (Transition (Net ι) (Action ι) (List Frame)) → Frame → Prop}
    {I : List (Transition (Net ι) (Action ι) (List Frame)) → ι → Proxy → Prop}
    (monoW : ∀ h t f, W h f → W (h ++ [t]) f) (monoI : ∀ h t a s, I h a s → I (h ++ [t]) a s)
    (new : ∀ a, I [] a (Proxy.init (roster.config a)))
    (sent : ∀ h node a cmdReq, FromNode roster node cmdReq →
      W h ⟨(roster.config a).guid, cmdReq⟩)
    (input : ∀ h t, Run roster h t.pre → ∀ a i out s', (t.pre.proxy a).Step i out s' →
      I h a (t.pre.proxy a) →
      (∀ now rand cmdReq key, i = .command now rand cmdReq key →
        W h ⟨(roster.config a).guid, cmdReq⟩ ∨ cmdReq.cmd = .publish) →
      I (h ++ [t]) a s' ∧ ∀ f ∈ out.frames, f.command.cmd ≠ .publish → W (h ++ [t]) f)
    (run : Run roster h net) : (∀ f ∈ net.wire, W h f) ∧ ∀ a, I h a (net.proxy a) := by
  suffices hall : (∀ f ∈ net.wire, W h f) ∧ (∀ f ∈ net.aired, f.command.cmd = .publish) ∧
      ∀ a, I h a (net.proxy a) from ⟨hall.1, hall.2.2⟩
  induction run with
  | nil => exact ⟨by simp [Net.init], by simp [Net.init], new⟩
  | @snoc h net act frames net' run last ih =>
    obtain ⟨hwire, haired, hproxy⟩ := ih
    obtain ⟨t, ht⟩ : ∃ t : Transition (Net ι) (Action ι) (List Frame),
        t = ⟨net, act, frames, net'⟩ := ⟨_, rfl⟩
    have hpre : t.pre = net := by rw [ht]
    have hwire' : ∀ f ∈ net.wire, W (h ++ [t]) f := fun f hf => monoW h t f (hwire f hf)
    have hproxy' : ∀ a, I (h ++ [t]) a (net.proxy a) := fun a => monoI h t a _ (hproxy a)
    -- one proxy executes an input, in a network with the same proxies and no new frames
    have committed : ∀ (base : Net ι) (a : ι) (i : Input) (s' : Proxy) (out : Output),
        base.proxy = net.proxy → (∀ f ∈ base.wire, f ∈ net.wire) → base.aired = net.aired →
        (net.proxy a).Step i out s' →
        (∀ now rand cmdReq key, i = .command now rand cmdReq key →
          W h ⟨(roster.config a).guid, cmdReq⟩ ∨ cmdReq.cmd = .publish) →
        (∀ f ∈ (base.commit a s' out).wire, W (h ++ [t]) f) ∧
          (∀ f ∈ (base.commit a s' out).aired, f.command.cmd = .publish) ∧
          ∀ b, I (h ++ [t]) b ((base.commit a s' out).proxy b) := by
      intro base a i s' out hbase hsub hair hstep hbrings
      obtain ⟨hI, hW⟩ := input h t (by rw [hpre]; exact run) a i out s' (by rw [hpre]; exact hstep)
        (by rw [hpre]; exact hproxy a) hbrings
      refine ⟨fun f hf => ?_, fun f hf => ?_, fun b => ?_⟩
      · rcases List.mem_append.mp hf with hf | hf
        · exact hwire' f (hsub f hf)
        · obtain ⟨hmem, hcmd⟩ := List.mem_filter.mp hf
          exact hW f hmem (by simpa using hcmd)
      · rcases List.mem_append.mp hf with hf | hf
        · exact haired f (hair ▸ hf)
        · simpa using (List.mem_filter.mp hf).2
      · rw [commit_proxy]
        split_ifs with hab
        · exact hab ▸ hI
        · exact hbase ▸ hproxy' b
    rw [← ht]
    cases last with
    | start => exact ⟨hwire', haired, hproxy'⟩
    | stop => exact ⟨hwire', haired, hproxy'⟩
    | @send node a cmdReq client =>
      refine ⟨fun f hf => ?_, haired, hproxy'⟩
      rcases List.mem_append.mp hf with hf | hf
      · exact hwire' f hf
      · exact List.mem_singleton.mp hf ▸ sent _ node a cmdReq client
    | lose => exact ⟨fun f hf => hwire' f (List.mem_of_mem_erase hf), haired, hproxy'⟩
    | @deliver a f _ _ _ _ _ _ inFlight addressed handled =>
      refine committed _ a _ _ _ rfl (fun f hf => List.mem_of_mem_erase hf) rfl handled ?_
      rintro _ _ _ _ ⟨⟩
      exact .inl (addressed ▸ hwire f inFlight)
    | @overhear a f _ _ _ _ _ _ onAir handled =>
      refine committed _ a _ _ _ rfl (fun f hf => hf) rfl handled ?_
      rintro _ _ _ _ ⟨⟩
      exact .inr (haired f onAir)
    | housekeep _ housekeeping handled =>
      refine committed _ _ _ _ _ rfl (fun f hf => hf) rfl handled ?_
      rintro _ _ _ _ rfl
      exact housekeeping.elim
    | greet _ handled => exact committed _ _ _ _ _ rfl (fun f hf => hf) rfl handled (by simp)
    | pingRedis => exact ⟨hwire', haired, hproxy'⟩
    | visit _ _ _ handled => exact committed _ _ _ _ _ rfl (fun f hf => hf) rfl handled (by simp)

end Proxies

/-! ### Steps as a function -/

section Exec

variable [Fintype ι]

instance (node : Bytes) (cmdReq : Command) : Decidable (FromNode roster node cmdReq) :=
  decidable_of_iff (node.length = GUID_SIZE ∧ (∀ b, node ≠ (roster.config b).guid) ∧
      cmdReq.sourceProxyGuid = node ∧ cmdReq.cmd ≠ .registryExchangeResponse)
    ⟨fun ⟨h₁, h₂, h₃, h₄⟩ => ⟨h₁, h₂, h₃, h₄⟩, fun ⟨h₁, h₂, h₃, h₄⟩ => ⟨h₁, h₂, h₃, h₄⟩⟩

instance (net : Net ι) (a : ι) : Decidable (AddressFree roster net a) :=
  inferInstanceAs (Decidable (∀ _ : ι, _ → _))

/-- A proxy executes an input in a network. -/
def execInput (a : ι) (i : Input) (net : Net ι) : Option (Net ι × List Frame) :=
  match (net.proxy a).exec i with
  | .ok (s', out) => some (net.commit a s' out, out.frames)
  | .error _ => none

/-- Execute an action; `none` when it cannot happen. -/
def exec (net : Net ι) : Action ι → Option (Net ι × List Frame)
  | .start a =>
    if net.status a = .notStarted ∧ AddressFree roster net a then
      some ({ net with status := Function.update net.status a .running }, [])
    else none
  | .stop a =>
    if net.status a = .running then
      some ({ net with status := Function.update net.status a .stopped }, [])
    else none
  | .send node a cmdReq =>
    if FromNode roster node cmdReq then
      some ({ net with wire := net.wire ++ [⟨(roster.config a).guid, cmdReq⟩] }, [])
    else none
  | .lose f => if f ∈ net.wire then some ({ net with wire := net.wire.erase f }, []) else none
  | .deliver a f now rand key =>
    if net.status a = .running ∧ f ∈ net.wire ∧ f.topic = (roster.config a).guid then
      execInput a (.command now rand f.command key) { net with wire := net.wire.erase f }
    else none
  | .overhear a f now rand key =>
    if net.status a = .running ∧ f ∈ net.aired then
      execInput a (.command now rand f.command key) net
    else none
  | .housekeep a i =>
    if net.status a = .running ∧ i.Housekeeping then execInput a i net else none
  | .greet a now connects cmdReq =>
    if net.status a = .running then execInput a (.request now connects cmdReq) net else none
  | .pingRedis a now members =>
    let redis := RedisCommand.apply net.redis (.zadd (int32 now) (net.proxy a).member)
    if net.status a = .running ∧ (net.proxy a).redisConnected = true ∧
        2 ≤ now - (net.proxy a).lastRedisPing ∧ ∀ m ∈ members, m ∈ redis then
      some ({ net with redis := redis, scan := Function.update net.scan a members }, [])
    else none
  | .visit a now answered responderConnects publisherConnects =>
    match net.scan a with
    | [] => none
    | member :: rest =>
      if net.status a = .running ∧ ∀ b ∈ answered, net.Answers member b then
        execInput a (.visitMember now member
          (net.peerOutcome a now member answered responderConnects publisherConnects))
          { net with scan := Function.update net.scan a rest }
      else none

variable {roster}

omit [Fintype ι] in
theorem execInput_eq_some {net net' : Net ι} {a : ι} {i : Input} {frames : List Frame}
    (hexec : execInput a i net = some (net', frames)) :
    ∃ s' out, (net.proxy a).Step i out s' ∧ net' = net.commit a s' out ∧ frames = out.frames := by
  rw [execInput] at hexec
  split at hexec
  · rename_i s' out hstep
    cases hexec
    exact ⟨s', out, hstep, rfl, rfl⟩
  · simp at hexec

/-- Executed actions are steps. -/
theorem step_of_exec {net net' : Net ι} {act : Action ι} {frames : List Frame}
    (hexec : exec roster net act = some (net', frames)) : Step roster net act frames net' := by
  cases act with
  | start a =>
    obtain ⟨⟨fresh, free⟩, heq⟩ := Option.ite_none_right_eq_some.mp hexec
    cases heq
    exact .start fresh free
  | stop a =>
    obtain ⟨running, heq⟩ := Option.ite_none_right_eq_some.mp hexec
    cases heq
    exact .stop running
  | send node a cmdReq =>
    obtain ⟨client, heq⟩ := Option.ite_none_right_eq_some.mp hexec
    cases heq
    exact .send client
  | lose f =>
    obtain ⟨inFlight, heq⟩ := Option.ite_none_right_eq_some.mp hexec
    cases heq
    exact .lose inFlight
  | deliver a f now rand key =>
    obtain ⟨⟨running, inFlight, addressed⟩, hinput⟩ := Option.ite_none_right_eq_some.mp hexec
    obtain ⟨s', out, hstep, rfl, rfl⟩ := execInput_eq_some hinput
    exact .deliver running inFlight addressed hstep
  | overhear a f now rand key =>
    obtain ⟨⟨running, onAir⟩, hinput⟩ := Option.ite_none_right_eq_some.mp hexec
    obtain ⟨s', out, hstep, rfl, rfl⟩ := execInput_eq_some hinput
    exact .overhear running onAir hstep
  | housekeep a i =>
    obtain ⟨⟨running, housekeeping⟩, hinput⟩ := Option.ite_none_right_eq_some.mp hexec
    obtain ⟨s', out, hstep, rfl, rfl⟩ := execInput_eq_some hinput
    exact .housekeep running housekeeping hstep
  | greet a now connects cmdReq =>
    obtain ⟨running, hinput⟩ := Option.ite_none_right_eq_some.mp hexec
    obtain ⟨s', out, hstep, rfl, rfl⟩ := execInput_eq_some hinput
    exact .greet running hstep
  | pingRedis a now members =>
    obtain ⟨⟨running, connected, due, returned⟩, heq⟩ := Option.ite_none_right_eq_some.mp hexec
    cases heq
    exact .pingRedis running connected due returned
  | visit a now answered responderConnects publisherConnects =>
    rw [exec] at hexec
    split at hexec
    · simp at hexec
    · rename_i member rest next
      obtain ⟨⟨running, listens⟩, hinput⟩ := Option.ite_none_right_eq_some.mp hexec
      obtain ⟨s', out, hstep, rfl, rfl⟩ := execInput_eq_some hinput
      exact .visit running next listens hstep

variable (roster) in
/-- Execute a list of actions from the network in which no proxy has started. -/
def execute (actions : List (Action ι)) :
    Option (List (Transition (Net ι) (Action ι) (List Frame)) × Net ι) :=
  Foundation.execute (exec roster) (init roster) actions

theorem run_execute {actions : List (Action ι)}
    {h : List (Transition (Net ι) (Action ι) (List Frame))} {net : Net ι}
    (hrun : execute roster actions = some (h, net)) : Run roster h net := by
  have sound : ∀ (net : Net ι) (act : Action ι) (frames : List Frame) (net' : Net ι),
      exec roster net act = some (net', frames) → Step roster net act frames net' :=
    fun _ _ _ _ hexec => step_of_exec hexec
  exact trace_execute sound hrun

end Exec

end Net

/-- Three proxies on the local host. The third one has the address of the second one. -/
def localhost : Roster Site where
  config
    | .first => Config.ofSite .first 7770 7780
    | .second => Config.ofSite .second 7771 7781
    | .third => Config.ofSite .third 7771 7781
  guid_injective := by decide

end EsbProxy
