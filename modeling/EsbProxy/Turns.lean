import EsbProxy.HealthChecks
import EsbProxy.MainLoop
import EsbProxy.RedisPings
import EsbProxy.RequiredFields

/-!
# Turns of the main loop

A turn of `Proxy::MainLoop` serves the responder, then every subscriber, and in every 25th turn
looks after the tables: `PingRedis`, the loops around the two health checks, which read the clock
again before each deletion, `RequestRegistryExchange` and `CleanUpResponsesMap`. Here the turn is
modelled as the code runs it, with a clock reading wherever it reads the clock. A turn is a trace of
the steps of a proxy, so what holds in every run of a proxy holds whenever the main loop comes to
the end of a turn.

## Main definitions

* `Surroundings`: what a turn meets.
* `MainLoop.Turn`, `MainLoop.Step`, `MainLoop.Run`: the turns of the main loop.
* `Proxy.Executes`: a trace with given inputs.

## Main results

* `Proxy.remoteChecks_eq`, `Proxy.localChecks_eq`: the loops around the health checks.
* `MainLoop.Turn.executes`: a turn is a trace of a proxy.
* `MainLoop.Run.executes`: so is any number of turns from the construction on.
-/

namespace EsbProxy

open Foundation

/-! ### Loops that read the clock in every turn -/

section

variable {check : ℤ → Proxy → Option Proxy → Prop} {clock : ℕ → ℤ} {registry : Proxy → Registry}
  {stale : ℤ → InvokeMethod → Bool} {s s' : Proxy} {n : ℕ}

/-- One turn of a loop around a health check. The state counts the calls; the `n`-th of them reads
the time `clock n`. -/
def Checks (check : ℤ → Proxy → Option Proxy → Prop) (clock : ℕ → ℤ) (c : ℕ × Proxy)
    (r : Option (ℕ × Proxy)) : Prop :=
  ∃ s', check (clock c.1) c.2 s' ∧ r = s'.map (c.1 + 1, ·)

/-- The clock does not go back, and does not leave the range of `int`. -/
def Steady (clock : ℕ → ℤ) : Prop := Monotone fun n => int32 (clock n)

theorem Steady.isStale (hsteady : Steady clock) (ttl : ℤ) {m n : ℕ} (hle : m ≤ n)
    {e : InvokeMethod} (hstale : Proxy.isStale ttl (clock m) e = true) :
    Proxy.isStale ttl (clock n) e = true := by
  rw [Proxy.isStale, decide_eq_true_iff] at hstale ⊢
  exact lt_of_lt_of_le hstale (hsteady hle)

/-- A loop around a check that deletes one stale method at a time leaves what its last call does not
take to be stale. -/
theorem Checks.lookup_eq
    (hstep : ∀ now s r, check now s r → Dict.SweepStep (stale now) (registry s) (r.map registry))
    (hgrows : ∀ m n e, m ≤ n → stale (clock m) e = true → stale (clock n) e = true)
    (hloop : Loop (Checks check clock) (0, s) (n, s')) (i : Bytes) :
    (registry s').lookup i =
      ((registry s).lookup i).map (List.filter fun e => !stale (clock n) e) := by
  refine (Dict.lookup_of_growingLoop hgrows
    (hloop.map (fun c => (c.1, registry c.2)) ?_)).2 i
  rintro ⟨m, s₁⟩ r ⟨s₂, hcheck, rfl⟩
  refine ⟨s₂.map registry, hstep _ _ _ hcheck, ?_⟩
  rw [Option.map_map, Option.map_map]
  rfl

/-- A loop around a check of one registry changes nothing else. -/
theorem Checks.frame (put : Proxy → Registry → Proxy) (registry : Proxy → Registry)
    (hframe : ∀ now s s', check now s (some s') → s' = put s (registry s'))
    (hput : ∀ s d d', put (put s d) d' = put s d') (hself : ∀ s, put s (registry s) = s)
    (hloop : Loop (Checks check clock) (0, s) (n, s')) : s' = put s (registry s') := by
  refine (hloop.invariant (I := fun c => c.2 = put s (registry c.2)) ?_ (hself s).symm).1
  rintro ⟨m, s₁⟩ ⟨m', s₂⟩ hs₁ ⟨r, hcheck, hr⟩
  obtain ⟨s₃, rfl, hs₃⟩ := Option.map_eq_some_iff.mp hr.symm
  obtain ⟨-, rfl⟩ := Prod.mk.inj hs₃
  have hs₂ := hframe _ _ _ hcheck
  rwa [hs₁, hput] at hs₂

/-- A loop around a check that makes a registry smaller ends. -/
theorem Checks.exists_loop
    (hstep : ∀ now s r, check now s r → Dict.SweepStep (stale now) (registry s) (r.map registry))
    (htotal : ∀ now s, ∃ r, check now s r) (clock : ℕ → ℤ) (s : Proxy) :
    ∃ n s', Loop (Checks check clock) (0, s) (n, s') := by
  have hsafe : Loop.Safe (Checks check clock) (0, s) := by
    rintro ⟨m, s₁⟩ -
    obtain ⟨r, hcheck⟩ := htotal (clock m) s₁
    exact ⟨_, r, hcheck, rfl⟩
  have hless : ∀ c c', Checks check clock c (some c') →
      (registry c'.2).size < (registry c.2).size := by
    rintro ⟨m, s₁⟩ ⟨m', s₂⟩ ⟨r, hcheck, hr⟩
    obtain ⟨s₃, rfl, hs₃⟩ := Option.map_eq_some_iff.mp hr.symm
    obtain ⟨-, rfl⟩ := Prod.mk.inj hs₃
    exact (hstep _ _ _ hcheck).size_lt
  obtain ⟨⟨n, s'⟩, hloop⟩ := Loop.exists_of_safe hsafe (Loop.terminates_of_lt _ hless _)
  exact ⟨n, s', hloop⟩

end

namespace Proxy

variable {clock : ℕ → ℤ} {s s' : Proxy} {n : ℕ}

theorem RemoteCheck.sweepStep (now : ℤ) (s : Proxy) (r : Option Proxy)
    (hcheck : RemoteCheck now s r) :
    Dict.SweepStep (isStale remoteTtl now) s.remoteInvokeMethods
      (r.map remoteInvokeMethods) := by
  obtain ⟨order, rfl⟩ := hcheck
  refine ⟨order, ?_⟩
  rw [remoteRegistryHealthCheck, Option.map_map]
  exact Option.map_id'.symm

theorem LocalCheck.sweepStep (now : ℤ) (s : Proxy) (r : Option Proxy)
    (hcheck : LocalCheck now s r) :
    Dict.SweepStep (isStale localTtl now) s.localInvokeMethods (r.map localInvokeMethods) := by
  obtain ⟨order, rfl⟩ := hcheck
  refine ⟨order, ?_⟩
  rw [localRegistryHealthCheck, Option.map_map]
  exact Option.map_id'.symm

/-- **The loop over the remote registry, with a clock that goes on.** It comes to a sweep at the
last reading, up to the order in which the registry is traversed. -/
theorem remoteChecks_eq (hsteady : Steady clock)
    (hloop : Loop (Checks RemoteCheck clock) (0, s) (n, s')) :
    s' = (s.remoteRegistryHealthChecks (clock n)).rehash
      { remoteInvokeMethods := s'.remoteInvokeMethods.keys } := by
  have hframe : s' = s.withRemote s'.remoteInvokeMethods :=
    Checks.frame withRemote remoteInvokeMethods
      (fun now s s' ⟨order, hcheck⟩ => by
        obtain ⟨methods, -, rfl⟩ := Option.map_eq_some_iff.mp hcheck
        rfl) (fun _ _ _ => rfl) (fun _ => rfl) hloop
  have hlook := Checks.lookup_eq RemoteCheck.sweepStep
    (fun _ _ _ hle hstale => hsteady.isStale remoteTtl hle hstale) hloop
  have hsame : Dict.reorder s'.remoteInvokeMethods.keys
      (s.remoteRegistryHealthChecks (clock n)).remoteInvokeMethods = s'.remoteInvokeMethods :=
    Dict.reorder_keys fun i => by rw [hlook, remoteRegistryHealthChecks, Dict.lookup_sweep]
  rw [rehash, hsame]
  exact hframe

/-- **The loop over the local registry, with a clock that goes on.** -/
theorem localChecks_eq (hsteady : Steady clock)
    (hloop : Loop (Checks LocalCheck clock) (0, s) (n, s')) :
    s' = (s.localRegistryHealthChecks (clock n)).rehash
      { localInvokeMethods := s'.localInvokeMethods.keys } := by
  have hframe : s' = s.withLocal s'.localInvokeMethods :=
    Checks.frame withLocal localInvokeMethods
      (fun now s s' ⟨order, hcheck⟩ => by
        obtain ⟨methods, -, rfl⟩ := Option.map_eq_some_iff.mp hcheck
        rfl) (fun _ _ _ => rfl) (fun _ => rfl) hloop
  have hlook := Checks.lookup_eq LocalCheck.sweepStep
    (fun _ _ _ hle hstale => hsteady.isStale localTtl hle hstale) hloop
  have hsame : Dict.reorder s'.localInvokeMethods.keys
      (s.localRegistryHealthChecks (clock n)).localInvokeMethods = s'.localInvokeMethods :=
    Dict.reorder_keys fun i => by rw [hlook, localRegistryHealthChecks, Dict.lookup_sweep]
  rw [rehash, hsame]
  exact hframe

end Proxy

/-! ### A turn -/

/-- A request that waits at the responder, what the clock answers when it is handled, and whether
the subscriber connects that a hello asks for. -/
structure ResponderRequest where
  msg : Bytes
  time : ℤ
  connects : Bool

/-- What a turn meets: the messages at the sockets, what Redis and the other proxies answer, what
the clock answers wherever it is read, and the orders in which the hash maps are traversed. -/
structure Surroundings where
  request : Option ResponderRequest
  pollOrders : Orders
  queue : Bytes → List Arrival
  now : ℤ
  pingTime : ℤ
  zadd : Option RedisReply
  zrevrange : Option RedisReply
  peers : ℕ → PeerOutcome
  remoteClock : ℕ → ℤ
  localClock : ℕ → ℤ
  exchangeOrders : Orders
  exchangeTime : ℤ
  cleanUpOrders : Orders
  cleanUpTime : ℤ

/-- What a turn does behind the subscribers, when it is due: the steps of the ping, and how often
the health checks return `true`. -/
structure Housekeeping where
  pinged : List (Transition Proxy Input Output)
  remoteChecks : ℕ
  localChecks : ℕ

/-- What a turn does: the bytes of the reply, the subscribers that it walks over, the visits, and
what is done behind them. -/
structure TurnLog where
  reply : Option Bytes
  subscribers : List Bytes
  visits : List Visit
  kept : Option Housekeeping

namespace Proxy

/-- `responder->Poll()`. -/
def pollResponder (codec : Codec) (o : Surroundings) (s : Proxy) :
    Except Fault (Proxy × Option Bytes) :=
  match o.request with
  | none => .ok (s, none)
  | some r => s.responderPoll codec r.time r.connects r.msg

/-- The polls of a turn: the responder, and all subscribers. -/
def pollAll (codec : Codec) (o : Surroundings) (s : Proxy) : Except Fault (Proxy × TurnLog) :=
  match s.pollResponder codec o with
  | .error fault => .error fault
  | .ok (s', reply) =>
    let s₁ := s'.rehash o.pollOrders
    match s₁.pollSubscribers codec o.queue o.now with
    | .error fault => .error fault
    | .ok (s'', visits) => .ok (s'', ⟨reply, s₁.subscribers.keys, visits, none⟩)

/-- `RequestRegistryExchange` and `CleanUpResponsesMap`. -/
def finishTurn (o : Surroundings) (s : Proxy) : Proxy :=
  (((s.rehash o.exchangeOrders).requestRegistryExchange o.exchangeTime).1.rehash
    o.cleanUpOrders).cleanUpResponsesMap o.cleanUpTime

end Proxy

/-- The main loop at the start of a turn: the counter `loop`, and the proxy. -/
structure MainLoop where
  loop : ℤ
  proxy : Proxy

namespace MainLoop

/-- The main loop of a new proxy. -/
def init (config : Config) : MainLoop where
  loop := 0
  proxy := Proxy.init config

/-- One turn of `Proxy::MainLoop`. -/
inductive Turn (codec : Codec) (o : Surroundings) (m : MainLoop) : TurnLog → Proxy → Prop
  | quiet {s : Proxy} {log : TurnLog} (polls : m.proxy.pollAll codec o = .ok (s, log))
      (notDue : m.loop.tmod 25 ≠ 0) : Turn codec o m log s
  | due {s s₁ s₂ s₃ : Proxy} {log : TurnLog} {kept : Housekeeping}
      (polls : m.proxy.pollAll codec o = .ok (s, log)) (due : m.loop.tmod 25 = 0)
      (pings : s.pingRedis o.pingTime o.zadd o.zrevrange o.peers = .ok (s₁, kept.pinged))
      (remote : Loop (Checks Proxy.RemoteCheck o.remoteClock) (0, s₁) (kept.remoteChecks, s₂))
      (own : Loop (Checks Proxy.LocalCheck o.localClock) (0, s₂) (kept.localChecks, s₃)) :
      Turn codec o m { log with kept := some kept } (s₃.finishTurn o)

/-- A turn, and `loop++`. The counter wraps. -/
def Step (codec : Codec) (m : MainLoop) (o : Surroundings) (log : TurnLog) (m' : MainLoop) :
    Prop :=
  Turn codec o m log m'.proxy ∧ m'.loop = int32 (m.loop + 1)

/-- The turns of the main loop of a new proxy. -/
abbrev Run (codec : Codec) (config : Config)
    (h : List (Transition MainLoop Surroundings TurnLog)) (m : MainLoop) : Prop :=
  Trace (Step codec) (init config) h m

end MainLoop

/-! ### A turn is a trace of a proxy -/

/-- The request that the responder handles in a turn. -/
def Surroundings.requested (codec : Codec) (o : Surroundings) : List Input :=
  match o.request with
  | none => []
  | some r =>
    if r.msg.length < 1 then [] else [.request r.time r.connects (codec.parse r.msg).1]

/-- What is executed behind the subscribers, in its order. -/
def Housekeeping.inputs (o : Surroundings) (kept : Housekeeping) : List Input :=
  kept.pinged.map Transition.action ++
    [.remoteRegistryHealthChecks (o.remoteClock kept.remoteChecks),
      .localRegistryHealthChecks (o.localClock kept.localChecks),
      .requestRegistryExchange o.exchangeTime, .cleanUpResponsesMap o.cleanUpTime]

/-- The steps of the visits. -/
def TurnLog.steps (log : TurnLog) : List (Transition Proxy Input Output) :=
  log.visits.flatMap Visit.steps

/-- The inputs that a turn executes, in their order. -/
def TurnLog.inputs (codec : Codec) (o : Surroundings) (log : TurnLog) : List Input :=
  o.requested codec ++ log.steps.map Transition.action ++
    (log.kept.map (Housekeeping.inputs o)).getD []

/-- The input changes the order of a hash map only. -/
def Input.isRehash : Input → Bool
  | rehash _ => true
  | _ => false

/-- The input sets the time stamp of a throttle. -/
def Input.stamps : Input → Bool
  | pingedRedis _ | requestRegistryExchange _ | cleanUpResponsesMap _ => true
  | _ => false

/-- The input is a step of a visit of a subscriber. -/
def Input.ofVisit : Input → Bool
  | command _ _ _ _ | killInactive _ _ => true
  | _ => false

theorem Input.isRehash_of_ofVisit {i : Input} (hi : i.ofVisit = true) : i.isRehash = false := by
  cases i with
  | rehash => simp [ofVisit] at hi
  | _ => rfl

theorem Input.stamps_of_ofVisit {i : Input} (hi : i.ofVisit = true) : i.stamps = false := by
  cases i with
  | command | killInactive => rfl
  | _ => simp [ofVisit] at hi

/-- The inputs of a trace, apart from changes of the order of hash maps. -/
def inputsOf (steps : List (Transition Proxy Input Output)) : List Input :=
  (steps.map Transition.action).filter fun i => !i.isRehash

/-- A trace with these inputs, and any changes of the order of hash maps between them. -/
def Proxy.Executes (s : Proxy) (inputs : List Input) (s' : Proxy) : Prop :=
  ∃ steps, Trace Proxy.Step s steps s' ∧ inputsOf steps = inputs

/-- The clocks of the loops around the health checks do not go back. -/
structure Surroundings.Steady (o : Surroundings) : Prop where
  remote : EsbProxy.Steady o.remoteClock
  own : EsbProxy.Steady o.localClock

section

variable {codec : Codec} {o : Surroundings} {s s' : Proxy} {reply : Option Bytes}
  {log : TurnLog} {steps steps' : List (Transition Proxy Input Output)}

theorem inputsOf_append (steps steps' : List (Transition Proxy Input Output)) :
    inputsOf (steps ++ steps') = inputsOf steps ++ inputsOf steps' := by
  rw [inputsOf, List.map_append, List.filter_append, inputsOf, inputsOf]

/-- A trace without changes of order. -/
theorem inputsOf_eq_map (hnone : ∀ t ∈ steps, t.action.isRehash = false) :
    inputsOf steps = steps.map Transition.action := by
  refine List.filter_eq_self.mpr fun i hi => ?_
  obtain ⟨t, ht, rfl⟩ := List.mem_map.mp hi
  rw [hnone t ht, Bool.not_false]

namespace Proxy

theorem Executes.append {s₁ : Proxy} {inputs inputs' : List Input}
    (hfirst : s.Executes inputs s₁) (hrest : s₁.Executes inputs' s') :
    s.Executes (inputs ++ inputs') s' := by
  obtain ⟨steps, htrace, rfl⟩ := hfirst
  obtain ⟨steps', htrace', rfl⟩ := hrest
  exact ⟨_, htrace.append htrace', inputsOf_append steps steps'⟩

theorem executes_nil (s : Proxy) : s.Executes [] s := ⟨[], .nil, rfl⟩

theorem executes_rehash (orders : Orders) (s : Proxy) : s.Executes [] (s.rehash orders) :=
  ⟨_, Trace.nil.snoc (show Step s (.rehash orders) {} (s.rehash orders) from rfl), rfl⟩

theorem Step.executes {i : Input} {out : Output} (hstep : Step s i out s')
    (hi : i.isRehash = false) : s.Executes [i] s' := by
  refine ⟨_, Trace.nil.snoc hstep, inputsOf_eq_map ?_⟩
  simpa using hi

theorem executes_of_trace (htrace : Trace Step s steps s')
    (hnone : ∀ t ∈ steps, t.action.isRehash = false) :
    s.Executes (steps.map Transition.action) s' :=
  ⟨steps, htrace, inputsOf_eq_map hnone⟩

end Proxy

/-- The responder handles the request that waits, if there is one. -/
theorem Proxy.pollResponder_cases (hpoll : s.pollResponder codec o = .ok (s', reply)) :
    o.requested codec = [] ∧ s' = s ∨
      ∃ i out, o.requested codec = [i] ∧ i.isRehash = false ∧ i.stamps = false ∧
        Step s i out s' := by
  unfold pollResponder at hpoll
  unfold Surroundings.requested
  cases hrequest : o.request with
  | none =>
    rw [hrequest] at hpoll
    obtain ⟨rfl, -⟩ := Prod.mk.inj (Except.ok.inj hpoll)
    exact .inl ⟨rfl, rfl⟩
  | some r =>
    rw [hrequest] at hpoll
    simp only [responderPoll] at hpoll ⊢
    split_ifs at hpoll ⊢
    · obtain ⟨rfl, -⟩ := Prod.mk.inj (Except.ok.inj hpoll)
      exact .inl ⟨rfl, rfl⟩
    · split at hpoll
      · rename_i s₁ cmdResp hcall
        obtain ⟨rfl, -⟩ := Prod.mk.inj (Except.ok.inj hpoll)
        refine .inr ⟨_, { reply := some cmdResp }, rfl, rfl, rfl, ?_⟩
        rw [Step, exec, hcall]
      · simp at hpoll

theorem Proxy.executes_pollResponder (hpoll : s.pollResponder codec o = .ok (s', reply)) :
    s.Executes (o.requested codec) s' := by
  rcases pollResponder_cases hpoll with ⟨hnone, rfl⟩ | ⟨i, out, hrequested, hi, -, hstep⟩
  · rw [hnone]
    exact executes_nil s'
  · rw [hrequested]
    exact hstep.executes hi

theorem Proxy.ofVisit_pollMessages {now : ℤ} {key : Bytes} : ∀ {r : ℕ} {queue : List Arrival}
    {s s' : Proxy} {v : Visit}, s.pollMessages codec now key r queue = .ok (s', v) →
      ∀ t ∈ v.steps, t.action.ofVisit = true
  | 0, _, s, s', v, hvisit => by
      obtain ⟨-, rfl⟩ := Prod.mk.inj (Except.ok.inj hvisit)
      simp
  | _ + 1, [], s, s', v, hvisit => by
      obtain ⟨-, rfl⟩ := Prod.mk.inj (Except.ok.inj hvisit)
      simp [Input.ofVisit]
  | r + 1, a :: queue, s, s', v, hvisit => by
      rw [pollMessages] at hvisit
      split at hvisit
      · obtain ⟨-, rfl⟩ := Prod.mk.inj (Except.ok.inj hvisit)
        simp [Input.ofVisit]
      · simp only at hvisit
        split at hvisit
        · simp at hvisit
        · split at hvisit
          · simp at hvisit
          · rename_i s₁ v₁ hrest
            obtain ⟨-, rfl⟩ := Prod.mk.inj (Except.ok.inj hvisit)
            exact List.forall_mem_cons.mpr ⟨rfl, ofVisit_pollMessages hrest⟩

/-- Every visit of a walk is made by the polls of one subscriber. -/
theorem Proxy.pollMessages_of_walk {queue : Bytes → List Arrival} {now : ℤ} : ∀ {keys : List Bytes}
    {skip : Bool} {s s' : Proxy} {visits : List Visit},
    walk codec queue now skip keys s = .ok (s', visits) → ∀ v ∈ visits, ∃ s₁ s₂ : Proxy,
      s₁.guid = s.guid ∧ s₁.pollMessages codec now v.key maxPolls (queue v.key) = .ok (s₂, v)
  | [], _, s, s', visits, hwalk => by
      obtain ⟨-, rfl⟩ : s = s' ∧ [] = visits := by simpa [walk] using hwalk
      simp
  | _ :: rest, true, s, s', visits, hwalk => by
      rw [walk] at hwalk
      exact pollMessages_of_walk hwalk
  | key :: rest, false, s, s', visits, hwalk => by
      rw [walk] at hwalk
      split at hwalk
      · simp at hwalk
      · rename_i s₁ v hvisit
        split at hwalk
        · simp at hwalk
        · rename_i s₂ log hrest
          obtain ⟨-, rfl⟩ := Prod.mk.inj (Except.ok.inj hwalk)
          obtain ⟨-, hspec, hothers⟩ := pollMessages_visitSpec hvisit
          refine List.forall_mem_cons.mpr ⟨⟨s, s₁, rfl, ?_⟩, fun u hu => ?_⟩
          · rwa [hspec.key_eq]
          · obtain ⟨s₃, s₄, hguid, hpolls⟩ := pollMessages_of_walk hrest u hu
            exact ⟨s₃, s₄, hguid.trans hothers.guid, hpolls⟩

/-- A ping changes no order. -/
theorem Proxy.isRehash_pingRedis {now : ℤ} {zadd zrevrange : Option RedisReply}
    {peers : ℕ → PeerOutcome} (hping : s.pingRedis now zadd zrevrange peers = .ok (s', steps)) :
    ∀ t ∈ steps, t.action.isRehash = false := by
  unfold pingRedis at hping
  split_ifs at hping
  · obtain ⟨-, rfl⟩ := Prod.mk.inj (Except.ok.inj hping)
    simp
  split at hping
  · split at hping
    · simp at hping
    · rename_i s₁ log hloop
      obtain ⟨-, rfl⟩ := Prod.mk.inj (Except.ok.inj hping)
      have hactions := (visitMembers_trace hloop).2
      refine List.forall_mem_append.mpr ⟨fun t ht => ?_, by simp [Input.isRehash]⟩
      obtain ⟨m, -, hm⟩ := List.mem_map.mp (hactions ▸ List.mem_map_of_mem ht)
      rw [← hm]
      rfl
  · simp at hping

/-- The polls of a turn: the responder, then a pass over the subscribers. -/
theorem Proxy.pollAll_cases (hpolls : s.pollAll codec o = .ok (s', log)) :
    ∃ s₁, s.pollResponder codec o = .ok (s₁, log.reply) ∧
      log.subscribers = (s₁.rehash o.pollOrders).subscribers.keys ∧ log.kept = none ∧
      (s₁.rehash o.pollOrders).pollSubscribers codec o.queue o.now = .ok (s', log.visits) := by
  unfold pollAll at hpolls
  split at hpolls
  · simp at hpolls
  · rename_i s₁ reply hpoll
    simp only at hpolls
    split at hpolls
    · simp at hpolls
    · rename_i s₂ visits hpass
      obtain ⟨rfl, rfl⟩ := Prod.mk.inj (Except.ok.inj hpolls)
      exact ⟨s₁, hpoll, rfl, rfl, hpass⟩

/-- The steps of a visit are the only steps of a pass. -/
theorem Proxy.ofVisit_pollAll (hpolls : s.pollAll codec o = .ok (s', log)) :
    ∀ t ∈ log.steps, t.action.ofVisit = true := by
  obtain ⟨s₁, -, -, -, hpass⟩ := pollAll_cases hpolls
  intro t ht
  obtain ⟨v, hv, ht⟩ := List.mem_flatMap.mp ht
  obtain ⟨_, _, -, hvisit⟩ := pollMessages_of_walk hpass v hv
  exact ofVisit_pollMessages hvisit t ht

/-- The polls of a turn are steps of a proxy. -/
theorem Proxy.executes_pollAll (hpolls : s.pollAll codec o = .ok (s', log)) :
    s.Executes (log.inputs codec o) s' := by
  obtain ⟨s₁, hpoll, -, hkept, hpass⟩ := pollAll_cases hpolls
  have hvisits : (s₁.rehash o.pollOrders).Executes (log.steps.map Transition.action) s' :=
    executes_of_trace (pollSubscribers_passSpec hpass).trace fun t ht =>
      Input.isRehash_of_ofVisit (ofVisit_pollAll hpolls t ht)
  rw [TurnLog.inputs, hkept, Option.map_none, Option.getD_none, List.append_nil]
  exact (executes_pollResponder hpoll).append ((s₁.executes_rehash _).append hvisits)

/-- A loop around the remote health check comes to one input. -/
theorem Proxy.executes_remoteChecks {clock : ℕ → ℤ} {n : ℕ} (hsteady : EsbProxy.Steady clock)
    (hloop : Loop (Checks RemoteCheck clock) (0, s) (n, s')) :
    s.Executes [.remoteRegistryHealthChecks (clock n)] s' := by
  have hstep : Step s (.remoteRegistryHealthChecks (clock n)) {}
      (s.remoteRegistryHealthChecks (clock n)) := rfl
  rw [remoteChecks_eq hsteady hloop]
  exact (hstep.executes rfl).append (executes_rehash _ _)

/-- A loop around the local health check comes to one input. -/
theorem Proxy.executes_localChecks {clock : ℕ → ℤ} {n : ℕ} (hsteady : EsbProxy.Steady clock)
    (hloop : Loop (Checks LocalCheck clock) (0, s) (n, s')) :
    s.Executes [.localRegistryHealthChecks (clock n)] s' := by
  have hstep : Step s (.localRegistryHealthChecks (clock n)) {}
      (s.localRegistryHealthChecks (clock n)) := rfl
  rw [localChecks_eq hsteady hloop]
  exact (hstep.executes rfl).append (executes_rehash _ _)

theorem Proxy.executes_finishTurn (o : Surroundings) (s : Proxy) :
    s.Executes [.requestRegistryExchange o.exchangeTime, .cleanUpResponsesMap o.cleanUpTime]
      (s.finishTurn o) := by
  have hasks : Step (s.rehash o.exchangeOrders) (.requestRegistryExchange o.exchangeTime) _
      ((s.rehash o.exchangeOrders).requestRegistryExchange o.exchangeTime).1 := rfl
  have hcleans : Step
      (((s.rehash o.exchangeOrders).requestRegistryExchange o.exchangeTime).1.rehash
        o.cleanUpOrders) (.cleanUpResponsesMap o.cleanUpTime) {} (s.finishTurn o) := rfl
  exact ((s.executes_rehash _).append (hasks.executes rfl)).append
    ((executes_rehash _ _).append (hcleans.executes rfl))

namespace MainLoop

variable {m m' : MainLoop} {config : Config}
  {h : List (Transition MainLoop Surroundings TurnLog)}

/-- **A turn is a trace of a proxy.** It handles a request, what it takes from the subscribers, and
when it is due the ping, both health checks, the exchange of registries and the clean-up. -/
theorem Turn.executes (hsteady : o.Steady) (hturn : Turn codec o m log s') :
    m.proxy.Executes (log.inputs codec o) s' := by
  cases hturn with
  | quiet polls notDue => exact Proxy.executes_pollAll polls
  | @due s s₁ s₂ s₃ log kept polls due pings remote own =>
    have hpinged := Proxy.executes_of_trace (Proxy.pingRedis_trace pings).1
      (Proxy.isRehash_pingRedis pings)
    have hchecked := (Proxy.executes_remoteChecks hsteady.remote remote).append
      (Proxy.executes_localChecks hsteady.own own)
    have hkept := (hpinged.append hchecked).append (Proxy.executes_finishTurn o s₃)
    have hall := (Proxy.executes_pollAll polls).append hkept
    obtain ⟨-, -, -, hnone, -⟩ := Proxy.pollAll_cases polls
    rw [TurnLog.inputs, hnone] at hall
    rw [TurnLog.inputs, Option.map_some, Option.getD_some, Housekeeping.inputs]
    simpa [TurnLog.steps] using hall

/-- **The main loop is a run of a proxy.** Its inputs are those of the turns, in their order. -/
theorem Run.executes (run : Run codec config h m) (hsteady : ∀ t ∈ h, t.action.Steady) :
    (Proxy.init config).Executes (h.flatMap fun t => t.out.inputs codec t.action) m.proxy := by
  induction run with
  | nil => exact Proxy.executes_nil _
  | @snoc h m o log m' run last ih =>
    have hturn := last.1.executes (hsteady ⟨m, o, log, m'⟩ (by simp))
    have hbefore := ih fun t ht => hsteady t (by simp [ht])
    rw [List.flatMap_append]
    simpa using hbefore.append hturn

end MainLoop

end

end EsbProxy
