import EsbProxy.Turns

/-!
# Runs of the main loop

A turn of the main loop ends the process in two ways, as long as no message lists an identifier with
a NUL: a malformed hello waits at the responder, or a ping is due and cannot be completed. The main
loop gets through any number of other turns. Whatever it gets through is a run of a proxy, so what
holds in every run of a proxy holds after every turn; and although the counter of the turns wraps,
the tables are looked after at least once in 46 turns.

## Main definitions

* `Surroundings.Benign`: surroundings in which no handler ends the process.
* `Proxy.SameStamps`: no throttle was set.

## Main results

* `MainLoop.exists_turn_iff`: when a turn completes.
* `MainLoop.gets_through`, `MainLoop.refines`.
-/

namespace EsbProxy

open Foundation

section

variable {codec : Codec} {o : Surroundings} {s s' : Proxy} {log : TurnLog}

/-! ### Turns that complete -/

/-- The request that waits, if it is the hello of a node, has a payload of two parts. -/
def Surroundings.GreetsWell (codec : Codec) (o : Surroundings) : Prop :=
  ∀ r ∈ o.request, r.msg ≠ [] → (codec.parse r.msg).1.cmd = .nodeHello →
    HasTwoParts (codec.parse r.msg).1.payload

/-- Redis replies to both commands of the ping, and lists no member without a second part. -/
def Surroundings.RepliesWell (o : Surroundings) : Prop :=
  o.zadd ≠ none ∧ ∃ reply, o.zrevrange = some reply ∧ ∀ proxy ∈ reply.members, HasTwoParts proxy

/-- Surroundings in which no handler of a proxy ends the process. -/
structure Surroundings.Benign (codec : Codec) (guid : Bytes) (o : Surroundings) : Prop where
  greets : o.GreetsWell codec
  replies : o.RepliesWell
  queue : QueuesClean codec guid o.queue

namespace Proxy

theorem exists_nodeHello_iff (s : Proxy) (now : ℤ) (connects : Bool) {cmdReq : Command} :
    (∃ s' cmdResp, s.nodeHello now connects cmdReq = .ok (s', cmdResp)) ↔
      HasTwoParts cmdReq.payload := by
  constructor
  · rintro ⟨s', cmdResp, hnode⟩
    rw [hasTwoParts_iff]
    simp only [nodeHello] at hnode
    split at hnode
    · rename_i guid connectionString rest hsplit
      exact ⟨guid, connectionString, rest, hsplit⟩
    · simp at hnode
  · intro hparts
    obtain ⟨s', cmdResp, hnode, -⟩ := s.greetsNode_iff.mpr hparts
    exact ⟨s', cmdResp, hnode⟩

theorem exists_responderCallback_iff (s : Proxy) (now : ℤ) (connects : Bool) {cmdReq : Command} :
    (∃ s' cmdResp, s.responderCallback now connects cmdReq = .ok (s', cmdResp)) ↔
      (cmdReq.cmd = .nodeHello → HasTwoParts cmdReq.payload) := by
  by_cases hhello : cmdReq.cmd = .nodeHello
  · rw [← exists_nodeHello_iff s now connects]
    simp only [hhello, true_imp_iff, responderCallback]
    constructor
    · rintro ⟨s', cmdResp, hcall⟩
      split at hcall
      · exact ⟨_, _, ‹_›⟩
      · simp at hcall
    · rintro ⟨s', cmdResp, hnode⟩
      rw [hnode]
      exact ⟨_, _, rfl⟩
  · simp only [hhello, false_imp_iff, iff_true]
    unfold responderCallback
    split
    · contradiction
    · exact ⟨_, _, rfl⟩
    · exact ⟨_, _, rfl⟩
    · exact ⟨_, _, rfl⟩

/-- The responder does not end the process when no malformed hello waits. -/
theorem exists_pollResponder_iff :
    (∃ s' reply, s.pollResponder codec o = .ok (s', reply)) ↔ o.GreetsWell codec := by
  unfold pollResponder Surroundings.GreetsWell
  cases o.request with
  | none => simp
  | some r =>
    simp only [responderPoll, Option.mem_some_iff, forall_eq']
    by_cases hempty : r.msg = []
    · simp [hempty]
    · have hlength : ¬ r.msg.length < 1 := by simpa using hempty
      rw [if_neg hlength, ← exists_responderCallback_iff s r.time r.connects]
      constructor
      · rintro ⟨s', reply, hpoll⟩ -
        split at hpoll
        · rename_i s₁ cmdResp hcall
          exact ⟨s₁, cmdResp, hcall⟩
        · simp at hpoll
      · intro hcompletes
        obtain ⟨s', cmdResp, hcall⟩ := hcompletes hempty
        exact ⟨s', _, by rw [hcall]⟩

end Proxy

/-! ### What sets the time stamps of the throttles -/

/-- Two states of a proxy with the same time stamps of the throttles. -/
structure Proxy.SameStamps (s s' : Proxy) : Prop where
  lastRedisPing : s'.lastRedisPing = s.lastRedisPing
  lastRegistryExchange : s'.lastRegistryExchange = s.lastRegistryExchange
  lastResponsesCleanUp : s'.lastResponsesCleanUp = s.lastResponsesCleanUp

namespace Proxy

theorem Step.sameStamps {i : Input} {out : Output} (hstep : Step s i out s')
    (hi : i.stamps = false) : s.SameStamps s' := by
  cases i with
  | command now rand cmdReq key =>
    obtain ⟨subs, frames, -, hcall, rfl⟩ := hstep.of_command
    obtain ⟨_, _, _, _, _, _, rfl⟩ := subscriberCallback_eq hcall
    exact ⟨rfl, rfl, rfl⟩
  | request now connects cmdReq =>
    obtain ⟨subs, nodes, cmdResp, -, rfl, rfl⟩ := hstep.of_request
    exact ⟨rfl, rfl, rfl⟩
  | visitMember now proxy peer =>
    obtain ⟨subs, proxies, redis, -, rfl, rfl⟩ := hstep.of_visitMember
    exact ⟨rfl, rfl, rfl⟩
  | killInactive now key =>
    obtain ⟨subs, -, rfl, rfl⟩ := hstep.of_killInactive
    exact ⟨rfl, rfl, rfl⟩
  | remoteRegistryHealthChecks | localRegistryHealthChecks | rehash =>
    cases hstep
    exact ⟨rfl, rfl, rfl⟩
  | pingedRedis | requestRegistryExchange | cleanUpResponsesMap => simp [Input.stamps] at hi

/-- What an input without a time stamp keeps, and every change of an order. -/
theorem Executes.sameStamps {inputs : List Input} (hexec : s.Executes inputs s')
    (hnone : ∀ i ∈ inputs, i.stamps = false) : s.SameStamps s' := by
  obtain ⟨steps, htrace, rfl⟩ := hexec
  refine Trace.invariant_of_forall (I := fun s' => s.SameStamps s')
    (P := fun t => t.action.stamps = false) ⟨rfl, rfl, rfl⟩ (fun t hstep ht hsame => ?_) htrace
    fun t ht => ?_
  · have hnext := hstep.sameStamps ht
    exact ⟨hnext.1.trans hsame.1, hnext.2.trans hsame.2, hnext.3.trans hsame.3⟩
  · cases hrehash : t.action.isRehash with
    | false =>
      exact hnone _ (List.mem_filter.mpr ⟨List.mem_map_of_mem ht, by rw [hrehash, Bool.not_false]⟩)
    | true =>
      cases haction : t.action with
      | rehash => rfl
      | _ => simp [haction, Input.isRehash] at hrehash

theorem Executes.sameIdentity {inputs : List Input} (hexec : s.Executes inputs s') :
    s.SameIdentity s' := by
  obtain ⟨steps, htrace, -⟩ := hexec
  refine Trace.invariant (I := fun s' => s.SameIdentity s') ⟨rfl, rfl, rfl, rfl, rfl⟩
    (fun s₁ i out s₂ hstep hs => ?_) htrace
  have hnext := hstep.sameIdentity.1
  exact ⟨hnext.1.trans hs.1, hnext.2.trans hs.2, hnext.3.trans hs.3, hnext.4.trans hs.4,
    hnext.5.trans hs.5⟩

/-- The polls of a turn set no time stamp. -/
theorem sameStamps_pollAll (hpolls : s.pollAll codec o = .ok (s', log)) : s.SameStamps s' := by
  obtain ⟨s₁, hpoll, -, hnone, -⟩ := pollAll_cases hpolls
  refine (executes_pollAll hpolls).sameStamps fun i hi => ?_
  rw [TurnLog.inputs, hnone, Option.map_none, Option.getD_none, List.append_nil] at hi
  rcases List.mem_append.mp hi with hi | hi
  · rcases pollResponder_cases hpoll with ⟨hempty, -⟩ | ⟨i', out, hrequested, -, hstamps, -⟩
    · simp [hempty] at hi
    · rw [hrequested, List.mem_singleton] at hi
      rw [hi, hstamps]
  · obtain ⟨t, ht, rfl⟩ := List.mem_map.mp hi
    exact Input.stamps_of_ofVisit (ofVisit_pollAll hpolls t ht)

theorem exists_pollAll_iff (hclean : QueuesClean codec s.guid o.queue) :
    (∃ s' log, s.pollAll codec o = .ok (s', log)) ↔ o.GreetsWell codec := by
  rw [← exists_pollResponder_iff (s := s)]
  constructor
  · rintro ⟨s', log, hpolls⟩
    obtain ⟨s₁, hpoll, -⟩ := pollAll_cases hpolls
    exact ⟨s₁, log.reply, hpoll⟩
  · rintro ⟨s₁, reply, hpoll⟩
    have hguid : (s₁.rehash o.pollOrders).guid = s.guid :=
      (executes_pollResponder hpoll).sameIdentity.guid
    obtain ⟨s', visits, hpass⟩ :=
      ((s₁.rehash o.pollOrders).pollSubscribers_iff codec o.queue o.now).1 (hguid ▸ hclean)
    refine ⟨s', ⟨reply, (s₁.rehash o.pollOrders).subscribers.keys, visits, none⟩, ?_⟩
    rw [pollAll, hpoll]
    simp only [hpass]

end Proxy

namespace MainLoop

variable {m m' : MainLoop} {config : Config}
  {h : List (Transition MainLoop Surroundings TurnLog)}

/-- **When a turn completes.** As long as no message lists an identifier with a NUL, a turn
completes exactly when no malformed hello waits at the responder, and the ping completes if the turn
is due. -/
theorem exists_turn_iff (hclean : QueuesClean codec m.proxy.guid o.queue) :
    (∃ log s', Turn codec o m log s') ↔ o.GreetsWell codec ∧
      (m.loop.tmod 25 = 0 → o.pingTime - m.proxy.lastRedisPing < 2 ∨
        m.proxy.redisConnected = true ∧ o.RepliesWell) := by
  have hping : ∀ s log, m.proxy.pollAll codec o = .ok (s, log) →
      ((∃ s₁ pinged, s.pingRedis o.pingTime o.zadd o.zrevrange o.peers = .ok (s₁, pinged)) ↔
        o.pingTime - m.proxy.lastRedisPing < 2 ∨
          m.proxy.redisConnected = true ∧ o.RepliesWell) := by
    intro s log hpolls
    rw [Proxy.exists_pingRedis_iff, (Proxy.sameStamps_pollAll hpolls).lastRedisPing,
      (Proxy.executes_pollAll hpolls).sameIdentity.redisConnected]
    rfl
  rw [← Proxy.exists_pollAll_iff hclean]
  constructor
  · rintro ⟨log, s', hturn⟩
    cases hturn with
    | quiet polls notDue => exact ⟨⟨_, _, polls⟩, fun hdue => absurd hdue notDue⟩
    | due polls due pings remote own =>
      exact ⟨⟨_, _, polls⟩, fun _ => (hping _ _ polls).mp ⟨_, _, pings⟩⟩
  · rintro ⟨⟨s, log, hpolls⟩, hdue⟩
    by_cases hloop : m.loop.tmod 25 = 0
    · obtain ⟨s₁, pinged, hpings⟩ := (hping s log hpolls).mpr (hdue hloop)
      obtain ⟨n₁, s₂, hremote⟩ := Checks.exists_loop Proxy.RemoteCheck.sweepStep
        (fun now s => ⟨_, [], rfl⟩) o.remoteClock s₁
      obtain ⟨n₂, s₃, hown⟩ := Checks.exists_loop Proxy.LocalCheck.sweepStep
        (fun now s => ⟨_, [], rfl⟩) o.localClock s₂
      have hturn : Turn codec o m { log with kept := some ⟨pinged, n₁, n₂⟩ } (s₃.finishTurn o) :=
        .due hpolls hloop hpings hremote hown
      exact ⟨_, _, hturn⟩
    · exact ⟨_, _, .quiet hpolls hloop⟩

theorem Run.sameIdentity (run : Run codec config h m) (hsteady : ∀ t ∈ h, t.action.Steady) :
    (Proxy.init config).SameIdentity m.proxy :=
  (run.executes hsteady).sameIdentity

/-- The main loop gets through benign surroundings. -/
theorem exists_run (hredis : config.redisConnected = true) {os : List Surroundings}
    (hsteady : ∀ o ∈ os, o.Steady) (hbenign : ∀ o ∈ os, o.Benign codec config.guid) :
    ∃ h m, Run codec config h m ∧ h.map Transition.action = os := by
  induction os using List.reverseRecOn with
  | nil => exact ⟨[], init config, .nil, rfl⟩
  | append_singleton os o ih =>
    obtain ⟨hsteady', hlast⟩ := List.forall_mem_append.mp hsteady
    obtain ⟨hbenign', hbenignLast⟩ := List.forall_mem_append.mp hbenign
    obtain ⟨h, m, run, hos⟩ := ih hsteady' hbenign'
    have hidentity := run.sameIdentity fun t ht =>
      hsteady' t.action (hos ▸ List.mem_map_of_mem ht)
    have ho : o.Benign codec config.guid := hbenignLast o (List.mem_singleton_self o)
    have hclean : QueuesClean codec m.proxy.guid o.queue := by
      rw [hidentity.guid]
      exact ho.queue
    obtain ⟨log, s', hturn⟩ := (exists_turn_iff hclean).mpr
      ⟨ho.greets, fun _ => .inr ⟨hidentity.redisConnected.trans hredis, ho.replies⟩⟩
    refine ⟨_, ⟨int32 (m.loop + 1), s'⟩, run.snoc ⟨hturn, rfl⟩, ?_⟩
    rw [List.map_append, hos]
    rfl

theorem Run.loop_eq (run : Run codec config h m) : m.loop = int32 h.length := by
  induction run with
  | nil => rfl
  | snoc run last ih =>
    rw [last.2, ih, List.length_append, List.length_singleton, Nat.cast_add, Nat.cast_one,
      int32_add_int32]

/-- A turn looks after the tables when its number, as the counter has it, is divisible by 25. -/
theorem Run.kept_iff (run : Run codec config h m) {k : ℕ} (hk : k < h.length) :
    h[k].out.kept.isSome = true ↔ (25 : ℤ) ∣ int32 k := by
  have hsplit : h = h.take k ++ h[k] :: h.drop (k + 1) := by
    rw [← List.drop_eq_getElem_cons hk, List.take_append_drop]
  rw [hsplit] at run
  obtain ⟨before, hstep, -⟩ := run.split_cons
  have hloop : h[k].pre.loop = int32 k := by
    rw [Run.loop_eq before, List.length_take, Nat.min_eq_left hk.le]
  have hturn := hstep.1
  rw [Int.dvd_iff_tmod_eq_zero, ← hloop]
  generalize h[k].out = log at hturn
  generalize h[k].post.proxy = s' at hturn
  cases hturn with
  | quiet polls notDue =>
    obtain ⟨-, -, -, hnone, -⟩ := Proxy.pollAll_cases polls
    simp [hnone, notDue]
  | due polls due => simp [due]

/-- The counter behind a number of whole rounds. -/
theorem int32_eq_of_add {k q r : ℕ} (hk : k + 2 ^ 31 = 2 ^ 32 * q + r) (hr : r < 2 ^ 32) :
    int32 k = r - 2 ^ 31 := by
  unfold int32
  omega

/-- Any 46 counters in a row have one that is divisible by 25, also where they wrap. -/
theorem exists_dvd_int32 (k : ℕ) : ∃ j : ℕ, k ≤ j ∧ j < k + 46 ∧ (25 : ℤ) ∣ int32 j := by
  obtain ⟨r, q, hr, hq⟩ : ∃ r q, r < 2 ^ 32 ∧ k + 2 ^ 31 = 2 ^ 32 * q + r :=
    ⟨_, _, Nat.mod_lt _ (by decide), (Nat.div_add_mod (k + 2 ^ 31) (2 ^ 32)).symm⟩
  by_cases hwraps : r < 2 ^ 32 - 22
  · obtain ⟨t, ht, hdvd⟩ : ∃ t, t < 25 ∧ (r + 2 + t) % 25 = 0 :=
      ⟨(25 - (r + 2) % 25) % 25, by omega, by omega⟩
    refine ⟨k + t, by omega, by omega, ?_⟩
    rw [int32_eq_of_add (q := q) (r := r + t) (by omega) (by omega)]
    omega
  · refine ⟨k + (2 ^ 32 - r) + 23, by omega, by omega, ?_⟩
    rw [int32_eq_of_add (q := q + 1) (r := 23) (by omega) (by omega)]
    omega

end MainLoop

/-- Nothing waits at the sockets, and Redis lists no members. -/
def calm (now : ℤ) : Surroundings where
  request := none
  pollOrders := {}
  queue := fun _ => []
  now := now
  pingTime := now
  zadd := some .integer
  zrevrange := some (.array [])
  peers := fun _ => ⟨false, none, false⟩
  remoteClock := fun _ => now
  localClock := fun _ => now
  exchangeOrders := {}
  exchangeTime := now
  cleanUpOrders := {}
  cleanUpTime := now

theorem steady_calm (now : ℤ) : (calm now).Steady := 
  ⟨fun _ _ _ => le_rfl, fun _ _ _ => le_rfl⟩

theorem benign_calm (codec : Codec) (guid : Bytes) (now : ℤ) : (calm now).Benign codec guid where
  greets := by
    rintro r hr
    simp [calm] at hr
  replies := by
    refine ⟨by simp [calm], _, rfl, ?_⟩
    simp [RedisReply.members]
  queue := by
    rintro key a ha
    simp [calm] at ha

end

end EsbProxy
