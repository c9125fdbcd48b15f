import EsbProxy.Dispatch

/-!
# Pings and hellos that end the process

`PingRedis` reads the replies of two commands to Redis without asking whether there are any.
hiredis gives none when the connection is in error, and without a context `redisCommand` itself
reads through the null pointer. Both `PingRedis` and `NodeHello` index the second piece of a text
that another party wrote: of a member of `ZSET:PROXIES`, of the payload of a hello.

## Main definitions

* `RedisReply`: what Redis replies.
* `Proxy.pingRedis`: `PingRedis` with its loop over all members.
* `HasTwoParts`: a text with a second piece.
* `Proxy.PingsAll`, `Proxy.GreetsNode`: what a ping and a hello should do.

## Main results

* `Proxy.pingRedis_trace`: a ping that completes visits all members, by steps of the proxy.
* `Proxy.pingsAll_iff`: when a ping and a hello complete.
-/

namespace EsbProxy

open Foundation

/-! ### The ping -/

/-- A reply of Redis, by its `type`. The elements of an array are strings. -/
inductive RedisReply
  | string
  | array (element : List Bytes)
  | integer
  | nil
  | status
  | error

/-- The members that `PingRedis` finds in a reply. A reply that is no array is reported only. -/
def RedisReply.members : RedisReply → List Bytes
  | array element => element
  | _ => []

namespace Proxy

/-- The loop of `Proxy::PingRedis` over the members of `ZSET:PROXIES`, the first of which is the
`n`-th of the reply. `peers` tells what happens when the proxy says hello to a member. -/
def visitMembers (now : ℤ) (peers : ℕ → PeerOutcome) : (n : ℕ) → List Bytes → Proxy →
    Except Fault (Proxy × List (Transition Proxy Input Output))
  | _, [], s => .ok (s, [])
  | n, proxy :: element, s =>
    match s.visitMember now proxy (peers n) with
    | .error fault => .error fault
    | .ok (s', redis) =>
      match visitMembers now peers (n + 1) element s' with
      | .error fault => .error fault
      | .ok (s'', log) =>
        .ok (s'', ⟨s, .visitMember now proxy (peers n), { redis := redis }, s'⟩ :: log)

/-- `Proxy::PingRedis`, when `ZADD` and `ZREVRANGE` give the replies `zadd` and `zrevrange`. -/
def pingRedis (now : ℤ) (zadd zrevrange : Option RedisReply) (peers : ℕ → PeerOutcome)
    (s : Proxy) : Except Fault (Proxy × List (Transition Proxy Input Output)) :=
  if now - s.lastRedisPing < 2 then .ok (s, [])
  -- `redisCommand` reads the flags of the context
  else if s.redisConnected = false then .error .nullPointer
  else
    match zadd, zrevrange with
    | some _, some reply =>
      match s.visitMembers now peers 0 reply.members with
      | .error fault => .error fault
      | .ok (s', log) =>
        let s'' : Proxy := { s' with lastRedisPing := int32 now }
        .ok (s'', log ++ [⟨s', .pingedRedis now, {}, s''⟩])
    -- `freeReplyObject` reads the type of the first reply, `PingRedis` that of the second
    | _, _ => .error .nullPointer

end Proxy

/-! ### Texts of two parts -/

/-- Something stands behind the first `'#'` of a C string. -/
def HasTwoParts (text : Bytes) : Prop :=
  ∃ first after, cStr text = first ++ hash :: after ∧ hash ∉ first ∧ after ≠ []

instance : DecidablePred HasTwoParts := fun _ => decidable_of_iff _ two_le_length_split_iff

theorem hasTwoParts_iff {text : Bytes} :
    HasTwoParts text ↔ ∃ first second rest, split (cStr text) hash = first :: second :: rest := by
  rw [HasTwoParts, ← two_le_length_split_iff]
  constructor
  · intro hlength
    match h : split (cStr text) hash with
    | [] => simp [h] at hlength
    | [_] => simp [h] at hlength
    | first :: second :: rest => exact ⟨first, second, rest, rfl⟩
  · rintro ⟨first, second, rest, h⟩
    simp [h]

namespace Proxy

variable {s s' : Proxy} {now : ℤ} {peers : ℕ → PeerOutcome}
  {log : List (Transition Proxy Input Output)}

theorem exists_visitMember_iff (s : Proxy) (now : ℤ) (proxy : Bytes) (peer : PeerOutcome) :
    (∃ s' redis, s.visitMember now proxy peer = .ok (s', redis)) ↔ HasTwoParts proxy := by
  rw [hasTwoParts_iff, visitMember]
  constructor
  · rintro ⟨s', redis, hvisit⟩
    split at hvisit
    · rename_i first second rest hsplit
      exact ⟨first, second, rest, hsplit⟩
    · simp at hvisit
  · rintro ⟨first, second, rest, hsplit⟩
    rw [hsplit]
    change ∃ s' redis, (if first = s.guid then _ else _) = _
    split_ifs
    · exact ⟨_, _, rfl⟩
    · exact ⟨_, _, rfl⟩
    · exact ⟨_, _, rfl⟩

/-- The loop over the members completes when all of them have two parts. -/
theorem exists_visitMembers_iff (now : ℤ) (peers : ℕ → PeerOutcome) :
    ∀ (element : List Bytes) (n : ℕ) (s : Proxy),
      (∃ s' log, s.visitMembers now peers n element = .ok (s', log)) ↔
        ∀ proxy ∈ element, HasTwoParts proxy
  | [], n, s => by simp [visitMembers]
  | proxy :: element, n, s => by
      have ih := exists_visitMembers_iff now peers element (n + 1)
      rw [List.forall_mem_cons, ← exists_visitMember_iff s now proxy (peers n)]
      constructor
      · rintro ⟨s'', log, hloop⟩
        rw [visitMembers] at hloop
        split at hloop
        · simp at hloop
        · rename_i s' redis hvisit
          split at hloop
          · simp at hloop
          · rename_i s₂ log₂ hrest
            exact ⟨⟨s', redis, hvisit⟩, (ih s').mp ⟨s₂, log₂, hrest⟩⟩
      · rintro ⟨⟨s', redis, hvisit⟩, hrest⟩
        obtain ⟨s'', log, hloop⟩ := (ih s').mpr hrest
        refine ⟨s'', ⟨s, .visitMember now proxy (peers n), { redis := redis }, s'⟩ :: log, ?_⟩
        rw [visitMembers, hvisit]
        simp only [hloop]

/-- The loop over the members takes one step for each of them, in their order. -/
theorem visitMembers_trace : ∀ {element : List Bytes} {n : ℕ} {s s' : Proxy}
    {log : List (Transition Proxy Input Output)},
    s.visitMembers now peers n element = .ok (s', log) → Trace Proxy.Step s log s' ∧
      log.map Transition.action =
        (element.zipIdx n).map fun m => Input.visitMember now m.1 (peers m.2)
  | [], n, s, s', log, hloop => by
      obtain ⟨rfl, rfl⟩ : s = s' ∧ [] = log := by simpa [visitMembers] using hloop
      exact ⟨.nil, rfl⟩
  | proxy :: element, n, s, s', log, hloop => by
      rw [visitMembers] at hloop
      split at hloop
      · simp at hloop
      · rename_i s₁ redis hvisit
        split at hloop
        · simp at hloop
        · rename_i s₂ log₂ hrest
          obtain ⟨rfl, rfl⟩ := Prod.mk.inj (Except.ok.inj hloop)
          obtain ⟨htrace, hactions⟩ := visitMembers_trace hrest
          have hstep : Step s (.visitMember now proxy (peers n)) { redis := redis } s₁ := by
            rw [Step, exec, hvisit]
          have hfirst : Trace Proxy.Step s
              [⟨s, .visitMember now proxy (peers n), { redis := redis }, s₁⟩] s₁ :=
            Trace.nil.snoc hstep
          refine ⟨hfirst.append htrace, ?_⟩
          rw [List.map_cons, hactions]
          rfl

/-- The visits that a ping owes to the members of an array: one to every member of two parts. -/
def visitsOf (now : ℤ) (peers : ℕ → PeerOutcome) (element : List Bytes) : List Input :=
  (element.zipIdx.filter fun m => HasTwoParts m.1).map fun m => .visitMember now m.1 (peers m.2)

/-- What a ping should do, whatever Redis replies: it completes. When it is due and Redis replies,
it visits all members of two parts, in their order, and skips the others. -/
def PingsAll (now : ℤ) (zadd zrevrange : Option RedisReply) (peers : ℕ → PeerOutcome)
    (s : Proxy) : Prop :=
  ∃ s' log, s.pingRedis now zadd zrevrange peers = .ok (s', log) ∧ Trace Proxy.Step s log s' ∧
    ∀ reply, 2 ≤ now - s.lastRedisPing → zrevrange = some reply →
      log.map Transition.action = visitsOf now peers reply.members ++ [.pingedRedis now]

/-- What the hello of a node should come to: it is answered, and with an `ERROR` when its payload
is not of two parts. -/
def GreetsNode (now : ℤ) (connects : Bool) (cmdReq : Command) (s : Proxy) : Prop :=
  ∃ s' cmdResp, s.nodeHello now connects cmdReq = .ok (s', cmdResp) ∧
    (¬ HasTwoParts cmdReq.payload → cmdResp.cmd = .error)

/-- A ping completes when it is not due, or when Redis gives both replies and lists no member
without a second part. -/
theorem exists_pingRedis_iff {zadd zrevrange : Option RedisReply} :
    (∃ s' log, s.pingRedis now zadd zrevrange peers = .ok (s', log)) ↔
      now - s.lastRedisPing < 2 ∨ s.redisConnected = true ∧ zadd ≠ none ∧
        ∃ reply, zrevrange = some reply ∧ ∀ proxy ∈ reply.members, HasTwoParts proxy := by
  by_cases hdue : now - s.lastRedisPing < 2
  · simp [pingRedis, hdue]
  by_cases hredis : s.redisConnected = false
  · simp [pingRedis, hdue, hredis]
  match zadd, zrevrange with
  | none, _ => simp [pingRedis, hdue]
  | some _, none => simp [pingRedis, hdue]
  | some first, some reply =>
    have hping : s.pingRedis now (some first) (some reply) peers =
        match s.visitMembers now peers 0 reply.members with
        | .error fault => .error fault
        | .ok (s', log) =>
          let s'' : Proxy := { s' with lastRedisPing := int32 now }
          .ok (s'', log ++ [⟨s', .pingedRedis now, {}, s''⟩]) := by
      rw [pingRedis, if_neg hdue, if_neg hredis]
    rw [hping]
    have hvisits := exists_visitMembers_iff now peers reply.members 0 s
    constructor
    · rintro ⟨s', log, hok⟩
      split at hok
      · simp at hok
      · rename_i s₁ log₁ hloop
        exact .inr ⟨by simpa using hredis, by simp, reply, rfl, hvisits.mp ⟨s₁, log₁, hloop⟩⟩
    · rintro (hearly | ⟨-, -, _, hreply, hmembers⟩)
      · exact absurd hearly hdue
      · cases hreply
        obtain ⟨s₁, log₁, hloop⟩ := hvisits.mpr hmembers
        rw [hloop]
        exact ⟨_, _, rfl⟩

/-- A ping that completes is made of steps of the proxy. When it is due, they are a visit to every
member, and the end of the ping. -/
theorem pingRedis_trace {zadd zrevrange : Option RedisReply}
    (hping : s.pingRedis now zadd zrevrange peers = .ok (s', log)) :
    Trace Proxy.Step s log s' ∧ ∀ reply, 2 ≤ now - s.lastRedisPing → zrevrange = some reply →
      log.map Transition.action =
        (reply.members.zipIdx.map fun m => Input.visitMember now m.1 (peers m.2)) ++
          [.pingedRedis now] := by
  unfold pingRedis at hping
  split_ifs at hping with hdue hredis
  · obtain ⟨rfl, rfl⟩ : s = s' ∧ [] = log := by simpa using hping
    exact ⟨.nil, fun _ hage => by omega⟩
  split at hping
  · rename_i reply
    split at hping
    · simp at hping
    · rename_i s₁ log₁ hloop
      obtain ⟨rfl, rfl⟩ := Prod.mk.inj (Except.ok.inj hping)
      obtain ⟨htrace, hactions⟩ := visitMembers_trace hloop
      refine ⟨htrace.snoc rfl, fun _ _ hreply => ?_⟩
      cases hreply
      rw [List.map_append, hactions]
      rfl
  · simp at hping

theorem pingsAll_iff_exists {zadd zrevrange : Option RedisReply} :
    s.PingsAll now zadd zrevrange peers ↔
      ∃ s' log, s.pingRedis now zadd zrevrange peers = .ok (s', log) := by
  constructor
  · rintro ⟨s', log, hping, -⟩
    exact ⟨s', log, hping⟩
  · rintro ⟨s', log, hping⟩
    obtain ⟨htrace, hactions⟩ := pingRedis_trace hping
    refine ⟨s', log, hping, htrace, fun reply hdue hreply => ?_⟩
    have hall : ∀ proxy ∈ reply.members, HasTwoParts proxy := by
      obtain hearly | ⟨-, -, _, hsome, hmembers⟩ := exists_pingRedis_iff.mp ⟨s', log, hping⟩
      · omega
      · rw [hreply] at hsome
        cases hsome
        exact hmembers
    have hkept : (reply.members.zipIdx.filter fun m => HasTwoParts m.1) = reply.members.zipIdx :=
      List.filter_eq_self.mpr fun m hm => decide_eq_true (hall _ (List.fst_mem_of_mem_zipIdx hm))
    rw [hactions reply hdue hreply, visitsOf, hkept]

/-- A hello is answered when its payload is of two parts. -/
theorem greetsNode_iff {connects : Bool} {cmdReq : Command} :
    s.GreetsNode now connects cmdReq ↔ HasTwoParts cmdReq.payload := by
  constructor
  · rintro ⟨s', cmdResp, hhello, -⟩
    rw [hasTwoParts_iff]
    simp only [nodeHello] at hhello
    split at hhello
    · rename_i guid connectionString rest hsplit
      exact ⟨guid, connectionString, rest, hsplit⟩
    · simp at hhello
  · intro hparts
    obtain ⟨guid, connectionString, rest, hsplit⟩ := hasTwoParts_iff.mp hparts
    simp only [GreetsNode, nodeHello, hsplit]
    split_ifs
    · exact ⟨_, _, rfl, fun hnot => absurd hparts hnot⟩
    · exact ⟨_, _, rfl, fun hnot => absurd hparts hnot⟩

/-- **When pings and hellos complete.** Whatever the state of the proxy and whatever Redis replies,
a ping completes, visits all members of two parts and skips the others exactly when it is not due,
or when the connection was established at the start, both commands are replied to, and something
stands behind the first `'#'` of every listed member. The hello of a node is answered exactly when
something stands behind the first `'#'` of its payload. -/
theorem pingsAll_iff (now : ℤ) (zadd zrevrange : Option RedisReply) (peers : ℕ → PeerOutcome)
    (connects : Bool) (cmdReq : Command) (s : Proxy) :
    (s.PingsAll now zadd zrevrange peers ↔
        now - s.lastRedisPing < 2 ∨ s.redisConnected = true ∧ zadd ≠ none ∧
          ∃ reply, zrevrange = some reply ∧ ∀ proxy ∈ reply.members, HasTwoParts proxy) ∧
      (s.GreetsNode now connects cmdReq ↔ HasTwoParts cmdReq.payload) :=
  ⟨pingsAll_iff_exists.trans exists_pingRedis_iff, greetsNode_iff⟩

end Proxy

/-- **A ping and a hello that end the process.** Redis refused the connection of a new proxy, and
the first ping is due; a node says hello with a payload without `'#'`. -/
theorem not_pingsAll :
    (¬ ∀ (config : Config) (h : List (Transition Proxy Input Output)) (s : Proxy) (now : ℤ)
        (zadd zrevrange : Option RedisReply) (peers : ℕ → PeerOutcome),
        Proxy.Run config h s → s.PingsAll now zadd zrevrange peers) ∧
      ¬ ∀ (config : Config) (h : List (Transition Proxy Input Output)) (s : Proxy) (now : ℤ)
        (connects : Bool) (cmdReq : Command),
        Proxy.Run config h s → s.GreetsNode now connects cmdReq := by
  let config := Config.ofSite .first 7770 7780
  constructor
  · intro claim
    let refused : Config := { config with redisConnected := false }
    have hping := claim refused [] (Proxy.init refused) 100 none none (fun _ => ⟨false, none, false⟩)
      .nil
    obtain hearly | ⟨hredis, -⟩ := (Proxy.pingsAll_iff _ _ _ _ true {} _).1.mp hping
    · exact absurd hearly (by decide)
    · exact absurd hredis (by decide)
  · intro claim
    have hhello := claim config [] (Proxy.init config) 100 true
      { cmd? := some .nodeHello, payload? := some (ascii "node") } .nil
    exact absurd (Proxy.greetsNode_iff.mp hhello) (by decide)

end EsbProxy
