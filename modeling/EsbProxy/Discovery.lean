import EsbProxy.Net

/-!
# Discovery of the proxies of a network

The members of `ZSET:PROXIES` are written by the proxies of the network, so a member is always the
guid and the address of one of them, and the proxies that a proxy knows are other proxies of the
network.

## Main definitions

* `Net.Discovered`: where members and known guids come from.

## Main results

* `split_member`: a member is read as the guid and the address that it was made of.
* `Net.Run.discovered`.
-/

namespace EsbProxy

open Foundation

/-! ### The bytes of a member -/

/-- An address has no byte that neither the host nor the fixed parts have. -/
theorem notMem_address {b : UInt8} {host : Bytes} (port : ℤ) (hhost : b ∉ host) (hsign : b ≠ 45)
    (hdigit : b < 48 ∨ 57 < b) (htext : b ∉ ascii "tcp://" ∧ b ∉ ascii ":") :
    b ∉ address host port := by
  simp only [address, List.mem_append, not_or]
  exact ⟨⟨⟨htext.1, hhost⟩, htext.2⟩, notMem_decimal port hsign hdigit⟩

/-- A member is read as the guid and the address that it was made of. -/
theorem Proxy.split_member {s : Proxy} (hguid : 0 ∉ s.guid ∧ hash ∉ s.guid)
    (hhost : 0 ∉ s.host ∧ hash ∉ s.host) :
    split (cStr s.member) hash = [s.guid, address s.host s.responderPort] := by
  have hmember : s.member = s.guid ++ hash :: address s.host s.responderPort := by simp [member]
  have hzeroAddress : 0 ∉ address s.host s.responderPort :=
    notMem_address _ hhost.1 (by decide) (by decide) (by decide)
  have hhashAddress : hash ∉ address s.host s.responderPort :=
    notMem_address _ hhost.2 (by decide) (by decide) (by decide)
  have hzero : 0 ∉ s.member := by
    rw [hmember, List.mem_append, List.mem_cons]
    rintro (hb | hb | hb)
    · exact hguid.1 hb
    · exact absurd hb (by decide)
    · exact hzeroAddress hb
  rw [cStr_eq_self hzero, hmember, split_append _ hguid.2,
    split_of_notMem hhashAddress (by simp [address, ascii])]

namespace Config

variable (config : Config)

/-- A member is read as the guid and the address of the proxy. -/
theorem split_member :
    split (cStr config.member) hash = [config.guid, config.responderAddress] :=
  Proxy.split_member ⟨config.zero_notMem_guid, config.hash_notMem_guid⟩
    ⟨config.zero_notMem_host, config.hash_notMem_host⟩

end Config

/-- A proxy adds the same member to Redis all its life. -/
theorem Proxy.SameIdentity.member_eq {config : Config} {s : Proxy}
    (hs : (Proxy.init config).SameIdentity s) : s.member = config.member := by
  rw [Proxy.member, hs.guid, hs.host, hs.responderPort, Config.member, Proxy.member]

/-- A proxy listens at the same address all its life. -/
theorem Proxy.SameIdentity.address_eq {config : Config} {s : Proxy}
    (hs : (Proxy.init config).SameIdentity s) :
    address s.host s.responderPort = config.responderAddress := by
  rw [hs.host, hs.responderPort]
  rfl

/-! ### What one proxy does -/

section Proxies

variable {s s' : Proxy} {i : Input} {out : Output}

/-- Saying hello to a proxy deletes from Redis what its guid and its address make, or nothing. -/
theorem Proxy.connectToAnotherProxy_redis (now : ℤ) (proxyGuid connectionString : Bytes)
    (peer : PeerOutcome) (s : Proxy) :
    ∀ c ∈ (s.connectToAnotherProxy now proxyGuid connectionString peer).2,
      c = .zrem (proxyGuid ++ [hash] ++ connectionString) := by
  simp only [connectToAnotherProxy]
  cases peer.reply with
  | none =>
    split_ifs
    all_goals simp
  | some cmdResp =>
    split_ifs
    all_goals simp

/-- Visiting a member deletes what its first two parts make, or nothing. -/
theorem Proxy.visitMember_redis {now : ℤ} {proxy : Bytes} {peer : PeerOutcome}
    {redis : List RedisCommand} (hvisit : s.visitMember now proxy peer = .ok (s', redis))
    {c : RedisCommand} (hc : c ∈ redis) :
    ∃ guid2 connectionString rest, split (cStr proxy) hash = guid2 :: connectionString :: rest ∧
      c = .zrem (guid2 ++ [hash] ++ connectionString) := by
  rw [visitMember] at hvisit
  split at hvisit
  · rename_i guid2 connectionString rest hsplit
    refine ⟨guid2, connectionString, rest, hsplit, ?_⟩
    split_ifs at hvisit
    · cases hvisit
      simp at hc
    · cases hvisit
      simp at hc
    · have hredis := congrArg Prod.snd (Except.ok.inj hvisit)
      subst hredis
      exact s.connectToAnotherProxy_redis now guid2 connectionString peer c hc
  · simp at hvisit

/-- A proxy tells Redis to delete members only, besides adding its own. -/
theorem Proxy.Step.redis_zrem (hstep : Proxy.Step s i out s') :
    ∀ c ∈ out.redis, ∃ member, c = .zrem member := by
  cases i with
  | visitMember now proxy peer =>
    obtain ⟨subs, proxies, redis, hvisit, -, rfl⟩ := hstep.of_visitMember
    intro c hc
    obtain ⟨guid2, connectionString, rest, -, hzrem⟩ := Proxy.visitMember_redis hvisit hc
    exact ⟨_, hzrem⟩
  | command now rand cmdReq key =>
    obtain ⟨subs, frames, -, -, rfl⟩ := hstep.of_command
    simp
  | request now connects cmdReq =>
    obtain ⟨subs, nodes, cmdResp, -, -, rfl⟩ := hstep.of_request
    simp
  | pingedRedis | killInactive | remoteRegistryHealthChecks | localRegistryHealthChecks
  | requestRegistryExchange | cleanUpResponsesMap | rehash =>
    cases hstep
    simp

/-- A known proxy was known before, or the member that the input visits names it, and it is
another proxy. -/
theorem Proxy.Step.known_cases (hstep : Proxy.Step s i out s') {g g' : Bytes}
    (hknown : s'.proxiesGuids.lookup g = some g') :
    s.proxiesGuids.lookup g = some g' ∨ ∃ now member peer, i = .visitMember now member peer ∧
      (split (cStr member) hash)[0]? = some g' ∧ g' ≠ s.guid := by
  by_cases hvisit : ∃ now member peer, i = .visitMember now member peer
  · obtain ⟨now, member, peer, rfl⟩ := hvisit
    obtain ⟨_, _, redis, hvisit, -, -⟩ := hstep.of_visitMember
    obtain rfl | ⟨guid2, _, _, hsplit, hne, -, rfl | ⟨_, -, -, -, rfl⟩⟩ :=
      Proxy.visitMember_cases hvisit
    · exact .inl hknown
    · rw [Dict.lookup_erase] at hknown
      split_ifs at hknown
      exact .inl hknown
    · rw [Dict.lookup_insert] at hknown
      split_ifs at hknown
      · obtain rfl := Option.some.inj hknown
        exact .inr ⟨now, member, peer, rfl, by rw [hsplit]; rfl, hne⟩
      · exact .inl hknown
  · left
    rwa [← hstep.sameIdentity.2 fun now member peer heq => hvisit ⟨now, member, peer, heq⟩]

end Proxies

/-- Deleting members adds none. -/
theorem RedisCommand.mem_of_mem_foldl {m : Bytes} : ∀ {cs : List RedisCommand}
    {members : List Bytes}, (∀ c ∈ cs, ∃ member, c = .zrem member) →
      m ∈ cs.foldl RedisCommand.apply members → m ∈ members
  | [], _, _, hm => hm
  | c :: cs, members, hcs, hm => by
      have hrest := mem_of_mem_foldl (fun c hc => hcs c (List.mem_cons_of_mem _ hc)) hm
      obtain ⟨member, rfl⟩ := hcs c List.mem_cons_self
      exact List.mem_of_mem_filter hrest

namespace Net

variable {ι : Type*} [DecidableEq ι] {roster : Roster ι} {net net' : Net ι} {act : Action ι}
  {frames : List Frame} {h : List (Transition (Net ι) (Action ι) (List Frame))}

variable (roster) in
/-- Where members and known guids come from: members name proxies of the network, and a proxy
knows other proxies of the network only. -/
structure Discovered (net : Net ι) : Prop where
  guid : ∀ a, (net.proxy a).guid = (roster.config a).guid
  redis : ∀ m ∈ net.redis, ∃ b, m = (roster.config b).member
  scan : ∀ a, ∀ m ∈ net.scan a, ∃ b, m = (roster.config b).member
  known : ∀ a g g', (net.proxy a).proxiesGuids.lookup g = some g' →
    ∃ b, b ≠ a ∧ g' = (roster.config b).guid

/-- An input keeps it, if the member that it may visit names a proxy of the network. -/
theorem Discovered.commit (hs : Discovered roster net) {a : ι} {i : Input} {s' : Proxy}
    {out : Output} (hstep : (net.proxy a).Step i out s')
    (hvisit : ∀ now member peer, i = .visitMember now member peer →
      ∃ b, member = (roster.config b).member) :
    Discovered roster (net.commit a s' out) := by
  constructor
  · intro b
    rw [commit_proxy]
    split_ifs with hab
    · subst hab
      rw [hstep.sameIdentity.1.guid, hs.guid b]
    · exact hs.guid b
  · exact fun m hm => hs.redis m (RedisCommand.mem_of_mem_foldl hstep.redis_zrem hm)
  · exact hs.scan
  · intro b g g' hknown
    rw [commit_proxy] at hknown
    split_ifs at hknown with hab
    · subst hab
      obtain hknown | ⟨now, member, peer, rfl, hguid, hne⟩ := hstep.known_cases hknown
      · exact hs.known b g g' hknown
      · obtain ⟨c, rfl⟩ := hvisit now member peer rfl
        rw [Config.split_member, List.getElem?_cons_zero, Option.some_inj] at hguid
        subst hguid
        refine ⟨c, ?_, rfl⟩
        rintro rfl
        exact hne (hs.guid c).symm
    · exact hs.known b g g' hknown

theorem Step.discovered (hstep : Step roster net act frames net') (hs : Discovered roster net)
    (hidentity : ∀ a, (Proxy.init (roster.config a)).SameIdentity (net.proxy a)) :
    Discovered roster net' := by
  cases hstep with
  | start => exact ⟨hs.guid, hs.redis, hs.scan, hs.known⟩
  | stop => exact ⟨hs.guid, hs.redis, hs.scan, hs.known⟩
  | send => exact ⟨hs.guid, hs.redis, hs.scan, hs.known⟩
  | lose => exact ⟨hs.guid, hs.redis, hs.scan, hs.known⟩
  | @deliver a f _ _ _ _ _ _ _ _ handled =>
    have hrest : Discovered roster { net with wire := net.wire.erase f } :=
      ⟨hs.guid, hs.redis, hs.scan, hs.known⟩
    exact hrest.commit handled (by simp)
  | overhear _ _ handled => exact hs.commit handled (by simp)
  | housekeep _ housekeeping handled =>
    refine hs.commit handled fun _ _ _ heq => ?_
    rw [heq] at housekeeping
    exact housekeeping.elim
  | greet _ handled => exact hs.commit handled (by simp)
  | @pingRedis a now members _ _ _ returned =>
    have hmember := (hidentity a).member_eq
    have hadded : ∀ m ∈ RedisCommand.apply net.redis (.zadd (int32 now) (net.proxy a).member),
        ∃ b, m = (roster.config b).member := by
      intro m hm
      rw [RedisCommand.apply, hmember] at hm
      split_ifs at hm
      · exact hs.redis m hm
      · rcases List.mem_append.mp hm with hm | hm
        · exact hs.redis m hm
        · exact ⟨a, List.mem_singleton.mp hm⟩
    refine ⟨hs.guid, hadded, fun b m hm => ?_, hs.known⟩
    simp only [Function.update_apply] at hm
    split_ifs at hm
    · exact hadded m (returned m hm)
    · exact hs.scan b m hm
  | @visit a _ _ _ _ member rest _ _ _ next _ handled =>
    have hrest : Discovered roster { net with scan := Function.update net.scan a rest } := by
      refine ⟨hs.guid, hs.redis, fun b m hm => ?_, hs.known⟩
      simp only [Function.update_apply] at hm
      split_ifs at hm with hab
      · exact hs.scan a m (next ▸ List.mem_cons_of_mem _ hm)
      · exact hs.scan b m hm
    refine hrest.commit handled fun _ _ _ heq => ?_
    cases heq
    exact hs.scan a member (next ▸ List.mem_cons_self)

/-- **Discovery stays in the network.** In every reachable state the members in Redis and in the
discovery loops name proxies of the network, and proxies know other proxies of it only. -/
theorem Run.discovered (run : Run roster h net) : Discovered roster net := by
  induction run with
  | nil =>
    exact ⟨fun _ => rfl, by simp [Net.init], by simp [Net.init], by simp [Net.init, Proxy.init]⟩
  | snoc run last ih => exact last.discovered ih fun a => Run.identity run a

end Net

end EsbProxy
