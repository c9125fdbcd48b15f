import EsbProxy.RegistryEffects
import EsbProxy.Foundation.Lease

/-!
# The registries as tables of leases

A registered method is a lease: it is renewed by a registration, or by an advertisement of
another proxy, and runs out after ten, or five, seconds. The registries keep this law as long as
every offer agrees with the registry. Under that condition the entries left by a health check are
exactly the methods offered recently; a method guid that changes its owner breaks it.

## Main definitions

* `Advertises`, `Registers`: the offers in the inputs of a run.
* `AdvertisesSameProxy`, `RegistersSameNode`: the offers agree with the registry.

## Main results

* `obeys_remote`, `obeys_local`: what one input does to the leases.
* `remote_registry_recent`, `register_invoke_ok`: the laws of the two registries.
-/

namespace EsbProxy

open Foundation

variable {config : Config} {h : List (Transition Proxy Input Output)} {s s' : Proxy}
  {t : Transition Proxy Input Output} {i : Input} {out : Output}

/-! ### Leases -/

/-- A health check at `now` deletes a stamp that is older than `ttl`, unless the sum overflows. -/
theorem isStale_eq_false_iff {ttl now : ℤ} {e : InvokeMethod}
    (hnow : -2 ^ 31 ≤ now ∧ now < 2 ^ 31)
    (htime : -2 ^ 31 ≤ e.lastCheckTime + ttl ∧ e.lastCheckTime + ttl < 2 ^ 31) :
    Proxy.isStale ttl now e = false ↔ now ≤ e.lastCheckTime + ttl := by
  rw [Proxy.isStale, int32_eq_self hnow.1 hnow.2, int32_eq_self htime.1 htime.2,
    decide_eq_false_iff_not, not_lt]

/-- The stamps that a health check leaves. -/
theorem Registry.stamped_sweep {ttl now time : ℤ} {registry : Registry} {k : Offer}
    (hnow : -2 ^ 31 ≤ now ∧ now < 2 ^ 31)
    (hrange : registry.Stamped k time → -2 ^ 31 ≤ time + ttl ∧ time + ttl < 2 ^ 31) :
    Registry.Stamped (Dict.sweep (Proxy.isStale ttl now) registry) k time ↔
      registry.Stamped k time ∧ now ≤ time + ttl := by
  constructor
  · rintro ⟨e, he, hm, ho, rfl⟩
    rw [methodsOf_sweep, List.mem_filter, Bool.not_eq_true'] at he
    have hstamped : registry.Stamped k e.lastCheckTime := ⟨e, he.1, hm, ho, rfl⟩
    exact ⟨hstamped, (isStale_eq_false_iff hnow (hrange hstamped)).mp he.2⟩
  · rintro ⟨hstamped, hage⟩
    have htime := hrange hstamped
    obtain ⟨e, he, hm, ho, rfl⟩ := hstamped
    refine ⟨e, ?_, hm, ho, rfl⟩
    rw [methodsOf_sweep, List.mem_filter, Bool.not_eq_true']
    exact ⟨he, (isStale_eq_false_iff hnow htime).mpr hage⟩

/-- An entry for an offer is a stamp of it. -/
theorem Registry.exists_stamped {registry : Registry} {k : Offer} :
    (∃ time, registry.Stamped k time) ↔ ∃ e ∈ methodsOf registry k.identifier,
      e.methodGuid = k.methodGuid ∧ e.ownerGuid = k.ownerGuid := by
  constructor
  · rintro ⟨time, e, he, hm, ho, -⟩
    exact ⟨e, he, hm, ho⟩
  · rintro ⟨e, he, hm, ho⟩
    exact ⟨e.lastCheckTime, e, he, hm, ho, rfl⟩

/-- The transition handles a `REGISTRY_EXCHANGE_RESPONSE` at `time` that lists the offer. -/
def Advertises (t : Transition Proxy Input Output) (k : Offer) (time : ℤ) : Prop :=
  ∃ rand cmdReq key, t.action = .command time rand cmdReq key ∧
    cmdReq.cmd = .registryExchangeResponse ∧ ∃ entry ∈ cmdReq.regEntry, entry.offer = k

/-- The transition handles a `REGISTER_INVOKE` at `time` that makes the offer. -/
def Registers (t : Transition Proxy Input Output) (k : Offer) (time : ℤ) : Prop :=
  ∃ rand cmdReq key, t.action = .command time rand cmdReq key ∧
    cmdReq.cmd = .registerInvoke ∧ cmdReq.offer = k

/-- If the transition handles a `REGISTRY_EXCHANGE_RESPONSE`, the listed methods have no NULs,
and name the proxy that the remote registry, and the rest of the message, name for the same
method. -/
def AdvertisesSameProxy (t : Transition Proxy Input Output) : Prop :=
  match t.action with
  | .command _ _ cmdReq _ =>
    cmdReq.cmd = .registryExchangeResponse →
      (∀ entry ∈ cmdReq.regEntry,
        entry.offer.Clean ∧ t.pre.remoteInvokeMethods.Agrees entry.offer) ∧
      ∀ entry ∈ cmdReq.regEntry, ∀ entry' ∈ cmdReq.regEntry,
        entry'.identifier = entry.identifier → entry'.methodGuid = entry.methodGuid →
          entry'.proxyGuid = entry.proxyGuid
  | _ => True

instance (t : Transition Proxy Input Output) : Decidable (AdvertisesSameProxy t) :=
  match t with
  | ⟨_, .command _ _ _ _, _, _⟩ => inferInstanceAs (Decidable (_ → _ ∧ _))
  | ⟨_, .request _ _ _, _, _⟩ | ⟨_, .visitMember _ _ _, _, _⟩ | ⟨_, .pingedRedis _, _, _⟩
  | ⟨_, .killInactive _ _, _, _⟩ | ⟨_, .remoteRegistryHealthChecks _, _, _⟩
  | ⟨_, .localRegistryHealthChecks _, _, _⟩ | ⟨_, .requestRegistryExchange _, _, _⟩
  | ⟨_, .cleanUpResponsesMap _, _, _⟩ | ⟨_, .rehash _, _, _⟩ => inferInstanceAs (Decidable True)

/-- A registration has no NULs and comes from the node that the local registry names for the
method. -/
def Proxy.RegistersSameNode (s : Proxy) (cmdReq : Command) : Prop :=
  cmdReq.offer.Clean ∧ s.localInvokeMethods.Agrees cmdReq.offer

/-- If the transition handles a `REGISTER_INVOKE`, it comes from the node on file. -/
def RegistersSameNode (t : Transition Proxy Input Output) : Prop :=
  match t.action with
  | .command _ _ cmdReq _ => cmdReq.cmd = .registerInvoke → t.pre.RegistersSameNode cmdReq
  | _ => True

section Obeys

variable {ttl : ℤ} {table : Proxy → Registry}
  {renews : Transition Proxy Input Output → Offer → ℤ → Prop}

/-- A registry whose lists are unchanged keeps its leases. -/
private theorem obeys_of_methodsOf (quiet : ∀ k r, ¬ renews t k r)
    (same : ∀ j, methodsOf (table t.post) j = methodsOf (table t.pre) j) :
    Lease.Obeys ttl (fun s => (table s).Stamped) renews Input.clock t :=
  .of_same quiet fun k r => Registry.stamped_congr same k r

/-- A registry that a health check swept has lost leases that ran out. -/
private theorem obeys_of_sweep {now : ℤ} (quiet : ∀ k r, ¬ renews t k r)
    (hclock : t.action.clock = some now) (hnow : 0 ≤ now ∧ now < 2 ^ 31)
    (hstamps : ∀ k r, (table t.pre).Stamped k r → 0 ≤ r ∧ r + ttl < 2 ^ 31)
    (swept : table t.post = Dict.sweep (Proxy.isStale ttl now) (table t.pre)) :
    Lease.Obeys ttl (fun s => (table s).Stamped) renews Input.clock t := by
  constructor
  · exact fun hren => absurd hren (quiet _ _)
  · exact fun hren => absurd hren (quiet _ _)
  · rintro k r ⟨e, he, hm, ho, htime⟩
    rw [swept, methodsOf_sweep] at he
    exact .inr ⟨e, List.mem_of_mem_filter he, hm, ho, htime⟩
  · intro k r hk
    obtain ⟨hr, hr'⟩ := hstamps k r hk
    by_cases hage : now ≤ r + ttl
    · left
      rw [swept]
      exact (Registry.stamped_sweep ⟨by omega, hnow.2⟩ fun _ => ⟨by omega, hr'⟩).mpr ⟨hk, hage⟩
    · exact .inr (.inr ⟨now, hclock, by omega⟩)

end Obeys

/-- The remote registry treats its entries as leases of five seconds, as long as the listed
methods stay with the proxies on file. -/
theorem obeys_remote (hstep : Proxy.Step t.pre t.action t.out t.post)
    (hclock : ∀ now, t.action.clock = some now → 0 ≤ now ∧ now + Proxy.remoteTtl < 2 ^ 31)
    (hstamps : ∀ k r, t.pre.remoteInvokeMethods.Stamped k r →
      0 ≤ r ∧ r + Proxy.remoteTtl < 2 ^ 31)
    (hsame : AdvertisesSameProxy t) :
    Lease.Obeys Proxy.remoteTtl (fun s : Proxy => s.remoteInvokeMethods.Stamped) Advertises
      Input.clock t := by
  have heffect := hstep.registryEffect
  obtain ⟨pre, action, out, post⟩ := t
  dsimp only at heffect hclock hstamps
  cases heffect with
  | same loc remote other =>
    refine obeys_of_methodsOf (fun k r hadv => ?_) remote
    obtain ⟨rand, cmdReq, key, haction, hcmd, -⟩ := hadv
    exact (other r rand cmdReq key haction).2 hcmd
  | registered call loc remote =>
    refine obeys_of_methodsOf (fun k r hadv => ?_) fun j => by rw [remote]
    obtain ⟨rand, cmdReq, key, haction, hcmd, -⟩ := hadv
    cases haction
    simp [call] at hcmd
  | @advertised now rand cmdReq key _ call loc remote =>
    obtain ⟨hentries, hpairs⟩ := hsame call
    obtain ⟨hrenewed, horigin, hkept⟩ := Registry.stamped_updateEntries hentries hpairs remote
    have hnow : int32 now = now := by
      obtain ⟨hlower, hupper⟩ := hclock now rfl
      simp only [Proxy.remoteTtl] at hupper
      exact int32_eq_self (by omega) (by omega)
    constructor
    · rintro k r ⟨_, _, _, haction, -⟩
      cases haction
      rfl
    · rintro k r ⟨_, _, _, haction, -, entry, hentry, rfl⟩
      cases haction
      exact hnow ▸ hrenewed entry hentry
    · intro k r hk
      obtain ⟨⟨entry, hentry, rfl⟩, rfl⟩ | hpre := horigin k r hk
      · exact .inl ⟨rand, cmdReq, key, by rw [hnow], call, entry, hentry, rfl⟩
      · exact .inr hpre
    · intro k r hk
      obtain ⟨entry, hentry, rfl⟩ | hpost := hkept k r hk
      · exact .inr (.inl ⟨now, rand, cmdReq, key, rfl, call, entry, hentry, rfl⟩)
      · exact .inl hpost
  | checkedLocal loc remote =>
    refine obeys_of_methodsOf (fun k r hadv => ?_) fun j => by rw [remote]
    obtain ⟨rand, cmdReq, key, haction, -⟩ := hadv
    simp at haction
  | @checkedRemote now _ loc remote =>
    obtain ⟨hlower, hupper⟩ := hclock now rfl
    simp only [Proxy.remoteTtl] at hupper
    refine obeys_of_sweep (fun k r hadv => ?_) rfl ⟨hlower, by omega⟩ hstamps remote
    obtain ⟨rand, cmdReq, key, haction, -⟩ := hadv
    simp at haction

/-- The local registry treats its entries as leases of ten seconds, as long as the registered
methods stay with the nodes on file. -/
theorem obeys_local (hstep : Proxy.Step t.pre t.action t.out t.post)
    (hclock : ∀ now, t.action.clock = some now → 0 ≤ now ∧ now + Proxy.localTtl < 2 ^ 31)
    (hstamps : ∀ k r, t.pre.localInvokeMethods.Stamped k r →
      0 ≤ r ∧ r + Proxy.localTtl < 2 ^ 31)
    (hsame : RegistersSameNode t) :
    Lease.Obeys Proxy.localTtl (fun s : Proxy => s.localInvokeMethods.Stamped) Registers
      Input.clock t := by
  have heffect := hstep.registryEffect
  obtain ⟨pre, action, out, post⟩ := t
  dsimp only at heffect hclock hstamps
  cases heffect with
  | same loc remote other =>
    refine obeys_of_methodsOf (fun k r hreg => ?_) loc
    obtain ⟨rand, cmdReq, key, haction, hcmd, -⟩ := hreg
    exact (other r rand cmdReq key haction).1 hcmd
  | @registered now rand cmdReq key _ call loc remote =>
    obtain ⟨hclean, hagrees⟩ := hsame call
    have hlists := methodsOf_emplace pre.localInvokeMethods cmdReq.identifier
    have hopen := (Registry.agrees_congr hlists _).mpr hagrees
    have hnow : int32 now = now := by
      obtain ⟨hlower, hupper⟩ := hclock now rfl
      simp only [Proxy.localTtl] at hupper
      exact int32_eq_self (by omega) (by omega)
    rw [Proxy.registerInvoke_of_clean hclean] at loc
    constructor
    · rintro k r ⟨_, _, _, haction, -⟩
      cases haction
      rfl
    · rintro k r ⟨_, _, _, haction, -, rfl⟩
      cases haction
      have hstamped := Registry.stamped_fileMethod hopen now
      rwa [hnow, ← loc] at hstamped
    · intro k r hk
      rw [loc] at hk
      obtain ⟨rfl, rfl⟩ | hpre := Registry.stamped_of_fileMethod hopen hk
      · exact .inl ⟨rand, cmdReq, key, by rw [hnow], call, rfl⟩
      · exact .inr ((Registry.stamped_congr hlists k r).mp hpre)
    · intro k r hk
      obtain rfl | hpost := Registry.stamped_fileMethod_of_stamped hopen
        ((Registry.stamped_congr hlists k r).mpr hk) now
      · exact .inr (.inl ⟨now, rand, cmdReq, key, rfl, call, rfl⟩)
      · exact .inl (loc ▸ hpost)
  | advertised call loc remote =>
    refine obeys_of_methodsOf (fun k r hreg => ?_) fun j => by rw [loc]
    obtain ⟨rand, cmdReq, key, haction, hcmd, -⟩ := hreg
    cases haction
    simp [call] at hcmd
  | @checkedLocal now _ loc =>
    obtain ⟨hlower, hupper⟩ := hclock now rfl
    simp only [Proxy.localTtl] at hupper
    refine obeys_of_sweep (fun k r hreg => ?_) rfl ⟨hlower, by omega⟩ hstamps loc
    obtain ⟨rand, cmdReq, key, haction, -⟩ := hreg
    simp at haction
  | checkedRemote loc =>
    refine obeys_of_methodsOf (fun k r hreg => ?_) fun j => by rw [loc]
    obtain ⟨rand, cmdReq, key, haction, -⟩ := hreg
    simp at haction

/-- Along a run whose transitions meet `P`, all of them treat a registry's entries as leases. The
stamps stay in the range of the clock, since all of them are clock values. -/
private theorem obeys_of_run {ttl : ℤ} {table : Proxy → Registry}
    {renews : Transition Proxy Input Output → Offer → ℤ → Prop}
    {P : Transition Proxy Input Output → Prop}
    (hobeys : ∀ t, Proxy.Step t.pre t.action t.out t.post →
      (∀ now, t.action.clock = some now → 0 ≤ now ∧ now + ttl < 2 ^ 31) →
      (∀ k r, (table t.pre).Stamped k r → 0 ≤ r ∧ r + ttl < 2 ^ 31) → P t →
      Lease.Obeys ttl (fun s => (table s).Stamped) renews Input.clock t)
    (init : ∀ k r, ¬ (table (Proxy.init config)).Stamped k r) (run : Proxy.Run config h s)
    (below : ClocksBelow ttl h) (hP : ∀ t ∈ h, P t) (t : Transition Proxy Input Output)
    (ht : t ∈ h) : Lease.Obeys ttl (fun s => (table s).Stamped) renews Input.clock t := by
  obtain ⟨h₁, h₂, rfl⟩ := List.append_of_mem ht
  obtain ⟨before, hstep, -⟩ := run.split_cons
  refine hobeys t hstep (below t ht) ?_ (hP t ht)
  refine Trace.invariant_of_forall
    (I := fun s => ∀ k r, (table s).Stamped k r → 0 ≤ r ∧ r + ttl < 2 ^ 31)
    (P := fun t => t ∈ h₁) (fun k r hk => absurd hk (init k r)) ?_ before fun t ht => ht
  intro u hu hmem hstamps k r hk
  have hclock := below u (List.mem_append_left _ hmem)
  have hlaw := hobeys u hu hclock hstamps (hP u (List.mem_append_left _ hmem))
  rcases hlaw.origin hk with hren | hpre
  · exact hclock r (hlaw.clock_of_renews hren)
  · exact hstamps k r hpre

private theorem not_stamped_empty (k : Offer) (r : ℤ) : ¬ Registry.Stamped ∅ k r := by
  rintro ⟨e, he, -⟩
  simp [methodsOf] at he

private theorem range_of_obeys {ttl : ℤ} (httl : 0 ≤ ttl) {table : Proxy → Registry}
    {renews : Transition Proxy Input Output → Offer → ℤ → Prop} (run : Proxy.Run config h s)
    (hobeys : ∀ t ∈ h, Lease.Obeys ttl (fun s => (table s).Stamped) renews Input.clock t)
    (init : ∀ k r, ¬ (table (Proxy.init config)).Stamped k r) (below : ClocksBelow ttl h)
    (k : Offer) (r : ℤ) (hstamped : (table s).Stamped k r) :
    -2 ^ 31 ≤ r + ttl ∧ r + ttl < 2 ^ 31 := by
  obtain ⟨t, ht, hren⟩ := Lease.exists_renewal run hobeys init hstamped
  obtain ⟨hlower, hupper⟩ := below t ht r ((hobeys t ht).clock_of_renews hren)
  exact ⟨by omega, hupper⟩

/-- **Leases and health checks.** In a run whose clock never goes backwards and whose transitions
treat the entries of a registry as leases, a health check at `now` leaves an entry for exactly
those offers that were confirmed at most `ttl` seconds before. -/
private theorem exists_stamped_sweep_iff {ttl : ℤ} (httl : 0 ≤ ttl) {table : Proxy → Registry}
    {renews : Transition Proxy Input Output → Offer → ℤ → Prop}
    (run : Proxy.Run config h s)
    (hobeys : ∀ t ∈ h, Lease.Obeys ttl (fun s => (table s).Stamped) renews Input.clock t)
    (init : ∀ k r, ¬ (table (Proxy.init config)).Stamped k r) (below : ClocksBelow ttl h)
    (mono : (clocks h).Pairwise (· ≤ ·)) {now : ℤ} (latest : ∀ c ∈ clocks h, c ≤ now)
    (hnow : 0 ≤ now ∧ now < 2 ^ 31) (k : Offer) :
    (∃ r, Registry.Stamped (Dict.sweep (Proxy.isStale ttl now) (table s)) k r) ↔
      ∃ t ∈ h, ∃ r, renews t k r ∧ now - r ≤ ttl := by
  refine Iff.trans (exists_congr fun r => ?_)
    (Lease.exists_stamp_iff run hobeys init mono latest k)
  exact Registry.stamped_sweep ⟨by omega, hnow.2⟩ (range_of_obeys httl run hobeys init below k r)

/-! ### The law of the remote registry -/

/-- **Remote methods are those advertised recently.** In a run whose clock never goes backwards
and in which no method guid is advertised for another proxy than the one on file, the entries
that a health check at `now` leaves are exactly those advertised at most five seconds before. -/
theorem remote_registry_recent (run : Proxy.Run config h s) (below : ClocksBelow 5 h)
    (mono : (clocks h).Pairwise (· ≤ ·)) {now : ℤ} (latest : ∀ c ∈ clocks h, c ≤ now)
    (hnow : 0 ≤ now ∧ now < 2 ^ 31) (hsame : ∀ t ∈ h, AdvertisesSameProxy t)
    (identifier methodGuid proxyGuid : Bytes) :
    (∃ e ∈ methodsOf (s.remoteRegistryHealthChecks now).remoteInvokeMethods identifier,
        e.methodGuid = methodGuid ∧ RemoteInvokeMethod.proxyGuid e = proxyGuid) ↔
      ∃ t ∈ h, ∃ time, Advertises t ⟨identifier, methodGuid, proxyGuid⟩ time ∧
        now - time ≤ 5 := by
  have hobeys := obeys_of_run (fun _ => obeys_remote) not_stamped_empty run below hsame
  have hlease := exists_stamped_sweep_iff (by decide) run hobeys not_stamped_empty below mono
    latest hnow ⟨identifier, methodGuid, proxyGuid⟩
  exact Registry.exists_stamped.symm.trans hlease

/-- The answer of a proxy that serves one method. -/
def advertisement (proxyGuid : Bytes) : Command where
  cmd? := some .registryExchangeResponse
  sourceProxyGuid? := some proxyGuid
  payload? := some (ascii "here is my registry")
  regEntry :=
    [{ type? := some .invokeMethod
       identifier? := some (ascii "add")
       methodGuid? := some (List.replicate GUID_SIZE 77)
       proxyGuid? := some proxyGuid }]

/-- A proxy advertises a method, and keeps advertising it. -/
def advertised : List Input :=
  let proxyGuid := List.replicate GUID_SIZE 66
  [.command 0 0 (advertisement proxyGuid) proxyGuid,
    .command 4 0 (advertisement proxyGuid) proxyGuid]

/-- In the run of `advertised` the method is kept at time 9. -/
theorem remote_registry_recent_advertised :
    ∃ h s, Proxy.execute (Config.ofSite .first 7770 7780) advertised = some (h, s) ∧
      ∃ e ∈ methodsOf (s.remoteRegistryHealthChecks 9).remoteInvokeMethods (ascii "add"),
        e.methodGuid = List.replicate GUID_SIZE 77 ∧
          RemoteInvokeMethod.proxyGuid e = List.replicate GUID_SIZE 66 := by
  have hsome : (Proxy.execute (Config.ofSite .first 7770 7780) advertised).isSome := by decide
  have hrun := (Option.some_get hsome).symm
  refine ⟨_, _, hrun, (remote_registry_recent (Proxy.run_execute hrun) ?_ ?_ ?_ (by decide)
    (by decide) _ _ _).mpr ?_⟩
  · refine clocksBelow_of_clocks ?_
    rw [clocks_of_execute hrun]
    decide
  · rw [clocks_of_execute hrun]
    decide
  · rw [clocks_of_execute hrun]
    decide
  · obtain ⟨t, ht, haction⟩ := mem_of_execute hrun (List.getElem_mem (n := 1) (by decide))
    exact ⟨t, ht, 4, ⟨0, _, _, haction, rfl, _, List.mem_singleton_self _, rfl⟩, by decide⟩

/-- A node that served a method through one proxy reconnects to another one, which advertises the
method from then on. -/
def reconnected : List Input :=
  let former := List.replicate GUID_SIZE 66
  let current := List.replicate GUID_SIZE 67
  [.command 0 0 (advertisement former) former,
    .command 4 0 (advertisement current) current,
    .command 8 0 (advertisement current) current]

/-- In the run of `reconnected` a health check at time 9 leaves no entry for the proxy that
advertised the method last, one second before. -/
theorem not_remote_registry_recent :
    ¬ ∀ (config : Config) (h : List (Transition Proxy Input Output)) (s : Proxy) (now : ℤ),
      Proxy.Run config h s → ClocksBelow 5 h → (clocks h).Pairwise (· ≤ ·) →
      (∀ c ∈ clocks h, c ≤ now) → 0 ≤ now ∧ now < 2 ^ 31 →
      ∀ identifier methodGuid proxyGuid,
        (∃ e ∈ methodsOf (s.remoteRegistryHealthChecks now).remoteInvokeMethods identifier,
            e.methodGuid = methodGuid ∧ RemoteInvokeMethod.proxyGuid e = proxyGuid) ↔
          ∃ t ∈ h, ∃ time, Advertises t ⟨identifier, methodGuid, proxyGuid⟩ time ∧
            now - time ≤ 5 := by
  intro claim
  have hsome : (Proxy.execute (Config.ofSite .first 7770 7780) reconnected).isSome := by decide
  have hrun := (Option.some_get hsome).symm
  have hentry := (claim _ _ _ 9 (Proxy.run_execute hrun) ?_ ?_ ?_ (by decide) (ascii "add")
    (List.replicate GUID_SIZE 77) (List.replicate GUID_SIZE 67)).mpr ?_
  · revert hentry
    decide
  · refine clocksBelow_of_clocks ?_
    rw [clocks_of_execute hrun]
    decide
  · rw [clocks_of_execute hrun]
    decide
  · rw [clocks_of_execute hrun]
    decide
  · obtain ⟨t, ht, haction⟩ := mem_of_execute hrun (List.getElem_mem (n := 2) (by decide))
    exact ⟨t, ht, 8, ⟨0, _, _, haction, rfl, _, List.mem_singleton_self _, rfl⟩, by decide⟩

/-! ### The law of the local registry -/

/-- A registration is confirmed: the registry has an entry for the offer with the current time,
and a call that picks the method is published to the node. -/
def Proxy.Confirms (s : Proxy) (now : ℤ) (k : Offer) : Prop :=
  (∃ e ∈ methodsOf s.localInvokeMethods k.identifier, e.methodGuid = k.methodGuid ∧
    LocalInvokeMethod.nodeGuid e = k.ownerGuid ∧ e.lastCheckTime = int32 now) ∧
  ∀ later rand (call : Command) entry, call.identifier = k.identifier →
    pick rand (methodsOf s.localInvokeMethods k.identifier) = some entry →
    entry.methodGuid = k.methodGuid →
    (s.invoke later rand call).2 = [publish k.ownerGuid (s.routed call entry)]

/-- The entries under one identifier are told apart by their method guids. -/
theorem Registry.Distinct.eq_of_methodGuid {registry : Registry} (hdistinct : registry.Distinct)
    {i : Bytes} {x y : InvokeMethod} (hx : x ∈ methodsOf registry i)
    (hy : y ∈ methodsOf registry i) (hm : x.methodGuid = y.methodGuid) : x = y :=
  List.inj_on_of_nodup_map (hdistinct i) hx hy hm

/-- A call that picks a local method is published to its node. -/
theorem Proxy.invoke_frames_of_pick {later : ℤ} {rand : ℕ} {call : Command} {entry : InvokeMethod}
    (hpick : pick rand (methodsOf s.localInvokeMethods call.identifier) = some entry) :
    (s.invoke later rand call).2 = [publish entry.ownerGuid (s.routed call entry)] := by
  obtain ⟨registryL, registryR, -, -, ⟨e, -, he, heq⟩ | ⟨hnil, -⟩⟩ :=
    Proxy.invoke_cases later rand call s
  · obtain rfl : e = entry := Option.some.inj (he.symm.trans hpick)
    rw [heq]
  · rw [hnil] at hpick
    simp [pick] at hpick

/-- **When a registration is confirmed.** After a `REGISTER_INVOKE` the offer is confirmed exactly
when it has no NULs and comes from the node on file for the method. -/
theorem Proxy.confirms_registerInvoke_iff (hs : s.localInvokeMethods.WellFormed)
    {cmdReq : Command} (hi : 0 ∉ cmdReq.identifier) (now : ℤ) :
    (s.registerInvoke now cmdReq).1.Confirms now cmdReq.offer ↔ s.RegistersSameNode cmdReq := by
  have hs' := hs.registerInvoke now cmdReq
  have hlists := methodsOf_emplace s.localInvokeMethods cmdReq.identifier
  constructor
  · rintro ⟨⟨e, he, hm, ho, -⟩, -⟩
    have hclean : cmdReq.offer.Clean := by
      obtain ⟨-, hzm, hzo⟩ := hs'.clean _ e he
      rw [hm] at hzm
      rw [show e.ownerGuid = cmdReq.offer.ownerGuid from ho] at hzo
      exact ⟨hi, hzm, hzo⟩
    refine ⟨hclean, fun y hy hym => ?_⟩
    rw [Proxy.registerInvoke_of_clean hclean] at hs' he
    -- the entry on file was refreshed, and it is the one that names the node
    rcases filed_or_refreshed now (cmdReq.offer.method now)
      (s.localInvokeMethods.emplace cmdReq.identifier []) with
      ⟨x, hx, hxm, hrefreshed⟩ | ⟨hnone, -⟩
    · have hxe : { x with lastCheckTime := int32 now } = e :=
        hs'.distinct.eq_of_methodGuid hrefreshed he (hxm.trans hm.symm)
      rw [hlists] at hx
      have hyx : y = x := hs.distinct.eq_of_methodGuid hy hx (hym.trans hxm.symm)
      rw [hyx]
      exact (congrArg InvokeMethod.ownerGuid hxe).trans ho
    · exact absurd hym (hnone y (by rw [hlists]; exact hy))
  · rintro ⟨hclean, hagrees⟩
    have hopen := (Registry.agrees_congr hlists _).mpr hagrees
    have hstamped := Registry.stamped_fileMethod hopen now
    rw [← Proxy.registerInvoke_of_clean hclean] at hstamped
    obtain ⟨e, he, hm, ho, htime⟩ := hstamped
    refine ⟨⟨e, he, hm, ho, htime⟩, fun later rand call entry hcall hpick hentry => ?_⟩
    have heq : entry = e :=
      hs'.distinct.eq_of_methodGuid (mem_of_pick hpick) he (hentry.trans hm.symm)
    rw [← hcall] at hpick
    rw [Proxy.invoke_frames_of_pick hpick, heq, ho]

/-- **A confirmed registration.** In every reachable state a `REGISTER_INVOKE` without NUL in its
identifier that is acknowledged on its node's channel is confirmed exactly when it comes from the
node on file for the method; and in a run in which all registrations do, every entry that a
health check leaves was registered by its own node in the last ten seconds. -/
theorem register_invoke_ok (run : Proxy.Run config h s) :
    (∀ now rand cmdReq key out s', Proxy.Step s (.command now rand cmdReq key) out s' →
      cmdReq.cmd = .registerInvoke → 0 ∉ cmdReq.identifier →
      cmdReq.payload.length = GUID_SIZE → cmdReq.sourceProxyGuid.length = GUID_SIZE →
      (((∃ f ∈ out.frames, f.topic = cmdReq.sourceProxyGuid ∧
          f.command.cmd = .registerInvokeOk) → s'.Confirms now cmdReq.offer) ↔
        s.RegistersSameNode cmdReq)) ∧
    (ClocksBelow 10 h → (∀ t ∈ h, RegistersSameNode t) →
      ∀ now, 0 ≤ now ∧ now < 2 ^ 31 → (∀ c ∈ clocks h, c ≤ now) →
      ∀ identifier, ∀ e ∈ methodsOf (s.localRegistryHealthChecks now).localInvokeMethods identifier,
        ∃ t ∈ h, ∃ time,
          Registers t ⟨identifier, e.methodGuid, LocalInvokeMethod.nodeGuid e⟩ time ∧
            time ≤ now ∧ now - time ≤ 10) := by
  refine ⟨fun now rand cmdReq key out s' hstep hcmd hi hm hn => ?_, ?_⟩
  · obtain ⟨subs, frames, -, hcall, rfl⟩ := hstep.of_command
    rw [Proxy.subscriberCallback] at hcall
    simp only [hcmd] at hcall
    cases hcall
    have hs : s.localInvokeMethods.WellFormed := Proxy.Run.localWellFormed run
    have hiff := Proxy.confirms_registerInvoke_iff (s := { s with subscribers := subs }) hs hi now
    refine Iff.trans ⟨fun himp => ?_, fun hconf _ => hconf⟩ hiff
    exact himp ⟨_, List.mem_singleton_self _, topicOf_eq_self hn, rfl⟩
  · intro below hsame now hnow latest identifier e he
    have hobeys := obeys_of_run (fun _ => obeys_local) not_stamped_empty run below hsame
    have hswept : Registry.Stamped (s.localRegistryHealthChecks now).localInvokeMethods
        ⟨identifier, e.methodGuid, e.ownerGuid⟩ e.lastCheckTime := ⟨e, he, rfl, rfl, rfl⟩
    have hinRange := range_of_obeys (by decide) run hobeys not_stamped_empty below
    obtain ⟨hstamped, hage⟩ :=
      (Registry.stamped_sweep ⟨by omega, hnow.2⟩ (hinRange _ _)).mp hswept
    obtain ⟨t, ht, hreg⟩ := Lease.exists_renewal run hobeys not_stamped_empty hstamped
    have hle := latest _ (List.mem_filterMap.mpr ⟨t, ht, (hobeys t ht).clock_of_renews hreg⟩)
    simp only [Proxy.localTtl] at hage
    exact ⟨t, ht, e.lastCheckTime, hreg, hle, by omega⟩

/-- A node registers a method. -/
def registration (nodeGuid : Bytes) : Command where
  cmd? := some .registerInvoke
  sourceProxyGuid? := some nodeGuid
  payload? := some (List.replicate GUID_SIZE 77)
  identifier? := some (ascii "add")

/-- A node registers a method and registers it again. -/
theorem register_invoke_ok_again :
    ∃ h s out s', Proxy.execute (Config.ofSite .first 7770 7780)
        [.command 0 0 (registration (List.replicate GUID_SIZE 83)) []] = some (h, s) ∧
      Proxy.Step s (.command 4 0 (registration (List.replicate GUID_SIZE 83)) []) out s' ∧
      s'.Confirms 4 (registration (List.replicate GUID_SIZE 83)).offer := by
  have hsome : (Proxy.execute (Config.ofSite .first 7770 7780)
    [.command 0 0 (registration (List.replicate GUID_SIZE 83)) []]).isSome := by decide
  have hrun := (Option.some_get hsome).symm
  refine ⟨_, _, _, _, hrun, rfl, ?_⟩
  refine ((register_invoke_ok (Proxy.run_execute hrun)).1 4 0
    (registration (List.replicate GUID_SIZE 83)) [] _ _ rfl rfl (by decide) (by decide)
    (by decide)).mpr ?_ ?_
  · exact ⟨by decide, by decide⟩
  · exact ⟨_, List.mem_singleton_self _, by decide, rfl⟩

/-- A node that reconnected under another guid registers its method again: the registration is
acknowledged to it, but calls go on to be published to the former guid. -/
theorem not_register_invoke_ok :
    ¬ ∀ (config : Config) (h : List (Transition Proxy Input Output)) (s : Proxy) (now : ℤ)
        (rand : ℕ) (cmdReq : Command) (key : Bytes) (out : Output) (s' : Proxy),
      Proxy.Run config h s → Proxy.Step s (.command now rand cmdReq key) out s' →
      cmdReq.cmd = .registerInvoke → 0 ∉ cmdReq.identifier →
      cmdReq.payload.length = GUID_SIZE → cmdReq.sourceProxyGuid.length = GUID_SIZE →
      (∃ f ∈ out.frames, f.topic = cmdReq.sourceProxyGuid ∧
        f.command.cmd = .registerInvokeOk) → s'.Confirms now cmdReq.offer := by
  intro claim
  have hsome : (Proxy.execute (Config.ofSite .first 7770 7780)
    [.command 0 0 (registration (List.replicate GUID_SIZE 83)) []]).isSome := by decide
  have hrun := (Option.some_get hsome).symm
  have hconfirms := claim _ _ _ 1 0 (registration (List.replicate GUID_SIZE 84)) [] _ _
    (Proxy.run_execute hrun) rfl rfl (by decide) (by decide) (by decide)
    ⟨_, List.mem_singleton_self _, by decide, rfl⟩
  have hentry := hconfirms.1
  revert hentry
  decide

end EsbProxy
