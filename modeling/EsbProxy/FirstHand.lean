import EsbProxy.Accounting
import EsbProxy.Discovery
import EsbProxy.RegistryEffects

/-!
# Remote knowledge is first hand

A proxy asks the proxies that it knows for their local registries, and files the answers in its
remote registry. It does not pass on what it learned in this way: an answer lists the local
methods of the proxy that answers, under its own guid. So whatever a remote registry holds was held
by the local registry of another proxy before, the one that the entry names.

The invariant speaks about the answers in flight as well: an answer lists methods that the proxy
that sent it has held, and is not addressed to that proxy.

## Main definitions

* `Net.Held`: a proxy had a method in its local registry at some moment of a run.
* `Net.FrameFirstHand`, `Net.RegistryFirstHand`: the invariants of frames and of registries.

## Main results

* `Net.Run.firstHand`: the invariants hold in every reachable state.
* `remote_entry_first_hand`: the origin of a remote entry.
-/

namespace EsbProxy

open Foundation

/-! ### What one proxy publishes in the exchange -/

/-- A command that belongs to the exchange of registries. -/
def Command.IsExchange (c : Command) : Prop :=
  c.cmd = .registryExchangeRequest ∨ c.cmd = .registryExchangeResponse

/-- The frame is a request of the proxy `s` for the registry of a proxy that it knows. -/
def IsRequestOf (s : Proxy) (f : Frame) : Prop :=
  f.command.cmd = .registryExchangeRequest ∧ f.command.sourceProxyGuid = s.guid ∧
    ∃ g g', s.proxiesGuids.lookup g = some g' ∧ f.topic = topicOf g' GUID_SIZE

/-- The frame answers the request `cmdReq` with the local registry of the proxy `s`. -/
def IsAnswerOf (s : Proxy) (cmdReq : Command) (f : Frame) : Prop :=
  f.command.cmd = .registryExchangeResponse ∧
    f.topic = topicOf cmdReq.sourceProxyGuid GUID_SIZE ∧
    ∀ entry ∈ f.command.regEntry, entry.proxyGuid = s.guid ∧
      ∃ e ∈ methodsOf s.localInvokeMethods entry.identifier, e.methodGuid = entry.methodGuid

/-- The answer to a request lists the local methods. -/
theorem Proxy.isAnswerOf_registryExchangeResponder (s : Proxy) (cmdReq : Command) :
    ∀ f ∈ s.registryExchangeResponder cmdReq, IsAnswerOf s cmdReq f := by
  intro f hf
  obtain rfl := List.mem_singleton.mp hf
  refine ⟨rfl, rfl, fun entry hentry => ?_⟩
  simp only [publish_command, List.mem_flatMap, List.mem_map] at hentry
  obtain ⟨it, hit, e, he, rfl⟩ := hentry
  refine ⟨rfl, e, ?_, rfl⟩
  have hlookup : s.localInvokeMethods.lookup it.1 = some it.2 := AList.mem_lookup_iff.mpr hit
  simpa only [methodsOf, RegistryEntry.identifier, Option.getD_some, hlookup] using he

/-- A frame that a proxy publishes is a request to a proxy that it knows, or answers the request
that it handles, or does not belong to the exchange. -/
theorem Proxy.Step.exchange_cases {s s' : Proxy} {i : Input} {out : Output}
    (hstep : Proxy.Step s i out s') : ∀ f ∈ out.frames, ¬ f.command.IsExchange ∨
      IsRequestOf s f ∨ ∃ now rand cmdReq key, i = .command now rand cmdReq key ∧
        cmdReq.cmd = .registryExchangeRequest ∧ IsAnswerOf s cmdReq f := by
  intro f hf
  have hpublication := hstep.publication
  generalize out.frames = frames at hpublication hf
  cases hpublication with
  | silent => simp at hf
  | @answered now rand cmdReq key call =>
    exact .inr (.inr ⟨now, rand, cmdReq, key, rfl, call,
      s.isAnswerOf_registryExchangeResponder cmdReq f hf⟩)
  | requested => exact .inr (.inl (Proxy.mem_requestRegistryExchange hf))
  | @relayed _ _ cmdReq _ reply targetNode =>
    left
    rw [List.mem_singleton.mp hf]
    change ¬ cmdReq.IsExchange
    rcases reply with hcmd | hcmd <;> simp [Command.IsExchange, hcmd]
  | _ =>
    left
    rw [List.mem_singleton.mp hf]
    simp [Command.IsExchange, Command.cmd, Proxy.routed, Proxy.notFound, Proxy.callbackNotFound,
      Proxy.pong, Proxy.event, Proxy.unknownCommand]

/-! ### Offers and their origin -/

namespace Net

variable {ι : Type*} [DecidableEq ι] {roster : Roster ι} {net net' : Net ι} {act : Action ι}
  {frames : List Frame} {h h' : List (Transition (Net ι) (Action ι) (List Frame))}
  {t : Transition (Net ι) (Action ι) (List Frame)}

/-- The proxy `b` had the method in its local registry at some moment of the run. -/
def Held (h : List (Transition (Net ι) (Action ι) (List Frame))) (b : ι) (i m : Bytes) : Prop :=
  ∃ t ∈ h, ∃ e ∈ methodsOf (t.pre.proxy b).localInvokeMethods i, e.methodGuid = m

variable (roster) in
/-- The offer names the proxy `b`, which had the method in its local registry. -/
def Backed (h : List (Transition (Net ι) (Action ι) (List Frame))) (b : ι) (k : Offer) : Prop :=
  k.ownerGuid = (roster.config b).guid ∧ Held h b k.identifier k.methodGuid

omit [DecidableEq ι] in
theorem Backed.mono {b : ι} {k : Offer} (hk : Backed roster h b k) (hsub : h ⊆ h') :
    Backed roster h' b k := by
  obtain ⟨howner, t, ht, hheld⟩ := hk
  exact ⟨howner, t, hsub ht, hheld⟩

variable (roster) in
/-- The command lists offers of the proxy `b` that `b` has backed. -/
def ListsBacked (h : List (Transition (Net ι) (Action ι) (List Frame))) (b : ι) (c : Command) :
    Prop :=
  ∀ entry ∈ c.regEntry, entry.offer.Clean ∧ Backed roster h b entry.offer

omit [DecidableEq ι] in
theorem ListsBacked.mono {b : ι} {c : Command} (hc : ListsBacked roster h b c) (hsub : h ⊆ h') :
    ListsBacked roster h' b c :=
  fun entry he => ⟨(hc entry he).1, (hc entry he).2.mono hsub⟩

variable (roster) in
/-- A frame in flight is first hand: a request is not addressed to its sender, and an answer is not
addressed to the proxy whose methods it lists. -/
structure FrameFirstHand (h : List (Transition (Net ι) (Action ι) (List Frame))) (f : Frame) :
    Prop where
  length_source : f.command.sourceProxyGuid.length = GUID_SIZE
  request : f.command.cmd = .registryExchangeRequest → f.topic ≠ f.command.sourceProxyGuid
  answer : f.command.cmd = .registryExchangeResponse →
    ∃ b, f.topic ≠ (roster.config b).guid ∧ ListsBacked roster h b f.command

variable (roster) in
/-- The remote registry of the proxy `a` is first hand: its entries name other proxies, which have
held the methods. -/
def RegistryFirstHand (h : List (Transition (Net ι) (Action ι) (List Frame))) (a : ι) (s : Proxy) :
    Prop :=
  s.remoteInvokeMethods.AllOffers fun k => ∃ b, b ≠ a ∧ Backed roster h b k

omit [DecidableEq ι] in
theorem RegistryFirstHand.mono {a : ι} {s : Proxy} (hs : RegistryFirstHand roster h a s)
    (hsub : h ⊆ h') : RegistryFirstHand roster h' a s := by
  refine Registry.AllOffers.mono hs ?_
  rintro k ⟨b, hne, hk⟩
  exact ⟨b, hne, hk.mono hsub⟩

omit [DecidableEq ι] in
/-- An input that brings a frame which is first hand, or an event, keeps the remote registry first
hand. -/
theorem RegistryFirstHand.step {a : ι} {s s' : Proxy} {i : Input} {out : Output}
    (hs : RegistryFirstHand roster h a s) (hstep : Proxy.Step s i out s')
    (hbrings : ∀ now rand cmdReq key, i = .command now rand cmdReq key →
      FrameFirstHand roster h ⟨(roster.config a).guid, cmdReq⟩ ∨ cmdReq.cmd = .publish) :
    RegistryFirstHand roster h a s' := by
  rw [RegistryFirstHand] at hs ⊢
  cases hstep.registryEffect with
  | same _ remote => exact hs.congr remote
  | registered _ _ remote => exact remote ▸ hs
  | @advertised now rand cmdReq key _ call _ remote =>
    obtain hfirst | hevent := hbrings now rand cmdReq key rfl
    · obtain ⟨b, htopic, hlists⟩ := hfirst.answer call
      have hne : b ≠ a := fun hab => htopic (by rw [hab])
      exact hs.updateEntries
        (fun entry he => ⟨(hlists entry he).1, b, hne, (hlists entry he).2⟩) remote
    · simp [call] at hevent
  | checkedLocal _ remote => exact remote ▸ hs
  | checkedRemote _ remote => exact remote ▸ hs.sweep _

omit [DecidableEq ι] in
/-- The answer of a proxy lists what the proxy holds. -/
theorem listsBacked_of_isAnswerOf {a : ι} {s : Proxy} {cmdReq : Command} {f : Frame}
    (hanswer : IsAnswerOf s cmdReq f) (hguid : s.guid = (roster.config a).guid)
    (hlocal : s.localInvokeMethods.WellFormed) (ht : t ∈ h) (hpre : t.pre.proxy a = s) :
    ListsBacked roster h a f.command := by
  intro entry hentry
  obtain ⟨howner, e, he, hm⟩ := hanswer.2.2 entry hentry
  obtain ⟨hzi, hzm, -⟩ := hlocal.clean _ e he
  rw [hlocal.keyed _ e he] at hzi
  rw [hm] at hzm
  have hzo : 0 ∉ entry.proxyGuid := by
    rw [howner, hguid]
    exact (roster.config a).zero_notMem_guid
  exact ⟨⟨hzi, hzm, hzo⟩, howner.trans hguid, t, ht, e, by rw [hpre]; exact he, hm⟩

omit [DecidableEq ι] in
/-- What a proxy publishes is first hand. -/
theorem frameFirstHand_of_step {a : ι} {s s' : Proxy} {i : Input} {out : Output}
    (hstep : Proxy.Step s i out s') (hguid : s.guid = (roster.config a).guid)
    (hknown : ∀ g g', s.proxiesGuids.lookup g = some g' →
      ∃ b, b ≠ a ∧ g' = (roster.config b).guid)
    (hlocal : s.localInvokeMethods.WellFormed)
    (hbrings : ∀ now rand cmdReq key, i = .command now rand cmdReq key →
      FrameFirstHand roster h ⟨(roster.config a).guid, cmdReq⟩ ∨ cmdReq.cmd = .publish)
    (ht : t ∈ h') (hpre : t.pre.proxy a = s) {f : Frame} (hf : f ∈ out.frames) :
    FrameFirstHand roster h' f := by
  have hsource := (hstep.published f hf).1.trans hguid
  refine ⟨hsource ▸ (roster.config a).length_guid, fun hcmd => ?_, fun hcmd => ?_⟩
  · obtain hnot | ⟨-, -, g, g', hlookup, htopic⟩ | ⟨_, _, _, _, -, -, hanswer⟩ :=
      hstep.exchange_cases f hf
    · exact absurd (.inl hcmd) hnot
    · obtain ⟨b, hne, rfl⟩ := hknown g g' hlookup
      rw [htopic, hsource, topicOf_eq_self (roster.config b).length_guid]
      exact fun heq => hne (roster.guid_injective heq)
    · exact absurd (hcmd.symm.trans hanswer.1) (by simp)
  · obtain hnot | hrequest | ⟨now, rand, cmdReq, key, rfl, hreq, hanswer⟩ :=
      hstep.exchange_cases f hf
    · exact absurd (.inr hcmd) hnot
    · exact absurd (hcmd.symm.trans hrequest.1) (by simp)
    · obtain hfirst | hevent := hbrings now rand cmdReq key rfl
      · refine ⟨a, ?_, listsBacked_of_isAnswerOf hanswer hguid hlocal ht hpre⟩
        rw [hanswer.2.1, topicOf_eq_self hfirst.length_source]
        exact (hfirst.request hreq).symm
      · simp [hreq] at hevent

/-- In every reachable state the local registries are well formed. -/
theorem Run.localWellFormed (run : Run roster h net) (a : ι) :
    (net.proxy a).localInvokeMethods.WellFormed :=
  Run.forall_proxy (I := fun _ s => s.localInvokeMethods.WellFormed)
    (fun _ => Registry.wellFormed_empty) (fun _ _ _ _ _ hstep => hstep.localWellFormed) run a

/-- **Remote knowledge is first hand.** In every reachable state the frames in flight and the remote
registries are first hand. -/
theorem Run.firstHand (run : Run roster h net) :
    (∀ f ∈ net.wire, FrameFirstHand roster h f) ∧
      ∀ a, RegistryFirstHand roster h a (net.proxy a) := by
  refine Run.assume_guarantee (fun h t f hf => ?_) (fun h t a s hs => ?_) (fun a i e he => ?_)
    (fun h node a cmdReq client => ?_) (fun h t before a i out s' hstep hs hbrings => ?_) run
  · refine ⟨hf.length_source, hf.request, fun hcmd => ?_⟩
    obtain ⟨b, htopic, hlists⟩ := hf.answer hcmd
    exact ⟨b, htopic, hlists.mono (List.subset_append_left ..)⟩
  · exact hs.mono (List.subset_append_left ..)
  · simp [Proxy.init, methodsOf] at he
  · refine ⟨client.source ▸ client.length_node, fun _ => ?_, fun hcmd => ?_⟩
    · exact fun heq => client.ne_guid a (client.source.symm.trans heq.symm)
    · exact absurd hcmd client.notAnswer
  · refine ⟨(hs.step hstep hbrings).mono (List.subset_append_left ..), fun f hf _ => ?_⟩
    exact frameFirstHand_of_step hstep (Run.guid_eq before a) ((Run.discovered before).known a)
      (Run.localWellFormed before a) hbrings (t := t) (by simp) rfl hf

/-- **Origin of a remote entry.** In every reachable state of a network, an entry of the remote
registry of a proxy does not name the proxy itself, but a proxy whose own local registry held, at
an earlier moment of the run, a method with the same identifier and method guid. -/
theorem remote_entry_first_hand (run : Run roster h net) (a : ι) (i : Bytes)
    {e : RemoteInvokeMethod} (he : e ∈ methodsOf (net.proxy a).remoteInvokeMethods i) :
    e.identifier = i ∧ e.proxyGuid ≠ (net.proxy a).guid ∧
      ∃ b, (roster.config b).guid = e.proxyGuid ∧ ∃ t ∈ h,
        ∃ method ∈ methodsOf (t.pre.proxy b).localInvokeMethods i,
          method.methodGuid = e.methodGuid := by
  obtain ⟨rfl, b, hne, howner, hheld⟩ := (Run.firstHand run).2 a i e he
  refine ⟨rfl, fun heq => ?_, b, howner.symm, hheld⟩
  rw [Run.guid_eq run a] at heq
  exact hne (roster.guid_injective (howner.symm.trans heq))

/-- A node registers a method with the second proxy at time 0, and the first proxy learns of it at
time 10. -/
def knownMethod : List (Action Site) :=
  let server := List.replicate GUID_SIZE 83
  let registration : Command :=
    { cmd? := some .registerInvoke
      sourceProxyGuid? := some server
      payload? := some (List.replicate GUID_SIZE 77)
      identifier? := some (ascii "add") }
  let request : Frame := publish (localhost.config .second).guid
    { cmd? := some .registryExchangeRequest
      sourceProxyGuid? := some (localhost.config .first).guid
      payload? := some (ascii "REGISTRY_EXCHANGE_REQUEST please :)") }
  let response : Frame := publish (localhost.config .first).guid
    { cmd? := some .registryExchangeResponse
      sourceProxyGuid? := some (localhost.config .second).guid
      payload? := some (ascii "here is my registry")
      regEntry :=
        [{ type? := some .invokeMethod
           identifier? := some (ascii "add")
           methodGuid? := some (List.replicate GUID_SIZE 77)
           proxyGuid? := some (localhost.config .second).guid }] }
  [.start .first, .start .second, .send server .second registration,
    .deliver .second ⟨(localhost.config .second).guid, registration⟩ 0 0 [],
    .pingRedis .second 2 [], .pingRedis .first 2 [(localhost.config .second).member],
    .visit .first 2 (some .second) true true,
    .housekeep .first (.requestRegistryExchange 10), .deliver .second request 10 0 [],
    .deliver .first response 10 0 []]

/-- After the run of `knownMethod` the first proxy has an entry that the second one has held. -/
theorem remote_entry_first_hand_knownMethod :
    ∃ h net, execute localhost knownMethod = some (h, net) ∧
      ∃ e : RemoteInvokeMethod, e ∈ methodsOf (net.proxy .first).remoteInvokeMethods (ascii "add") ∧
        e.proxyGuid ≠ (net.proxy .first).guid ∧ ∃ b, (localhost.config b).guid = e.proxyGuid ∧
          ∃ t ∈ h, ∃ method ∈ methodsOf (t.pre.proxy b).localInvokeMethods (ascii "add"),
            method.methodGuid = e.methodGuid := by
  have hsome : (execute localhost knownMethod).isSome := by decide
  obtain ⟨h, net, hrun, hentry⟩ : ∃ h net, execute localhost knownMethod = some (h, net) ∧
      methodsOf (net.proxy .first).remoteInvokeMethods (ascii "add") ≠ [] :=
    ⟨_, _, (Option.some_get hsome).symm, by decide⟩
  obtain ⟨e, he⟩ := List.exists_mem_of_ne_nil _ hentry
  have horigin := remote_entry_first_hand (run_execute hrun) .first (ascii "add") he
  exact ⟨h, net, hrun, e, he, horigin.2⟩

end Net

end EsbProxy
