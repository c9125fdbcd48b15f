import EsbProxy.Connections

/-!
# Where refusals go

A command that is unknown, or a reply that no pending call matches, is refused with an `ERROR`
towards its sender. The main loop takes the key under which the sender's subscriber is filed for
the sender's guid. A proxy is filed under its guid, but a node under the address of its
publisher, so the refusal reaches a node only if its guid happens to begin its address.

## Main definitions

* `Proxy.PeersFiled`: how subscribers are filed.
* `Proxy.Refuses`: the commands that are refused.

## Main results

* `Proxy.Run.peersFiled`: the invariant of the subscribers.
* `refusal_topic_iff`: when a refusal is published on the channel of its sender.
-/

namespace EsbProxy

open Foundation

variable {config : Config} {h : List (Transition Proxy Input Output)} {s s' : Proxy} {i : Input}
  {out : Output}

/-- A subscriber is filed under the guid of its peer, or under its address. -/
structure FiledUnder (key : Bytes) (sub : Subscriber) : Prop where
  zero_notMem_key : 0 ∉ key
  zero_notMem_targetGuid : 0 ∉ sub.targetGuid
  guid_or_address : key = sub.targetGuid ∨ sub.connectString = key.take 512

/-- All subscribers of a proxy are filed so. -/
def Proxy.PeersFiled (s : Proxy) : Prop :=
  ∀ key sub, s.subscribers.lookup key = some sub → FiledUnder key sub

/-! ### The subscribers over a run -/

/-- A connection that a hello makes is filed under its guid or under its address. -/
theorem Hello.Valid.filedUnder {hello : Hello} (hvalid : hello.Valid s) {sub : Subscriber}
    (hlink : sub.link = s.linkOf hello) : FiledUnder hello.key sub := by
  have htarget : sub.targetGuid = hello.guid :=
    (congrArg Link.targetGuid hlink).trans (hvalid.targetGuid_eq s)
  have hconnect : sub.connectString = hello.address.take 512 := by
    have haddress := congrArg Link.connectString hlink
    rwa [Proxy.linkOf, cStr_eq_self hvalid.zero_notMem_address] at haddress
  have hguid := hvalid.zero_notMem_guid
  cases hmaker : hello.maker with
  | node =>
    have hkey := hvalid.key_of_node hmaker
    exact ⟨hkey ▸ hvalid.zero_notMem_address, htarget ▸ hguid, .inr (hkey ▸ hconnect)⟩
  | proxy =>
    have hkey := hvalid.key_of_proxy hmaker
    exact ⟨hkey ▸ hguid, htarget ▸ hguid, .inl (hkey.trans htarget.symm)⟩

/-- A connection afterwards is one from before, with more filters, or that of a hello. -/
theorem Proxy.Step.peersFiled (hstep : Proxy.Step s i out s') (hs : s.PeersFiled) :
    s'.PeersFiled := by
  intro key sub hsub
  have hlink := hstep.connectionEffect.link_eq key
  rw [Proxy.link, hsub, Option.map_some] at hlink
  cases hsurvivor : s.survivor i key with
  | some link =>
    rw [hsurvivor, Option.some.injEq] at hlink
    obtain ⟨sub₀, hsub₀, rfl⟩ := Option.map_eq_some_iff.mp (Proxy.link_of_survivor hsurvivor)
    have htarget : sub.targetGuid = sub₀.targetGuid := congrArg Link.targetGuid hlink
    have hconnect : sub.connectString = sub₀.connectString := congrArg Link.connectString hlink
    obtain ⟨hkey, hguid, hfiled⟩ := hs key sub₀ hsub₀
    exact ⟨hkey, htarget ▸ hguid, by rw [htarget, hconnect]; exact hfiled⟩
  | none =>
    rw [hsurvivor] at hlink
    obtain ⟨hello, hgreets, hentered⟩ := Option.bind_eq_some_iff.mp hlink.symm
    split_ifs at hentered with hkey
    exact hkey ▸ (Proxy.valid_of_helloOf hgreets).filedUnder (Option.some.inj hentered).symm

/-- **How subscribers are filed.** In every state that a run reaches, a subscriber is filed under
the guid of its peer, or under its address. -/
theorem Proxy.Run.peersFiled (run : Proxy.Run config h s) : s.PeersFiled :=
  Trace.invariant (I := Proxy.PeersFiled) (fun key sub hsub => by simp [Proxy.init] at hsub)
    (fun _ _ _ _ hstep => Proxy.Step.peersFiled hstep) run

/-! ### The topics of refusals -/

/-- The proxy refuses the command: it is unknown, or a reply that no pending call matches. -/
def Proxy.Refuses (s : Proxy) (cmdReq : Command) : Prop :=
  cmdReq.cmd = .nodeHello ∨ cmdReq.cmd = .proxyHello ∨ cmdReq.cmd = .registerInvokeOk ∨
    cmdReq.IsReply ∧ cmdReq.guidTo ∉ s.invokeResponses

instance (s : Proxy) (cmdReq : Command) : Decidable (s.Refuses cmdReq) :=
  inferInstanceAs (Decidable (_ ∨ _ ∨ _ ∨ _ ∧ _))

/-- A refused command causes one `ERROR`, on the channel of the key of its sender. -/
theorem Proxy.Step.refusal {now : ℤ} {rand : ℕ} {cmdReq : Command} {key : Bytes}
    (hstep : Proxy.Step s (.command now rand cmdReq key) out s') (hrefuses : s.Refuses cmdReq) :
    ∃ c, out.frames = [publish key c] ∧ c.cmd = .error := by
  obtain ⟨subs, frames, -, hcall, rfl⟩ := hstep.of_command
  rw [Proxy.subscriberCallback] at hcall
  rcases hrefuses with hcmd | hcmd | hcmd | ⟨hcmd | hcmd, hmissing⟩ <;>
    simp only [hcmd] at hcall
  case inr.inr.inr.inl | inr.inr.inr.inr =>
    have hnone := AList.lookup_eq_none.mpr hmissing
    rw [Proxy.invokeResponse_of_none (s := { s with subscribers := subs }) hnone] at hcall
    cases hcall
    exact ⟨_, rfl, rfl⟩
  all_goals
    cases hcall
    exact ⟨_, rfl, rfl⟩

/-- **Where refusals go.** In every reachable state, the `ERROR` with which a command is refused
that came through the subscriber of a peer is published on the channel of that peer exactly when
the peer's guid has `GUID_SIZE` bytes, and it is filed under its guid, as a proxy is, or its guid
begins its own address. -/
theorem refusal_topic_iff (run : Proxy.Run config h s) (now : ℤ) (rand : ℕ) (cmdReq : Command)
    (key : Bytes) {sub : Subscriber} (hsub : s.subscribers.lookup key = some sub)
    (hstep : Proxy.Step s (.command now rand cmdReq key) out s') (hrefuses : s.Refuses cmdReq) :
    (∃ f, out.frames = [f] ∧ f.command.cmd = .error ∧ f.topic = sub.targetGuid) ↔
      sub.targetGuid.length = GUID_SIZE ∧
        (key = sub.targetGuid ∨ sub.targetGuid <+: sub.connectString) := by
  obtain ⟨hkey, hguid, hfiled⟩ := Proxy.Run.peersFiled run key sub hsub
  obtain ⟨c, hframes, hcmd⟩ := hstep.refusal hrefuses
  have htopic : (∃ f, out.frames = [f] ∧ f.command.cmd = .error ∧ f.topic = sub.targetGuid) ↔
      topicOf key GUID_SIZE = sub.targetGuid := by
    constructor
    · rintro ⟨f, hf, -, htopic⟩
      obtain rfl : publish key c = f := by simpa [hframes] using hf
      exact htopic
    · exact fun htopic => ⟨_, hframes, hcmd, htopic⟩
  rw [htopic, topicOf_eq_iff hguid]
  refine and_congr_right fun hlen => ⟨fun hbegins => ?_, ?_⟩
  · rcases hfiled with heq | haddress
    · exact .inl heq
    · refine .inr (haddress ▸ ?_)
      rw [List.prefix_iff_eq_take] at hbegins ⊢
      rw [List.take_take, hlen]
      rw [hlen] at hbegins
      exact hbegins
  · rintro (rfl | hbegins)
    · exact List.prefix_rfl
    · rcases hfiled with rfl | haddress
      · exact List.prefix_rfl
      · rw [haddress] at hbegins
        exact hbegins.trans (List.take_prefix _ _)

/-- A reply to a call that nobody made. -/
def strayReply : Command where
  cmd? := some .response
  sourceProxyGuid? := some (List.replicate GUID_SIZE 66)
  payload? := some []
  guidTo? := some (ascii "call")

/-- Another proxy answered a hello. -/
def proxyGreeted : List Input :=
  [.visitMember 0 (List.replicate GUID_SIZE 66 ++ ascii "#tcp://127.0.0.1:7771")
    { responderConnects := true
      reply := some { cmd? := some .response, payload? := some (ascii "tcp://127.0.0.1:7781") }
      publisherConnects := true }]

/-- The refusal of a stray reply from a proxy reaches that proxy. -/
theorem refusal_topic_proxyGreeted :
    ∃ h s out s', Proxy.execute (Config.ofSite .first 7770 7780) proxyGreeted = some (h, s) ∧
      Proxy.Step s (.command 1 0 strayReply (List.replicate GUID_SIZE 66)) out s' ∧
      ∃ f, out.frames = [f] ∧ f.command.cmd = .error ∧ f.topic = List.replicate GUID_SIZE 66 := by
  have hsome : (Proxy.execute (Config.ofSite .first 7770 7780) proxyGreeted).isSome := by decide
  have hrun := (Option.some_get hsome).symm
  refine ⟨_, _, _, _, hrun, rfl, ?_⟩
  exact (refusal_topic_iff (Proxy.run_execute hrun) 1 0 strayReply (List.replicate GUID_SIZE 66)
    rfl rfl (by decide)).mpr (by decide)

/-- A node said hello. -/
def nodeGreeted : List Input :=
  [.request 0 true
    { cmd? := some .nodeHello
      sourceProxyGuid? := some (List.replicate GUID_SIZE 83)
      payload? := some (List.replicate GUID_SIZE 83 ++ ascii "#tcp://127.0.0.1:7791") }]

/-- The refusal of a stray reply from a node is published on the channel `tcp://127.0.0.1:`. -/
theorem not_refusal_topic :
    ¬ ∀ (config : Config) (h : List (Transition Proxy Input Output)) (s s' : Proxy) (now : ℤ)
        (rand : ℕ) (cmdReq : Command) (key : Bytes) (sub : Subscriber) (out : Output),
      Proxy.Run config h s → s.subscribers.lookup key = some sub →
      Proxy.Step s (.command now rand cmdReq key) out s' → s.Refuses cmdReq →
      ∃ f, out.frames = [f] ∧ f.command.cmd = .error ∧ f.topic = sub.targetGuid := by
  intro claim
  have hsome : (Proxy.execute (Config.ofSite .first 7770 7780) nodeGreeted).isSome := by decide
  have hrun := (Option.some_get hsome).symm
  obtain ⟨f, hf, -, htopic⟩ := claim _ _ _ _ 1 0 strayReply (ascii "tcp://127.0.0.1:7791") _ _
    (Proxy.run_execute hrun) rfl rfl (by decide)
  obtain rfl := List.singleton_injective hf
  revert htopic
  decide

end EsbProxy
