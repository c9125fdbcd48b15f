import EsbProxy.Transport

/-!
# Required fields

The receiver of a command rejects it when a field is missing that `command.proto` marks as
required. What a proxy publishes, and the hello that it says to other proxies, has all of them.
The reply of its responder has all of them unless the request is an `ERROR`: that case sets
neither a command number nor a payload. `Responder::Poll` does not look at the result of the
parse, and a command whose number was not parsed counts as an `ERROR`, so malformed requests
get such a reply too.

## Main definitions

* `Accepted`: no required field is missing, and the receiver's parse succeeds.
* `Output.sent`, `Proxy.responderPoll`.

## Main results

* `Proxy.parse_reply_iff`: the replies in which no required field is missing.
* `Proxy.Run.accepted_iff`: the commands of a run that are accepted.
-/

namespace EsbProxy

open Foundation

/-- No required field is missing, and the receiver's parse succeeds. -/
def Accepted (codec : Codec) (c : Command) : Prop :=
  c.IsInitialized ∧ (codec.parse (codec.serialize c)).2 = true

/-- The commands that an input makes a proxy send to nodes and proxies. -/
def Output.sent (out : Output) : List Command := out.frames.map Frame.command ++ out.reply.toList

/-- `Responder::Poll` on the bytes of a request: the bytes of the reply. Whether the parse of the
request succeeded does not matter. -/
def Proxy.responderPoll (codec : Codec) (now : ℤ) (connects : Bool) (msg : Bytes) (s : Proxy) :
    Except Fault (Proxy × Option Bytes) :=
  if msg.length < 1 then .ok (s, none)
  else
    match s.responderCallback now connects (codec.parse msg).1 with
    | .ok (s', cmdResp) => .ok (s', some (codec.serialize cmdResp))
    | .error fault => .error fault

theorem parse_serialize_iff {c : Command} (hfits : c.Fits) (codec : Codec) :
    (codec.parse (codec.serialize c)).2 = true ↔ c.IsInitialized := by
  rw [codec.parse_serialize c hfits, decide_eq_true_iff]

theorem Command.Sendable.accepted {c : Command} (hc : c.Sendable) (codec : Codec) :
    Accepted codec c :=
  ⟨hc.isInitialized, (parse_serialize_iff hc.fits codec).mpr hc.isInitialized⟩

variable {config : Config} {h : List (Transition Proxy Input Output)} {s s' : Proxy}

/-- What the responder fills in makes a reply of one with a command number and a payload. -/
theorem Proxy.sendable_replied {cmdResp : Command} (hcmd : cmdResp.cmd?.isSome)
    (hpayload : cmdResp.payload?.isSome) (hentries : cmdResp.regEntry = [])
    (hrecursion : cmdResp.recursion? = none) (htarget : cmdResp.targetProxyGuid? = none)
    (cmdReq : Command) : (s.replied cmdReq cmdResp).Sendable :=
  .of_required hcmd rfl hpayload hentries (.inl hrecursion) htarget

/-- **Replies of the responder.** The reply to an `ERROR` misses required fields, every other
reply can be sent. -/
theorem Proxy.reply_cases {now : ℤ} {connects : Bool} {cmdReq cmdResp : Command}
    (hcall : s.responderCallback now connects cmdReq = .ok (s', cmdResp)) :
    cmdReq.cmd = .error ∧ cmdResp = s.replied cmdReq {} ∨
      cmdReq.cmd ≠ .error ∧ cmdResp.Sendable := by
  rw [responderCallback] at hcall
  split at hcall
  · rename_i hcmd
    right
    split at hcall
    · rename_i s'' reply hhello
      cases hcall
      refine ⟨by simp [hcmd], ?_⟩
      simp only [nodeHello] at hhello
      split at hhello
      · split_ifs at hhello
        · cases hhello
          exact sendable_replied rfl rfl rfl rfl rfl cmdReq
        · cases hhello
          exact sendable_replied rfl rfl rfl rfl rfl cmdReq
      · simp at hhello
    · simp at hcall
  · rename_i hcmd
    cases hcall
    exact .inr ⟨by simp [hcmd], sendable_replied rfl rfl rfl rfl rfl cmdReq⟩
  · rename_i hcmd
    cases hcall
    exact .inl ⟨hcmd, rfl⟩
  · rename_i hother
    cases hcall
    exact .inr ⟨hother, sendable_replied rfl rfl rfl rfl rfl cmdReq⟩

/-- A receiver parses a reply exactly when the request is not an `ERROR`, and then no required
field is missing. -/
theorem Proxy.parse_reply_iff {now : ℤ} {connects : Bool} {cmdReq cmdResp : Command}
    (hcall : s.responderCallback now connects cmdReq = .ok (s', cmdResp)) (codec : Codec) :
    ((codec.parse (codec.serialize cmdResp)).2 = true ↔ cmdReq.cmd ≠ .error) ∧
      (Accepted codec cmdResp ↔ cmdReq.cmd ≠ .error) := by
  obtain ⟨herror, rfl⟩ | ⟨hother, hsendable⟩ := Proxy.reply_cases hcall
  · have hfits : (s.replied cmdReq {}).Fits := fun r hr => by simp [replied] at hr
    have hmissing : ¬ (s.replied cmdReq {}).IsInitialized := by
      simp [Command.IsInitialized, replied]
    rw [Accepted, parse_serialize_iff hfits]
    simp [hmissing, herror]
  · simp [hother, hsendable.accepted codec, (hsendable.accepted codec).2]

/-- The hello of a proxy can be sent. -/
theorem Proxy.sendable_proxyHelloRequest (s : Proxy) (targetGuid : Bytes) :
    (s.proxyHelloRequest targetGuid).Sendable :=
  .of_required rfl rfl rfl rfl (.inl rfl) rfl

/-- Only requests are replied to. -/
theorem Proxy.Step.reply_eq_none {i : Input} {out : Output} (hstep : Proxy.Step s i out s')
    (hi : ∀ now connects cmdReq, i ≠ .request now connects cmdReq) : out.reply = none := by
  cases i with
  | command now rand cmdReq key =>
    obtain ⟨subs, frames, -, -, rfl⟩ := hstep.of_command
    rfl
  | request now connects cmdReq => exact absurd rfl (hi now connects cmdReq)
  | visitMember now proxy peer =>
    obtain ⟨subs, proxies, redis, -, -, rfl⟩ := hstep.of_visitMember
    rfl
  | killInactive | pingedRedis | remoteRegistryHealthChecks | localRegistryHealthChecks
  | requestRegistryExchange | cleanUpResponsesMap | rehash =>
    cases hstep
    rfl

/-- The commands that a step sends are accepted exactly when it is not the reply to an
`ERROR`. -/
theorem Proxy.Step.accepts_iff {i : Input} {out : Output} (hstep : Proxy.Step s i out s')
    (codec : Codec) :
    (∀ c ∈ out.sent, Accepted codec c) ↔
      ∀ now connects cmdReq, i = .request now connects cmdReq → cmdReq.cmd ≠ .error := by
  have hframes : ∀ c ∈ out.frames.map Frame.command, Accepted codec c := by
    intro c hc
    obtain ⟨f, hf, rfl⟩ := List.mem_map.mp hc
    exact (hstep.sendable hf).accepted codec
  have hsent : (∀ c ∈ out.sent, Accepted codec c) ↔ ∀ c ∈ out.reply, Accepted codec c := by
    simp only [Output.sent, List.forall_mem_append, Option.mem_toList, Option.mem_def]
    exact and_iff_right hframes
  rw [hsent]
  by_cases hi : ∃ now connects cmdReq, i = .request now connects cmdReq
  · obtain ⟨now, connects, cmdReq, rfl⟩ := hi
    obtain ⟨subs, nodes, cmdResp, hcall, -, rfl⟩ := hstep.of_request
    simp [(Proxy.parse_reply_iff hcall codec).2]
  · simp only [not_exists] at hi
    simp only [hstep.reply_eq_none hi, Option.mem_def, reduceCtorEq, false_imp_iff,
      implies_true, true_iff]
    exact fun now connects cmdReq hrequest => absurd hrequest (hi now connects cmdReq)

/-- **The commands that are accepted.** In every run of a proxy, what a step publishes and replies
is accepted by every receiver exactly when the step is not the reply to a command that is, or for
want of a number counts as, an `ERROR`. So it is with the bytes of requests and replies. The
hello that the proxy says to other proxies is always accepted. -/
theorem Proxy.Run.accepted_iff (hrun : Proxy.Run config h s) (codec : Codec) :
    (∀ t ∈ h, (∀ c ∈ t.out.sent, Accepted codec c) ↔
      ∀ now connects cmdReq, t.action = .request now connects cmdReq → cmdReq.cmd ≠ .error) ∧
    (∀ now connects msg s' resp, s.responderPoll codec now connects msg = .ok (s', some resp) →
      ((codec.parse resp).2 = true ↔ (codec.parse msg).1.cmd ≠ .error)) ∧
    ∀ targetGuid, Accepted codec (s.proxyHelloRequest targetGuid) := by
  refine ⟨fun t ht => (hrun.step_of_mem ht).accepts_iff codec, ?_,
    fun targetGuid => (s.sendable_proxyHelloRequest targetGuid).accepted codec⟩
  intro now connects msg s' resp hpoll
  rw [responderPoll] at hpoll
  split_ifs at hpoll
  · cases hpoll
  · split at hpoll
    · rename_i s'' cmdResp hcall
      cases hpoll
      exact (Proxy.parse_reply_iff hcall codec).1
    · cases hpoll

/-- The reply to the hello of a node is accepted. -/
theorem accepted_helloReply : ∃ h s, Proxy.Run (Config.ofSite .first 7770 7780) h s ∧
    ∃ t ∈ h, t.out.reply.isSome ∧ ∀ c ∈ t.out.sent, Accepted protobuf c := by
  let hello : Command :=
    { cmd? := some .nodeHello
      payload? := some (List.replicate GUID_SIZE 78 ++ ascii "#tcp://127.0.0.1:9000") }
  obtain ⟨out, s, hstep, hreply⟩ : ∃ out s, Proxy.Step (Proxy.init
      (Config.ofSite .first 7770 7780)) (.request 100 true hello) out s ∧ out.reply.isSome :=
    ⟨_, _, rfl, rfl⟩
  have hrun := Trace.nil.snoc hstep
  refine ⟨_, s, hrun, _, List.mem_singleton.mpr rfl, hreply, ?_⟩
  refine ((Proxy.Run.accepted_iff hrun protobuf).1 _ (List.mem_singleton.mpr rfl)).mpr ?_
  rintro now connects cmdReq hrequest
  cases hrequest
  decide

/-- **A reply that is rejected.** Bytes that are no command reach the responder. The request
counts as an `ERROR`, and the bytes of the reply are rejected: its command number and payload are
missing. -/
theorem rejected_reply :
    (protobuf.parse [255]).1 = {} ∧
      ∃ s resp, (Proxy.init (Config.ofSite .first 7770 7780)).responderPoll protobuf 100 true
        [255] = .ok (s, some resp) ∧ (protobuf.parse resp).2 = false ∧
      ∃ h s, Proxy.Run (Config.ofSite .first 7770 7780) h s ∧
        ∃ t ∈ h, t.action = .request 100 true {} ∧
          ∃ c ∈ t.out.sent, ¬ Accepted protobuf c := by
  refine ⟨by decide, _, _, rfl, by decide, ?_⟩
  obtain ⟨out, s, hstep, hreply⟩ : ∃ out s, Proxy.Step (Proxy.init
      (Config.ofSite .first 7770 7780)) (.request 100 true {}) out s ∧
        ∃ c ∈ out.sent, c.cmd? = none :=
    ⟨_, _, rfl, _, List.mem_singleton.mpr rfl, rfl⟩
  obtain ⟨c, hc, hcmd⟩ := hreply
  refine ⟨_, s, Trace.nil.snoc hstep, _, List.mem_singleton.mpr rfl, rfl, c, hc, ?_⟩
  intro haccepted
  have hset := haccepted.1.1
  simp [hcmd] at hset

end EsbProxy
