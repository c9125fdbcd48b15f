import EsbProxy.Dispatch

/-!
# What a proxy publishes

One input makes a proxy publish nothing, one frame, or the requests to all proxies that it knows;
`Publication` lists the ways. Facts about what can be in flight in a network follow from it without
another look at the handlers. Every command that a proxy publishes names the proxy as its source,
and every event that it publishes is marked as published.

## Main definitions

* `Publication`: what an input makes a proxy publish.

## Main results

* `Proxy.Step.publication`, `Proxy.Step.published`.
-/

namespace EsbProxy

variable {s s' : Proxy} {i : Input} {out : Output}

/-- The frames that an input makes a proxy publish. -/
inductive Publication (s : Proxy) : Input → List Frame → Prop
  | silent {i : Input} : Publication s i []
  /-- A call is routed to the owner of a method. -/
  | routed {now : ℤ} {rand : ℕ} {cmdReq : Command} {key : Bytes} (call : cmdReq.cmd = .invoke)
      (entry : InvokeMethod) :
      Publication s (.command now rand cmdReq key)
        [publish entry.ownerGuid (s.routed cmdReq entry)]
  /-- A call is refused whose identifier nobody serves. -/
  | notFound {now : ℤ} {rand : ℕ} {cmdReq : Command} {key : Bytes} (call : cmdReq.cmd = .invoke) :
      Publication s (.command now rand cmdReq key)
        [publish cmdReq.sourceProxyGuid (s.notFound cmdReq)]
  /-- A reply is refused that no pending call matches. -/
  | refused {now : ℤ} {rand : ℕ} {cmdReq : Command} {key : Bytes} (reply : cmdReq.IsReply) :
      Publication s (.command now rand cmdReq key) [publish key (s.callbackNotFound cmdReq)]
  /-- A reply is relayed to the caller. -/
  | relayed {now : ℤ} {rand : ℕ} {cmdReq : Command} {key : Bytes} (reply : cmdReq.IsReply)
      (targetNode : Bytes) :
      Publication s (.command now rand cmdReq key) [publish targetNode (s.relayed cmdReq)]
  /-- A registration is acknowledged. -/
  | registered {now : ℤ} {rand : ℕ} {cmdReq : Command} {key : Bytes}
      (call : cmdReq.cmd = .registerInvoke) :
      Publication s (.command now rand cmdReq key) (s.registerInvoke now cmdReq).2
  /-- A request for the local registry is answered. -/
  | answered {now : ℤ} {rand : ℕ} {cmdReq : Command} {key : Bytes}
      (call : cmdReq.cmd = .registryExchangeRequest) :
      Publication s (.command now rand cmdReq key) (s.registryExchangeResponder cmdReq)
  /-- A ping is answered. -/
  | ponged {now : ℤ} {rand : ℕ} {cmdReq : Command} {key : Bytes} (call : cmdReq.cmd = .ping) :
      Publication s (.command now rand cmdReq key) (s.pingRequest cmdReq)
  /-- An event is published. -/
  | event {now : ℤ} {rand : ℕ} {cmdReq : Command} {key : Bytes} (call : cmdReq.cmd = .publish)
      (unmarked : cmdReq.recursion ≤ 0) :
      Publication s (.command now rand cmdReq key) [⟨cmdReq.identifier, s.event cmdReq⟩]
  /-- An unknown command is refused. -/
  | unknown {now : ℤ} {rand : ℕ} {cmdReq : Command} {key : Bytes} :
      Publication s (.command now rand cmdReq key) [publish key (s.unknownCommand cmdReq)]
  /-- The known proxies are asked for their registries. -/
  | requested {now : ℤ} :
      Publication s (.requestRegistryExchange now) (s.requestRegistryExchange now).2

/-- What a command makes a proxy publish. -/
private theorem publication_command {now : ℤ} {rand : ℕ} {cmdReq : Command} {key : Bytes}
    (hstep : Proxy.Step s (.command now rand cmdReq key) out s') :
    Publication s (.command now rand cmdReq key) out.frames := by
  obtain ⟨subs, frames, -, hcall, rfl⟩ := hstep.of_command
  have reply : cmdReq.IsReply →
      .ok (Proxy.invokeResponse cmdReq key { s with subscribers := subs }) =
        (.ok (s', frames) : Except Fault (Proxy × List Frame)) →
      Publication s (.command now rand cmdReq key) frames := by
    intro hreply heq
    rw [Proxy.invokeResponse] at heq
    split at heq
    · cases heq
      exact .refused hreply
    · cases heq
      exact .relayed hreply _
  rw [Proxy.subscriberCallback] at hcall
  cases hcmd : cmdReq.cmd <;> simp only [hcmd] at hcall
  case response => exact reply (.inl hcmd) hcall
  case errorResponse => exact reply (.inr hcmd) hcall
  case invoke =>
    obtain ⟨registryL, registryR, -, -, hroute⟩ :=
      Proxy.invoke_cases now rand cmdReq { s with subscribers := subs }
    rcases hroute with ⟨entry, -, -, heq⟩ | ⟨-, ⟨entry, -, -, heq⟩ | ⟨-, heq⟩⟩
    · rw [heq] at hcall
      cases hcall
      exact .routed hcmd entry
    · rw [heq] at hcall
      cases hcall
      exact .routed hcmd entry
    · rw [heq] at hcall
      cases hcall
      exact .notFound hcmd
  case publish =>
    by_cases hmarked : 0 < cmdReq.recursion
    · rw [Proxy.publishReq_of_pos hmarked] at hcall
      cases hcall
      exact .silent
    · rw [Proxy.publishReq_of_nonpos (not_lt.mp hmarked)] at hcall
      cases hcall
      exact .event hcmd (not_lt.mp hmarked)
  case registerInvoke =>
    cases hcall
    exact .registered hcmd
  case registryExchangeRequest =>
    cases hcall
    exact .answered hcmd
  case ping =>
    cases hcall
    exact .ponged hcmd
  case registryExchangeResponse =>
    split at hcall
    · cases hcall
      exact .silent
    · simp at hcall
  case pong | error | subscribe =>
    cases hcall
    exact .silent
  case nodeHello | proxyHello | registerInvokeOk =>
    cases hcall
    exact .unknown

/-- **What an input makes a proxy publish.** Every executed input publishes in one of the ways
listed. -/
theorem Proxy.Step.publication (hstep : Proxy.Step s i out s') : Publication s i out.frames := by
  cases i with
  | command now rand cmdReq key => exact publication_command hstep
  | request now connects cmdReq =>
    obtain ⟨subs, nodes, cmdResp, -, -, rfl⟩ := hstep.of_request
    exact .silent
  | visitMember now proxy peer =>
    obtain ⟨subs, proxies, redis, -, -, rfl⟩ := hstep.of_visitMember
    exact .silent
  | requestRegistryExchange now =>
    cases hstep
    exact .requested
  | killInactive | pingedRedis | remoteRegistryHealthChecks | localRegistryHealthChecks
  | cleanUpResponsesMap | rehash =>
    cases hstep
    exact .silent

/-- A request for a registry is sent to a known proxy. -/
theorem Proxy.mem_requestRegistryExchange {now : ℤ} {f : Frame}
    (hf : f ∈ (s.requestRegistryExchange now).2) :
    f.command.cmd = .registryExchangeRequest ∧ f.command.sourceProxyGuid = s.guid ∧
      ∃ g g', s.proxiesGuids.lookup g = some g' ∧ f.topic = topicOf g' GUID_SIZE := by
  rw [requestRegistryExchange] at hf
  split_ifs at hf
  · simp at hf
  · obtain ⟨it, hit, rfl⟩ := List.mem_map.mp hf
    exact ⟨rfl, rfl, it.1, it.2, AList.mem_lookup_iff.mpr hit, rfl⟩

/-- A command that a proxy publishes: the proxy is its source, and an event is marked as
published. -/
def PublishedBy (guid : Bytes) (c : Command) : Prop :=
  c.sourceProxyGuid = guid ∧ (c.cmd = .publish → c.recursion = 1)

/-- Every command that is published names the proxy as its source, and events are marked. -/
theorem Proxy.Step.published (hstep : Proxy.Step s i out s') :
    ∀ f ∈ out.frames, PublishedBy s.guid f.command := by
  have hpublication := hstep.publication
  generalize out.frames = frames at hpublication
  cases hpublication with
  | silent => simp
  | @relayed _ _ cmdReq _ reply targetNode =>
    intro f hf
    obtain rfl := List.mem_singleton.mp hf
    refine ⟨rfl, fun hpublish => ?_⟩
    have hcmd : cmdReq.cmd = .publish := hpublish
    simp [Command.IsReply, hcmd] at reply
  | requested =>
    intro f hf
    obtain ⟨hcmd, hsource, -⟩ := Proxy.mem_requestRegistryExchange hf
    exact ⟨hsource, fun hpublish => by simp [hcmd] at hpublish⟩
  | _ =>
    intro f hf
    obtain rfl := List.mem_singleton.mp hf
    exact ⟨rfl, by simp [Command.cmd, Proxy.routed, Proxy.notFound, Proxy.callbackNotFound,
      Proxy.pong, Proxy.event, Proxy.unknownCommand, Command.recursion]⟩

end EsbProxy
