import EsbProxy.Dispatch

/-!
# What inputs do to the pending maps

An input routes a call and awaits its reply, relays or refuses a reply, answers a ping, removes
calls that are too old, or leaves the pending maps as they are and publishes neither a call nor a
reply (`Proxy.Step.pendingEffect`).

## Main definitions

* `SamePending`, `PendingEffect`: the classification.

## Main results

* `Proxy.Step.pendingEffect`, `Proxy.Step.relays`.
-/

namespace EsbProxy

open Foundation

variable {s s' : Proxy} {i : Input} {out : Output}

/-- The pending maps of two proxies hold the same. -/
def SamePending (s s' : Proxy) : Prop :=
  ∀ g, s'.invokeResponses.lookup g = s.invokeResponses.lookup g ∧
    s'.invokeResponsesCallTime.lookup g = s.invokeResponsesCallTime.lookup g

/-- The ways in which an input treats the pending maps. -/
inductive PendingEffect (s : Proxy) : Input → List Frame → Proxy → Prop
  /-- Nothing pending changes, and neither a call nor a reply is published. -/
  | quiet {i frames s'} (same : SamePending s s')
      (notRouted : ∀ f ∈ frames, f.command.cmd ≠ .invoke)
      (notReplied : ∀ f ∈ frames, ¬ f.command.IsReply)
      (notRelayed : ∀ now rand cmdReq key, i = .command now rand cmdReq key → ¬ cmdReq.IsReply) :
      PendingEffect s i frames s'
  /-- A ping is answered. -/
  | ponged {now rand cmdReq key s'} (call : cmdReq.cmd = .ping) (same : SamePending s s') :
      PendingEffect s (.command now rand cmdReq key)
        [publish cmdReq.sourceProxyGuid (s.pong cmdReq)] s'
  /-- A reply is refused that no pending call matches. -/
  | refused {now rand cmdReq key s'} (same : SamePending s s') (reply : cmdReq.IsReply)
      (missing : s.invokeResponses.lookup cmdReq.guidTo = none) :
      PendingEffect s (.command now rand cmdReq key) [publish key (s.callbackNotFound cmdReq)] s'
  /-- A call is routed to the owner of a method. -/
  | routed {now rand cmdReq key s'} (call : cmdReq.cmd = .invoke) (entry : InvokeMethod)
      (after : SamePending (s.await now cmdReq) s') :
      PendingEffect s (.command now rand cmdReq key)
        [publish entry.ownerGuid (s.routed cmdReq entry)] s'
  /-- A reply is relayed to the caller. -/
  | relayed {now rand cmdReq key s'} (reply : cmdReq.IsReply) (targetNode : Bytes)
      (found : s.invokeResponses.lookup cmdReq.guidTo = some targetNode)
      (after : SamePending (s.settle cmdReq.guidTo) s') :
      PendingEffect s (.command now rand cmdReq key) [publish targetNode (s.relayed cmdReq)] s'
  /-- Calls older than three seconds are removed. -/
  | cleaned {time frames s'} (silent : frames = [])
      (kept : ∀ g, s'.invokeResponses.lookup g = s.invokeResponses.lookup g ∧
          s'.invokeResponsesCallTime.lookup g = s.invokeResponsesCallTime.lookup g ∨
        s'.invokeResponses.lookup g = none ∧ s'.invokeResponsesCallTime.lookup g = none ∧
          ∃ t, s.invokeResponsesCallTime.lookup g = some t ∧ int32 (int32 time - t) > 3) :
      PendingEffect s (.cleanUpResponsesMap time) frames s'

/-- The effect of a command on the pending maps. -/
private theorem pendingEffect_command {now : ℤ} {rand : ℕ} {cmdReq : Command} {key : Bytes}
    (hstep : Proxy.Step s (.command now rand cmdReq key) out s') :
    PendingEffect s (.command now rand cmdReq key) out.frames s' := by
  obtain ⟨subs, frames, -, hcall, rfl⟩ := hstep.of_command
  have other : SamePending s s' → (∀ f ∈ frames, f.command.cmd ≠ .invoke) →
      (∀ f ∈ frames, ¬ f.command.IsReply) → ¬ cmdReq.IsReply →
      PendingEffect s (.command now rand cmdReq key) frames s' := by
    intro hsame hframes hreplies hreply
    refine .quiet hsame hframes hreplies fun _ _ _ _ heq => ?_
    cases heq
    exact hreply
  have reply : cmdReq.IsReply →
      .ok (Proxy.invokeResponse cmdReq key { s with subscribers := subs }) =
        (.ok (s', frames) : Except Fault (Proxy × List Frame)) →
      PendingEffect s (.command now rand cmdReq key) frames s' := by
    intro hreply heq
    cases hfound : s.invokeResponses.lookup cmdReq.guidTo with
    | none =>
      rw [Proxy.invokeResponse_of_none (s := { s with subscribers := subs }) hfound] at heq
      cases heq
      exact .refused (fun _ => ⟨rfl, rfl⟩) hreply hfound
    | some targetNode =>
      rw [Proxy.invokeResponse_of_some (s := { s with subscribers := subs }) hfound] at heq
      cases heq
      exact .relayed hreply targetNode hfound fun _ => ⟨rfl, rfl⟩
  rw [Proxy.subscriberCallback] at hcall
  cases hcmd : cmdReq.cmd <;> simp only [hcmd] at hcall
  case response => exact reply (.inl hcmd) hcall
  case errorResponse => exact reply (.inr hcmd) hcall
  case invoke =>
    obtain ⟨registryL, registryR, -, -, hroute⟩ :=
      Proxy.invoke_cases now rand cmdReq { s with subscribers := subs }
    rcases hroute with ⟨entry, -, -, heq⟩ | ⟨-, ⟨entry, -, -, heq⟩ | ⟨-, heq⟩⟩
    · rw [heq] at hcall
      cases hcall
      exact .routed hcmd entry fun _ => ⟨rfl, rfl⟩
    · rw [heq] at hcall
      cases hcall
      exact .routed hcmd entry fun _ => ⟨rfl, rfl⟩
    · rw [heq] at hcall
      cases hcall
      exact other (fun _ => ⟨rfl, rfl⟩) (by simp [Proxy.notFound, Command.cmd])
        (by simp [Proxy.notFound, Command.IsReply, Command.cmd]) (by simp [Command.IsReply, hcmd])
  case registryExchangeResponse =>
    split at hcall
    · rename_i s'' hupd
      obtain ⟨methods, -, rfl⟩ := Proxy.remoteRegistryUpdate_eq hupd
      cases hcall
      exact other (fun _ => ⟨rfl, rfl⟩) (by simp) (by simp) (by simp [Command.IsReply, hcmd])
    · simp at hcall
  case ping =>
    cases hcall
    exact .ponged hcmd fun _ => ⟨rfl, rfl⟩
  all_goals
    cases hcall
    refine other (fun _ => ⟨rfl, rfl⟩) ?_ ?_ (by simp [Command.IsReply, hcmd])
  all_goals
    simp [Proxy.registryExchangeResponder, Proxy.publishReq, Proxy.unknownCommand,
      Command.IsReply, Command.cmd, publishOn, Proxy.event]

/-- **What an input does to the pending maps.** Every executed input has one of the effects
listed. -/
theorem Proxy.Step.pendingEffect (hstep : Proxy.Step s i out s') :
    PendingEffect s i out.frames s' := by
  have quiet : SamePending s s' → out.frames = [] →
      (∀ now rand cmdReq key, i ≠ .command now rand cmdReq key) →
      PendingEffect s i out.frames s' := by
    intro hsame hsilent hother
    refine .quiet hsame (by simp [hsilent]) (by simp [hsilent]) fun now rand cmdReq key heq => ?_
    exact absurd heq (hother now rand cmdReq key)
  cases i with
  | command now rand cmdReq key => exact pendingEffect_command hstep
  | request now connects cmdReq =>
    obtain ⟨subs, nodes, cmdResp, -, rfl, rfl⟩ := hstep.of_request
    exact quiet (fun _ => ⟨rfl, rfl⟩) rfl (by simp)
  | visitMember now proxy peer =>
    obtain ⟨subs, proxies, redis, -, rfl, rfl⟩ := hstep.of_visitMember
    exact quiet (fun _ => ⟨rfl, rfl⟩) rfl (by simp)
  | pingedRedis now =>
    cases hstep
    exact quiet (fun _ => ⟨rfl, rfl⟩) rfl (by simp)
  | killInactive now key =>
    obtain ⟨subs, -, rfl, rfl⟩ := hstep.of_killInactive
    exact quiet (fun _ => ⟨rfl, rfl⟩) rfl (by simp)
  | remoteRegistryHealthChecks now =>
    cases hstep
    exact quiet (fun _ => ⟨rfl, rfl⟩) rfl (by simp)
  | localRegistryHealthChecks now =>
    cases hstep
    exact quiet (fun _ => ⟨rfl, rfl⟩) rfl (by simp)
  | requestRegistryExchange now =>
    cases hstep
    simp only [Proxy.requestRegistryExchange]
    split_ifs
    · exact .quiet (fun _ => ⟨rfl, rfl⟩) (by simp) (by simp) (by simp)
    · refine .quiet (fun _ => ⟨rfl, rfl⟩) (fun f hf => ?_) (fun f hf => ?_) (by simp)
      · obtain ⟨it, -, rfl⟩ := List.mem_map.mp hf
        simp [Command.cmd]
      · obtain ⟨it, -, rfl⟩ := List.mem_map.mp hf
        simp [Command.IsReply, Command.cmd]
  | cleanUpResponsesMap now =>
    cases hstep
    exact .cleaned rfl fun g => s.lookup_cleanUpResponsesMap now g
  | rehash orders =>
    cases hstep
    exact quiet (fun g => ⟨Dict.lookup_reorder .., Dict.lookup_reorder ..⟩) rfl (by simp)

/-- Relaying a reply to a pending call publishes one frame, on the channel of the caller, and
ends the call. -/
theorem Proxy.Step.relays {now : ℤ} {rand : ℕ} {cmdReq : Command} {key : Bytes}
    (hstep : Proxy.Step s (.command now rand cmdReq key) out s') (hreply : cmdReq.IsReply)
    {source : Bytes} (hsource : s.invokeResponses.lookup cmdReq.guidTo = some source) :
    out.frames = [publish source (s.relayed cmdReq)] ∧ cmdReq.guidTo ∉ s'.invokeResponses ∧
      cmdReq.guidTo ∉ s'.invokeResponsesCallTime := by
  have heffect := hstep.pendingEffect
  generalize out.frames = frames at heffect
  cases heffect with
  | quiet _ _ _ notRelayed => exact absurd hreply (notRelayed now rand cmdReq key rfl)
  | ponged call => simp [Command.IsReply, call] at hreply
  | refused _ _ missing => exact absurd (missing.symm.trans hsource) (by simp)
  | routed call => simp [Command.IsReply, call] at hreply
  | relayed _ targetNode found after =>
    obtain rfl : targetNode = source := Option.some.inj (found.symm.trans hsource)
    refine ⟨rfl, AList.lookup_eq_none.mp ?_, AList.lookup_eq_none.mp ?_⟩
    · rw [(after _).1, Proxy.lookup_settle, if_pos rfl]
    · rw [(after _).2, Proxy.lookup_settle_callTime, if_pos rfl]

end EsbProxy
