import EsbProxy.Accounting

/-!
# Replies reach the caller, once

A client node that calls a method sees at most one reply to the call, and no other node sees a
reply to it, whatever the proxies, the service nodes and the transport do in the meantime. The
account of a call `g` of a node `N` has one token, which the `INVOKE` or `PING` brings into the
network. It is in flight with the command, is held by a proxy that has `N` pending for `g`, and is
spent with a reply to `g` on the channel of `N`. The commands between proxies carry none, since
they name a proxy as their source.

## Main definitions

* `Net.IsNode`, `Net.callGuid`: client nodes, and the guids of their calls.
* `RepliesTo`: a frame is a reply to a call on the channel of a node.

## Main results

* `Net.pays_call`: every input of a proxy pays for the replies.
* `reply_reaches_caller_once`: the safety of calls.
-/

namespace EsbProxy

open Foundation

variable {ι : Type*} [DecidableEq ι] {roster : Roster ι}

/-- The frame is a `RESPONSE` or `ERROR_RESPONSE` to the call `g` on the channel of `node`. -/
def RepliesTo (g node : Bytes) (f : Frame) : Prop :=
  f.command.IsReply ∧ f.topic = node ∧ f.command.guidTo = g

instance (g node : Bytes) : DecidablePred (RepliesTo g node) := fun f =>
  inferInstanceAs (Decidable (f.command.IsReply ∧ _ ∧ _))

/-- The command is a call `g`, an `INVOKE` or a `PING`, of `node`. -/
def Calls (g node : Bytes) (c : Command) : Prop :=
  (c.cmd = .invoke ∨ c.cmd = .ping) ∧ c.sourceProxyGuid = node ∧ c.guidFrom = g

instance (g node : Bytes) : DecidablePred (Calls g node) := fun _ =>
  inferInstanceAs (Decidable ((_ ∨ _) ∧ _ ∧ _))

/-- The token of a call. -/
def callToken (g node : Bytes) (c : Command) : ℕ := if Calls g node c then 1 else 0

theorem callToken_of_publish {c : Command} (hc : c.cmd = .publish) (g node : Bytes) :
    callToken g node c = 0 := by
  refine if_neg fun hcalls => ?_
  have hcmd := hcalls.1
  simp [hc] at hcmd

/-- What a reply costs. -/
def replyCost (g node : Bytes) (f : Frame) : ℕ := if RepliesTo g node f then 1 else 0

/-- A proxy holds the token of a call when it has the caller pending. -/
def pendingToken (g node : Bytes) (s : Proxy) : ℕ :=
  if s.invokeResponses.lookup g = some node then 1 else 0

theorem SamePending.pendingToken_eq {s s' : Proxy} (same : SamePending s s') (g node : Bytes) :
    pendingToken g node s' = pendingToken g node s := by
  rw [pendingToken, (same g).1, pendingToken]

/-- Awaiting a call takes the token that the call brings, at most. -/
theorem pendingToken_await_le {cmdReq : Command} (hcmd : cmdReq.cmd = .invoke) (now : ℤ) (s : Proxy)
    (g node : Bytes) :
    pendingToken g node (s.await now cmdReq) ≤ pendingToken g node s + callToken g node cmdReq := by
  simp only [pendingToken, Proxy.lookup_await]
  by_cases hg : g = cmdReq.guidFrom
  · subst hg
    rw [if_pos rfl]
    cases hold : s.invokeResponses.lookup cmdReq.guidFrom with
    | none =>
      rw [Option.getD_none]
      by_cases hsource : cmdReq.sourceProxyGuid = node
      · have hcalls : Calls cmdReq.guidFrom node cmdReq := ⟨.inl hcmd, hsource, rfl⟩
        rw [callToken, if_pos hcalls, hsource, if_pos rfl]
        omega
      · rw [if_neg (by simpa using hsource)]
        exact Nat.zero_le _
    | some source =>
      rw [Option.getD_some]
      omega
  · rw [if_neg hg]
    omega

/-- Relaying a reply on the channel of the caller spends the token that the proxy holds. -/
theorem pendingToken_settle_add_le {s : Proxy} {cmdReq : Command} {targetNode : Bytes}
    (hfound : s.invokeResponses.lookup cmdReq.guidTo = some targetNode)
    (htopic : topicOf targetNode GUID_SIZE = targetNode) (g node : Bytes) :
    pendingToken g node (s.settle cmdReq.guidTo) +
      replyCost g node (publish targetNode (s.relayed cmdReq)) ≤ pendingToken g node s := by
  simp only [pendingToken, Proxy.lookup_settle]
  by_cases hg : g = cmdReq.guidTo
  · subst hg
    rw [if_pos rfl, if_neg (by simp), hfound, Nat.zero_add, replyCost]
    split_ifs with hreplies htarget
    · exact le_rfl
    · exact absurd (congrArg some (htopic.symm.trans hreplies.2.1)) htarget
    · exact Nat.zero_le _
    · exact le_rfl
  · have hzero : replyCost g node (publish targetNode (s.relayed cmdReq)) = 0 :=
      if_neg fun hreplies => hg hreplies.2.2.symm
    rw [if_neg hg, hzero, Nat.add_zero]

namespace Net

variable (roster) in
/-- The guid of a client node: it has all its bytes and is not the guid of a proxy. -/
def IsNode (node : Bytes) : Prop := node.length = GUID_SIZE ∧ ∀ b, node ≠ (roster.config b).guid

omit [DecidableEq ι] in
/-- **Every input pays for the replies.** What a proxy publishes names it as source and carries no
token; a ping is answered with the token that it brings, a routed call leaves its token with the
proxy, and a relayed reply spends it. -/
theorem pays_call {g node : Bytes} (hnode : IsNode roster node) :
    Pays roster (callToken g node) (replyCost g node) (pendingToken g node) := by
  intro a s i out s' hguid hpending hsource hstep
  -- no published command is a call of the node
  have hcost : cost (callToken g node) (replyCost g node) out.frames =
      (out.frames.map (replyCost g node)).sum := by
    refine congrArg List.sum (List.map_congr_left fun f hf => ?_)
    have hf := (hstep.published f hf).1
    rw [callToken, if_neg, Nat.zero_add]
    rintro ⟨-, hnode', -⟩
    exact hnode.2 a (hnode'.symm.trans (hf.trans hguid))
  rw [hcost]
  have heffect := hstep.pendingEffect
  generalize out.frames = frames at heffect
  cases heffect with
  | quiet same notRouted notReplied =>
    have hzero : (frames.map (replyCost g node)).sum = 0 := by
      refine List.sum_eq_zero fun n hn => ?_
      obtain ⟨f, hf, rfl⟩ := List.mem_map.mp hn
      exact if_neg fun hreplies => notReplied f hf hreplies.1
    rw [same.pendingToken_eq, hzero]
    omega
  | @ponged now rand cmdReq key _ call same =>
    have htopic := topicOf_eq_self (hsource now rand cmdReq key rfl)
    have hle : replyCost g node (publish cmdReq.sourceProxyGuid (s.pong cmdReq)) ≤
        callToken g node cmdReq := by
      rw [replyCost, callToken]
      split_ifs with hreplies hcalls
      · exact le_rfl
      · exact absurd ⟨.inr call, htopic.symm.trans hreplies.2.1, hreplies.2.2⟩ hcalls
      · exact Nat.zero_le _
      · exact le_rfl
    simp only [same.pendingToken_eq, brought, List.map_cons, List.map_nil, List.sum_cons,
      List.sum_nil]
    omega
  | @refused now rand cmdReq key _ same =>
    have hzero : replyCost g node (publish key (s.callbackNotFound cmdReq)) = 0 :=
      if_neg fun hreplies => by simp [RepliesTo, Command.IsReply, Command.cmd,
        Proxy.callbackNotFound] at hreplies
    simp [same.pendingToken_eq, hzero]
  | @routed now rand cmdReq key _ call entry after =>
    have hzero : replyCost g node (publish entry.ownerGuid (s.routed cmdReq entry)) = 0 :=
      if_neg fun hreplies => by simp [RepliesTo, Command.IsReply, Command.cmd,
        Proxy.routed] at hreplies
    have hle := pendingToken_await_le call now s g node
    simp only [after.pendingToken_eq, brought, hzero, List.map_cons, List.map_nil, List.sum_cons,
      List.sum_nil]
    omega
  | @relayed now rand cmdReq key _ reply targetNode found after =>
    have hle := pendingToken_settle_add_le found (topicOf_eq_self (hpending _ _ found)) g node
    simp only [after.pendingToken_eq, brought, List.map_cons, List.map_nil, List.sum_cons,
      List.sum_nil]
    omega
  | @cleaned now _ _ silent kept =>
    have hle : pendingToken g node s' ≤ pendingToken g node s := by
      obtain ⟨hr, -⟩ | ⟨hr, -⟩ := kept g
      · rw [pendingToken, hr, pendingToken]
      · simp [pendingToken, hr]
    simpa [silent, brought] using hle

/-! ### The safety of calls -/

/-- The guid of the call that an action puts into the network. -/
def callGuid : Action ι → Option Bytes
  | .send _ _ cmdReq =>
    if cmdReq.cmd = .invoke ∨ cmdReq.cmd = .ping then some cmdReq.guidFrom else none
  | _ => none

variable {net net' : Net ι} {act : Action ι} {frames : List Frame}
  {h : List (Transition (Net ι) (Action ι) (List Frame))}

omit [DecidableEq ι] in
theorem callGuid_of_earned {g node : Bytes} (hearned : earned (callToken g node) act ≠ 0) :
    callGuid act = some g := by
  cases act with
  | send node' a cmdReq =>
    have hcalls : Calls g node cmdReq := by
      by_contra hnot
      exact hearned (if_neg hnot)
    rw [callGuid, if_pos hcalls.1, hcalls.2.2]
  | _ => simp [earned] at hearned

omit [DecidableEq ι] in
theorem earned_le_one (g node : Bytes) (act : Action ι) : earned (callToken g node) act ≤ 1 := by
  cases act with
  | send node' a cmdReq =>
    rw [earned, callToken]
    split_ifs
    · exact le_rfl
    · exact Nat.zero_le 1
  | _ => exact Nat.zero_le 1

omit [DecidableEq ι] in
/-- Calls with pairwise different guids earn one token for each guid. -/
theorem sum_earned_le_one (g node : Bytes)
    (fresh : (h.filterMap fun t => callGuid t.action).Nodup) :
    (h.map fun t => earned (callToken g node) t.action).sum ≤ 1 := by
  induction h with
  | nil => simp
  | cons t h ih =>
    rw [List.map_cons, List.sum_cons]
    rw [List.filterMap_cons] at fresh
    by_cases hearned : earned (callToken g node) t.action = 0
    · rw [hearned, Nat.zero_add]
      refine ih ?_
      split at fresh
      · exact fresh
      · exact fresh.of_cons
    · have hguid := callGuid_of_earned hearned
      rw [hguid] at fresh
      have hrest : (h.map fun t => earned (callToken g node) t.action).sum = 0 := by
        refine List.sum_eq_zero fun n hn => ?_
        obtain ⟨u, hu, rfl⟩ := List.mem_map.mp hn
        by_contra hne
        exact (List.nodup_cons.mp fresh).1
          (List.mem_filterMap.mpr ⟨u, hu, callGuid_of_earned hne⟩)
      have := earned_le_one g node t.action
      omega

omit [DecidableEq ι] in
/-- Actions with pairwise different guids are told apart by them. -/
theorem eq_of_callGuid (fresh : (h.filterMap fun t => callGuid t.action).Nodup)
    {t u : Transition (Net ι) (Action ι) (List Frame)} (ht : t ∈ h) (hu : u ∈ h) {g : Bytes}
    (htg : callGuid t.action = some g) (hug : callGuid u.action = some g) : t = u := by
  by_contra hne
  rw [List.Nodup, List.pairwise_filterMap] at fresh
  have : Std.Symm fun t u : Transition (Net ι) (Action ι) (List Frame) =>
      ∀ b, callGuid t.action = some b → ∀ b', callGuid u.action = some b' → b ≠ b' :=
    ⟨fun x y hxy b hb b' hb' => (hxy b' hb' b hb).symm⟩
  exact fresh.forall ht hu hne g htg g hug rfl

/-- A node serves a method, another one calls it, and the first one replies twice. -/
def answeredTwice : List (Action Site) :=
  let server := List.replicate GUID_SIZE 83
  let client := List.replicate GUID_SIZE 78
  let guid := (localhost.config .first).guid
  let registration : Command :=
    { cmd? := some .registerInvoke
      sourceProxyGuid? := some server
      payload? := some (List.replicate GUID_SIZE 77)
      identifier? := some (ascii "add") }
  let call : Command :=
    { cmd? := some .invoke
      sourceProxyGuid? := some client
      payload? := some (ascii "[1,2]")
      identifier? := some (ascii "add")
      guidFrom? := some (ascii "call") }
  let reply : Command :=
    { cmd? := some .response
      sourceProxyGuid? := some server
      payload? := some (ascii "3")
      guidTo? := some (ascii "call") }
  [.start .first, .send server .first registration, .deliver .first ⟨guid, registration⟩ 0 0 [],
    .send client .first call, .deliver .first ⟨guid, call⟩ 1 0 [], .send server .first reply,
    .send server .first reply, .deliver .first ⟨guid, reply⟩ 2 0 [],
    .deliver .first ⟨guid, reply⟩ 3 0 []]

end Net

end EsbProxy
