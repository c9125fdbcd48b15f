import EsbProxy.FirstHand

/-!
# Calls that fail at a later proxy

A proxy that forwarded a call to another proxy waits for one of three terminal replies: a
`RESPONSE` or an `ERROR_RESPONSE`, which the other proxy relays from a node, or the `ERROR` with
which `Invoke` refuses a call whose identifier is no longer registered. `SubscriberCallback`
relays the first two. The third one it only logs: the call stays pending, and its caller hears
nothing.

## Main definitions

* `Command.IsTerminal`: the replies that end a call.
* `Net.Forwards`, `Net.Reports`: a call is forwarded, and its outcome reported to the caller.

## Main results

* `failure_reported_iff`: when the handling of a terminal reply reports it to the caller.
-/

namespace EsbProxy

open Foundation

/-- A reply that ends a call: `RESPONSE`, `ERROR_RESPONSE` or `ERROR`. -/
def Command.IsTerminal (c : Command) : Prop := c.IsReply ∨ c.cmd = .error

/-- An `ERROR` is logged, and nothing is published. -/
theorem Proxy.Step.logs {s s' : Proxy} {now : ℤ} {rand : ℕ} {cmdReq : Command} {key : Bytes}
    {out : Output} (hstep : Proxy.Step s (.command now rand cmdReq key) out s')
    (hcmd : cmdReq.cmd = .error) : out.frames = [] := by
  obtain ⟨subs, frames, -, hcall, rfl⟩ := hstep.of_command
  rw [Proxy.subscriberCallback] at hcall
  simp only [hcmd] at hcall
  cases hcall
  rfl

/-- After a call was routed, its guid is pending for the caller for which it was pending before,
or else for the caller of the routed call. -/
theorem Proxy.Step.lookup_of_routed {s s' : Proxy} {now : ℤ} {rand : ℕ} {cmdReq : Command}
    {key : Bytes} {out : Output} (hstep : Proxy.Step s (.command now rand cmdReq key) out s')
    {f : Frame} (hf : f ∈ out.frames) (hrouted : f.command.cmd = .invoke) :
    s'.invokeResponses.lookup cmdReq.guidFrom =
      some ((s.invokeResponses.lookup cmdReq.guidFrom).getD cmdReq.sourceProxyGuid) := by
  have heffect := hstep.pendingEffect
  generalize out.frames = frames at heffect hf
  cases heffect with
  | quiet _ notRouted => exact absurd hrouted (notRouted f hf)
  | ponged => simp [List.mem_singleton.mp hf, Proxy.pong, Command.cmd] at hrouted
  | refused => simp [List.mem_singleton.mp hf, Proxy.callbackNotFound, Command.cmd] at hrouted
  | routed call entry after => rw [(after _).1, Proxy.lookup_await, if_pos rfl]
  | relayed reply =>
    have hreply : cmdReq.cmd = .invoke := by
      simpa [List.mem_singleton.mp hf, Proxy.relayed, Command.cmd] using hrouted
    simp [Command.IsReply, hreply] at reply

/-- An input leaves the caller of a pending call, or ends the call. -/
theorem Proxy.Step.caller_or_none {s s' : Proxy} {i : Input} {out : Output}
    (hstep : Proxy.Step s i out s') {g source : Bytes}
    (hsource : s.invokeResponses.lookup g = some source) :
    s'.invokeResponses.lookup g = some source ∨ s'.invokeResponses.lookup g = none := by
  have heffect := hstep.pendingEffect
  generalize out.frames = frames at heffect
  cases heffect with
  | quiet same => exact .inl ((same g).1.trans hsource)
  | ponged _ same => exact .inl ((same g).1.trans hsource)
  | refused same => exact .inl ((same g).1.trans hsource)
  | routed _ _ after =>
    left
    rw [(after g).1, Proxy.lookup_await]
    split_ifs with hg
    · rw [← hg, hsource, Option.getD_some]
    · exact hsource
  | relayed _ _ _ after =>
    rw [(after g).1, Proxy.lookup_settle]
    split_ifs
    · exact .inr rfl
    · exact .inl hsource
  | cleaned _ kept =>
    obtain ⟨hr, -⟩ | ⟨hr, -⟩ := kept g
    · exact .inl (hr.trans hsource)
    · exact .inr hr

namespace Net

variable {ι : Type*} [DecidableEq ι] {roster : Roster ι} {net net' : Net ι} {act : Action ι}
  {frames : List Frame} {h h₁ h₂ h₃ : List (Transition (Net ι) (Action ι) (List Frame))}
  {t u : Transition (Net ι) (Action ι) (List Frame)}

/-- No step of a network overwrites the caller of a pending call. -/
theorem Step.keeps_caller (hstep : Step roster net act frames net') (a : ι) (g : Bytes) :
    Trace.Keeps (fun net : Net ι => (net.proxy a).invokeResponses.lookup g)
      ⟨net, act, frames, net'⟩ := by
  intro source hsource
  obtain heq | ⟨b, i, s', out, hexec, heq⟩ := hstep.proxy_cases
  · left
    simpa only [heq] using hsource
  · simp only [heq, Function.update_apply]
    split_ifs with hab
    · subst hab
      exact hexec.caller_or_none hsource
    · exact .inl hsource

variable (roster) in
/-- In the transition `u` the proxy `a` forwards the call to the proxy `b`. -/
structure Forwards (u : Transition (Net ι) (Action ι) (List Frame)) (a b : ι) (call : Frame) :
    Prop where
  handled : ∃ now rand key, u.action = .deliver a call now rand key
  invoke : call.command.cmd = .invoke
  routed : ∃ f ∈ u.out, f.command.cmd = .invoke ∧ f.topic = (roster.config b).guid

/-- In the transition `t` the proxy `a` reports the outcome of the call `g`: it publishes one
message for the call on the channel of the caller, and forgets the call. -/
structure Reports (t : Transition (Net ι) (Action ι) (List Frame)) (a : ι) (g caller : Bytes) :
    Prop where
  once : (t.out.countP fun f => decide (f.topic = caller ∧ f.command.guidTo = g)) = 1
  forgotten : g ∉ (t.post.proxy a).invokeResponses
  forgottenTime : g ∉ (t.post.proxy a).invokeResponsesCallTime

/-- A call that was forwarded and is pending ever since is pending for the caller for which its
guid was pending before, or else for its own caller. -/
theorem lookup_of_forwards (run : Run roster (h₁ ++ u :: h₂) net) {a b : ι} {call : Frame}
    (forwards : Forwards roster u a b call)
    (still : ∀ w ∈ h₂, call.command.guidFrom ∈ (w.post.proxy a).invokeResponses) :
    (net.proxy a).invokeResponses.lookup call.command.guidFrom =
      some (((u.pre.proxy a).invokeResponses.lookup call.command.guidFrom).getD
        call.command.sourceProxyGuid) := by
  obtain ⟨before, hstep, after⟩ := run.split_cons
  have hkeeps : ∀ w ∈ h₂, Trace.Keeps (fun net : Net ι =>
      (net.proxy a).invokeResponses.lookup call.command.guidFrom) w :=
    fun w hw => (after.step_of_mem hw).keeps_caller a _
  have hfull : ∀ w ∈ h₂, (w.post.proxy a).invokeResponses.lookup call.command.guidFrom ≠ none :=
    fun w hw hnone => AList.lookup_eq_none.mp hnone (still w hw)
  refine Trace.slot_eq_of_ne_none _ after hkeeps ?_ hfull
  obtain ⟨now, rand, key, haction⟩ := forwards.handled
  obtain ⟨f, hf, hinvoke, -⟩ := forwards.routed
  rw [haction] at hstep
  generalize u.out = published at hstep hf
  generalize u.post = reached at hstep ⊢
  cases hstep with
  | deliver _ _ _ handled =>
    rw [commit_proxy, if_pos rfl]
    exact handled.lookup_of_routed hf hinvoke

/-- **When a failed call is reported.** In every run of a network, for every call that a proxy
forwarded to another proxy and has pending ever since: handling a terminal reply to it reports the
reply to the caller exactly when the reply is not an `ERROR`, and the guid of the call was not
pending for another caller already when the call was forwarded. -/
theorem failure_reported_iff (run : Run roster (h₁ ++ u :: h₂ ++ t :: h₃) net) {a b : ι}
    {call reply : Frame} (forwards : Forwards roster u a b call)
    (still : ∀ w ∈ h₂, call.command.guidFrom ∈ (w.post.proxy a).invokeResponses)
    {now : ℤ} {rand : ℕ} {key : Bytes} (handles : t.action = .deliver a reply now rand key)
    (terminal : reply.command.IsTerminal)
    (answers : reply.command.guidTo = call.command.guidFrom) :
    Reports t a call.command.guidFrom call.command.sourceProxyGuid ↔
      reply.command.cmd ≠ .error ∧
        ∀ source, (u.pre.proxy a).invokeResponses.lookup call.command.guidFrom = some source →
          source = call.command.sourceProxyGuid := by
  obtain ⟨before, hstep, -⟩ := run.split_cons
  have hlookup := lookup_of_forwards before forwards still
  have hlength := (Run.sound before).length_pending a _ _ hlookup
  rw [← answers] at hlookup hlength ⊢
  generalize hsource : ((u.pre.proxy a).invokeResponses.lookup reply.command.guidTo).getD
    call.command.sourceProxyGuid = source at hlookup hlength
  -- the second condition says for whom the call is pending
  have hcaller : (∀ source, (u.pre.proxy a).invokeResponses.lookup reply.command.guidTo =
      some source → source = call.command.sourceProxyGuid) ↔
        source = call.command.sourceProxyGuid := by
    rw [← hsource]
    cases (u.pre.proxy a).invokeResponses.lookup reply.command.guidTo with
    | none => simp
    | some other => simp
  rw [hcaller]
  rw [handles] at hstep
  generalize hout : t.out = published at hstep
  generalize hpost : t.post = reached at hstep
  cases hstep with
  | deliver _ _ _ handled =>
    obtain hreply | herror := terminal
    · obtain ⟨hframes, hforgotten, hforgottenTime⟩ := handled.relays hreply hlookup
      have hcount : (t.out.countP fun f => decide (f.topic = call.command.sourceProxyGuid ∧
          f.command.guidTo = reply.command.guidTo)) = 1 ↔
            source = call.command.sourceProxyGuid := by
        rw [hout, hframes, List.countP_singleton, publish_topic, topicOf_eq_self hlength]
        simp [Proxy.relayed, Command.guidTo]
      have hcmd : reply.command.cmd ≠ .error := by
        rcases hreply with hcmd | hcmd <;> simp [hcmd]
      refine ⟨fun hreports => ⟨hcmd, hcount.mp hreports.once⟩, fun hcondition => ?_⟩
      refine ⟨hcount.mpr hcondition.2, ?_, ?_⟩
      · simpa only [hpost, commit_proxy, if_pos] using hforgotten
      · simpa only [hpost, commit_proxy, if_pos] using hforgottenTime
    · refine ⟨fun hreports => ?_, fun hcondition => absurd herror hcondition.1⟩
      have honce := hreports.once
      rw [hout, handled.logs herror] at honce
      simp at honce

/-! ### Two calls to a method of another proxy -/

/-- A list cut at two of its positions. -/
private theorem eq_cut {α : Type*} (l : List α) {m n : ℕ} (hmn : m < n) (hn : n < l.length) :
    l = l.take m ++ l[m] :: (l.take n).drop (m + 1) ++ l[n] :: l.drop (n + 1) := by
  have hm : m < (l.take n).length := by
    rw [List.length_take]
    omega
  have hleft : l.take n = l.take m ++ l[m] :: (l.take n).drop (m + 1) := by
    have hcons := List.getElem_cons_drop hm
    rw [List.getElem_take] at hcons
    rw [hcons]
    conv_lhs => rw [← List.take_append_drop m (l.take n), List.take_take, Nat.min_eq_left hmn.le]
  rw [← hleft, List.getElem_cons_drop, List.take_append_drop]

/-- The call of a node, as it is sent to the first proxy. -/
def addCall : Frame where
  topic := (localhost.config .first).guid
  command :=
    { cmd? := some .invoke
      sourceProxyGuid? := some (List.replicate GUID_SIZE 78)
      payload? := some (ascii "[1,2]")
      identifier? := some (ascii "add")
      guidFrom? := some (ascii "call") }

/-- The call as the first proxy forwards it to the second one. -/
def forwardedCall : Frame where
  topic := (localhost.config .second).guid
  command :=
    { cmd? := some .invoke
      guidTo? := some (List.replicate GUID_SIZE 77)
      sourceProxyGuid? := some (localhost.config .first).guid
      identifier? := some (ascii "add")
      payload? := some (ascii "[1,2]")
      guidFrom? := some (ascii "call") }

/-- The answer of the node that serves the method, as it is sent to the second proxy. -/
def addReply : Frame where
  topic := (localhost.config .second).guid
  command :=
    { cmd? := some .response
      sourceProxyGuid? := some (List.replicate GUID_SIZE 83)
      payload? := some (ascii "3")
      guidFrom? := some (ascii "sum")
      guidTo? := some (ascii "call") }

/-- The answer as the second proxy relays it to the first one. -/
def relayedReply : Frame where
  topic := (localhost.config .first).guid
  command :=
    { cmd? := some .response
      payload? := some (ascii "3")
      guidFrom? := some (ascii "sum")
      guidTo? := some (ascii "call")
      sourceProxyGuid? := some (localhost.config .second).guid }

/-- The `ERROR` with which the second proxy refuses the call. -/
def refusedCall : Frame where
  topic := (localhost.config .first).guid
  command :=
    { cmd? := some .error
      payload? := some (ascii "Identifier 'add' not found in registry")
      guidTo? := some (ascii "call")
      sourceProxyGuid? := some (localhost.config .second).guid
      guidFrom? := some (localhost.config .second).guid }

/-- The first proxy forwards a call, and the node that serves the method answers it. -/
def answeredCall : List (Action Site) := knownMethod ++
  [.send (List.replicate GUID_SIZE 78) .first addCall.command, .deliver .first addCall 10 0 [],
    .deliver .second forwardedCall 10 0 [],
    .send (List.replicate GUID_SIZE 83) .second addReply.command,
    .deliver .second addReply 10 0 [], .deliver .first relayedReply 10 0 []]

/-- The second proxy deletes the method at time 11, and refuses the call that the first proxy still
forwards to it. -/
def expiredCall : List (Action Site) := knownMethod ++
  [.housekeep .second (.localRegistryHealthChecks 11),
    .send (List.replicate GUID_SIZE 78) .first addCall.command, .deliver .first addCall 11 0 [],
    .deliver .second forwardedCall 11 0 [], .deliver .first refusedCall 11 0 []]

/-- In the run of `answeredCall` the answer is reported to the caller. -/
theorem failure_reported_iff_answeredCall :
    ∃ h₁ u h₂ t h₃ net, Run localhost (h₁ ++ u :: h₂ ++ t :: h₃) net ∧
      Reports t .first (ascii "call") (List.replicate GUID_SIZE 78) := by
  have hsome : (execute localhost answeredCall).isSome := by decide
  obtain ⟨h, net, hrun, hlength, hrouted, hstill, hfree⟩ : ∃ h net,
      execute localhost answeredCall = some (h, net) ∧ ∃ _ : 15 < h.length,
        (∃ f ∈ h[11].out, f.command.cmd = .invoke ∧ f.topic = (localhost.config .second).guid) ∧
        (∀ w ∈ (h.take 15).drop 12, ascii "call" ∈ (w.post.proxy .first).invokeResponses) ∧
        ascii "call" ∉ (h[11].pre.proxy .first).invokeResponses :=
    ⟨_, _, (Option.some_get hsome).symm, by decide, by decide, by decide, by decide⟩
  have hcall := action_getElem_execute hrun (n := 11) (by omega) rfl
  have hreply := action_getElem_execute hrun hlength rfl
  have hcut := run_execute hrun
  rw [eq_cut h (m := 11) (n := 15) (by decide) hlength] at hcut
  refine ⟨_, _, _, _, _, _, hcut, ?_⟩
  have hforwards : Forwards localhost h[11] .first .second addCall :=
    ⟨⟨10, 0, [], hcall⟩, rfl, hrouted⟩
  refine (failure_reported_iff hcut hforwards hstill hreply (.inl (.inl rfl)) rfl).mpr
    ⟨by decide, fun source hsource => ?_⟩
  exact absurd (hsource.symm.trans (AList.lookup_eq_none.mpr hfree)) (by simp)

/-- **A refused call is not reported.** It is false that a proxy reports to the caller every
terminal reply to a call that it forwarded to another proxy and has pending: in the run of
`expiredCall` the other proxy replies with an `ERROR`, and nothing is published. -/
theorem not_failure_reported :
    ¬ ∀ (h₁ h₂ h₃ : List (Transition (Net Site) (Action Site) (List Frame)))
      (u t : Transition (Net Site) (Action Site) (List Frame)) (net : Net Site)
      (a b : Site) (call reply : Frame) (now : ℤ) (rand : ℕ) (key : Bytes),
        Run localhost (h₁ ++ u :: h₂ ++ t :: h₃) net → Forwards localhost u a b call →
          call.command.guidFrom ∉ (u.pre.proxy a).invokeResponses →
          (∀ w ∈ h₂, call.command.guidFrom ∈ (w.post.proxy a).invokeResponses) →
          t.action = .deliver a reply now rand key → (∃ v ∈ h₂, reply ∈ v.out) →
          reply.command.sourceProxyGuid = (localhost.config b).guid → reply.command.IsTerminal →
          reply.command.guidTo = call.command.guidFrom →
            Reports t a call.command.guidFrom call.command.sourceProxyGuid := by
  intro hclaim
  have hsome : (execute localhost expiredCall).isSome := by decide
  obtain ⟨h, net, hrun, hlength, hrouted, hstill, hfree, hsent, hsilent⟩ : ∃ h net,
      execute localhost expiredCall = some (h, net) ∧ ∃ _ : 14 < h.length,
        (∃ f ∈ h[12].out, f.command.cmd = .invoke ∧ f.topic = (localhost.config .second).guid) ∧
        (∀ w ∈ (h.take 14).drop 13, ascii "call" ∈ (w.post.proxy .first).invokeResponses) ∧
        ascii "call" ∉ (h[12].pre.proxy .first).invokeResponses ∧
        (∃ v ∈ (h.take 14).drop 13, refusedCall ∈ v.out) ∧ h[14].out = [] :=
    ⟨_, _, (Option.some_get hsome).symm, by decide, by decide, by decide, by decide, by decide,
      by decide⟩
  have hcall := action_getElem_execute hrun (n := 12) (by omega) rfl
  have hreply := action_getElem_execute hrun hlength rfl
  have hcut := run_execute hrun
  rw [eq_cut h (m := 12) (n := 14) (by decide) hlength] at hcut
  have hreports := hclaim _ _ _ _ _ _ .first .second addCall refusedCall 11 0 [] hcut
    ⟨⟨11, 0, [], hcall⟩, rfl, hrouted⟩ hfree hstill hreply hsent rfl (.inr rfl) rfl
  have honce := hreports.once
  rw [hsilent] at honce
  simp at honce

end Net

end EsbProxy
