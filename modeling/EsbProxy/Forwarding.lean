import EsbProxy.FailedCalls
import EsbProxy.Foundation.Walk

/-!
# Forwarding of calls between proxies

A proxy without a local method for a call forwards it to a proxy that advertised one. It does not
look at where the call came from, and a call carries no hop count, unlike an event with its
`recursion`. So with the registries fixed a call wanders along the relation "has no local method,
and lists the other as remote", and is forwarded by no proxy twice, whatever methods are picked,
exactly when no cycle of this relation can be reached from the first proxy. Cycles do occur: two
proxies list each other for a few seconds after the local entries of both have expired.

## Main definitions

* `Net.Hops`: a proxy can forward a call to another one.
* `Net.callsInFlight`, `Net.forwarder`: the calls with a guid in flight to proxies, and who
  forwards one.
* `Net.Holds`, `Net.ForwardedOnce`: steps with the registries fixed, and the law of forwarding.

## Main results

* `Net.Run.nodesServe`: local methods are served by nodes.
* `Net.wandered_of_trace`, `Net.exists_trace_of_walk`: the proxies that forward a call walk along
  the hops, and a call can be forwarded along every walk.
* `forwards_once_iff`: when no proxy forwards a call twice.
-/

namespace EsbProxy

open Foundation Relation

/-- Handling a call changes the lists of neither registry. -/
theorem Proxy.Step.lists_of_invoke {s s' : Proxy} {now : ℤ} {rand : ℕ} {cmdReq : Command}
    {key : Bytes} {out : Output} (hstep : Proxy.Step s (.command now rand cmdReq key) out s')
    (hcall : cmdReq.cmd = .invoke) :
    (∀ i, methodsOf s'.localInvokeMethods i = methodsOf s.localInvokeMethods i) ∧
      ∀ i, methodsOf s'.remoteInvokeMethods i = methodsOf s.remoteInvokeMethods i := by
  cases hstep.registryEffect with
  | same loc remote => exact ⟨loc, remote⟩
  | registered call => simp [hcall] at call
  | advertised call => simp [hcall] at call

/-- Without a local method, any of the remote ones can be picked for a call. -/
theorem Proxy.exists_step_forward {s : Proxy} {cmdReq : Command} (hcall : cmdReq.cmd = .invoke)
    (hlocal : methodsOf s.localInvokeMethods cmdReq.identifier = []) {entry : RemoteInvokeMethod}
    (hentry : entry ∈ methodsOf s.remoteInvokeMethods cmdReq.identifier) (now : ℤ) (key : Bytes) :
    ∃ rand s', Proxy.Step s (.command now rand cmdReq key)
      { frames := [publish entry.ownerGuid (s.routed cmdReq entry)] } s' := by
  obtain ⟨rand, hpick⟩ := exists_pick hentry
  obtain ⟨subs, hsubs⟩ := s.markActive_eq now key
  obtain ⟨registryL, registryR, -, -, hroute⟩ :=
    Proxy.invoke_cases now rand cmdReq { s with subscribers := subs }
  rcases hroute with ⟨other, hother, -⟩ | ⟨-, ⟨other, -, hother, heq⟩ | ⟨hnone, -⟩⟩
  · rw [hlocal] at hother
    simp at hother
  · obtain rfl : other = entry := Option.some.inj (hother.symm.trans hpick)
    obtain ⟨s', hinvoke⟩ : ∃ s', Proxy.invoke now rand cmdReq { s with subscribers := subs } =
        (s', [publish other.ownerGuid (s.routed cmdReq other)]) := ⟨_, heq⟩
    refine ⟨rand, s', ?_⟩
    rw [Proxy.Step, Proxy.exec, hsubs, subscriberCallback]
    simp only [hcall, hinvoke]
  · rw [hnone] at hentry
    simp at hentry

namespace Net

variable {ι : Type*} [DecidableEq ι] {roster : Roster ι} {net net' : Net ι} {act : Action ι}
  {frames : List Frame} {h h' : List (Transition (Net ι) (Action ι) (List Frame))}
  {t : Transition (Net ι) (Action ι) (List Frame)}

/-! ### Local methods are served by nodes -/

variable (roster) in
/-- What is published to the owner of the method is not addressed to a proxy. -/
def ServedByNode (k : Offer) : Prop := ∀ b, topicOf k.ownerGuid GUID_SIZE ≠ (roster.config b).guid

variable (roster) in
/-- A registration in flight comes from a node. -/
def RegisteredByNode (f : Frame) : Prop :=
  f.command.cmd = .registerInvoke → f.command.sourceProxyGuid.length = GUID_SIZE ∧
    ∀ b, f.command.sourceProxyGuid ≠ (roster.config b).guid

/-- Proxies register no methods with each other. -/
theorem cmd_ne_registerInvoke {s s' : Proxy} {i : Input} {out : Output}
    (hstep : Proxy.Step s i out s') : ∀ f ∈ out.frames, f.command.cmd ≠ .registerInvoke := by
  intro f hf
  have hpublication := hstep.publication
  generalize out.frames = frames at hpublication hf
  cases hpublication with
  | silent => simp at hf
  | requested => simp [(Proxy.mem_requestRegistryExchange hf).1]
  | @relayed _ _ cmdReq _ reply targetNode =>
    rw [List.mem_singleton.mp hf]
    change cmdReq.cmd ≠ _
    rcases reply with hcmd | hcmd <;> simp [hcmd]
  | _ =>
    rw [List.mem_singleton.mp hf]
    simp [Command.cmd, Proxy.routed, Proxy.notFound, Proxy.callbackNotFound, Proxy.pong,
      Proxy.event, Proxy.unknownCommand]

omit [DecidableEq ι] in
/-- A registration of a node files a method that is served by a node. -/
theorem servedByNode_of_source {source : Bytes} (hlength : source.length = GUID_SIZE)
    (hne : ∀ b, source ≠ (roster.config b).guid) (b : ι) :
    topicOf (cStr source) GUID_SIZE ≠ (roster.config b).guid := by
  intro htopic
  obtain ⟨hsize, hbegins⟩ := (topicOf_eq_iff (roster.config b).zero_notMem_guid).mp htopic
  have hsource : (roster.config b).guid <+: source := hbegins.trans (List.takeWhile_prefix _)
  exact hne b (hsource.eq_of_length (hsize.trans hlength.symm)).symm

/-- **Local methods are served by nodes**, in every reachable state. -/
theorem Run.nodesServe (run : Run roster h net) (a : ι) :
    (net.proxy a).localInvokeMethods.AllOffers (ServedByNode roster) := by
  refine (Run.assume_guarantee (W := fun _ => RegisteredByNode roster)
    (I := fun _ _ s => s.localInvokeMethods.AllOffers (ServedByNode roster))
    (fun _ _ _ hf => hf) (fun _ _ _ _ hs => hs) (fun a i e he => ?_)
    (fun h node a cmdReq client _ => ?_) (fun h t _ a i out s' hstep hs hbrings => ?_) run).2 a
  · simp [Proxy.init, methodsOf] at he
  · exact ⟨client.source ▸ client.length_node, fun b => client.source ▸ client.ne_guid b⟩
  · refine ⟨?_, fun f hf _ hcmd => absurd hcmd (cmd_ne_registerInvoke hstep f hf)⟩
    cases hstep.registryEffect with
    | same loc => exact hs.congr loc
    | @registered now rand cmdReq key _ call loc =>
      obtain hregistered | hevent := hbrings now rand cmdReq key rfl
      · obtain ⟨hlength, hne⟩ := hregistered call
        rw [loc]
        refine (hs.congr (methodsOf_emplace _ _)).fileMethod ?_ now
        exact servedByNode_of_source hlength hne
      · simp [call] at hevent
    | advertised _ loc => exact loc ▸ hs
    | checkedLocal loc => exact loc ▸ hs.sweep _
    | checkedRemote loc => exact loc ▸ hs

/-! ### Hops -/

variable (roster) in
/-- The proxy `x` runs, has no local method under the identifier, and lists one of the proxy `y`. -/
def Hops (net : Net ι) (i : Bytes) (x y : ι) : Prop :=
  net.status x = .running ∧ methodsOf (net.proxy x).localInvokeMethods i = [] ∧
    ∃ e ∈ methodsOf (net.proxy x).remoteInvokeMethods i, e.ownerGuid = (roster.config y).guid

/-- Two networks in which the same proxies run, with the same registries. -/
structure SameRegistries (net net' : Net ι) : Prop where
  status : net'.status = net.status
  loc : ∀ x i, methodsOf (net'.proxy x).localInvokeMethods i =
    methodsOf (net.proxy x).localInvokeMethods i
  remote : ∀ x i, methodsOf (net'.proxy x).remoteInvokeMethods i =
    methodsOf (net.proxy x).remoteInvokeMethods i

omit [DecidableEq ι] in
theorem SameRegistries.trans {net'' : Net ι} (same : SameRegistries net net')
    (same' : SameRegistries net' net'') : SameRegistries net net'' where
  status := same'.status.trans same.status
  loc x i := (same'.loc x i).trans (same.loc x i)
  remote x i := (same'.remote x i).trans (same.remote x i)

omit [DecidableEq ι] in
theorem SameRegistries.hops_iff (same : SameRegistries net net') (i : Bytes) (x y : ι) :
    Hops roster net' i x y ↔ Hops roster net i x y := by
  rw [Hops, Hops, same.status, same.loc, same.remote]

/-- Handling a call changes no registry. -/
theorem sameRegistries_of_deliver {a : ι} {f : Frame} {now : ℤ} {rand : ℕ} {key : Bytes}
    (hstep : Step roster net (.deliver a f now rand key) frames net')
    (hcall : f.command.cmd = .invoke) : SameRegistries net net' := by
  cases hstep with
  | deliver _ _ _ handled =>
    obtain ⟨hloc, hremote⟩ := handled.lists_of_invoke hcall
    refine ⟨rfl, fun x i => ?_, fun x i => ?_⟩
    · rw [commit_proxy]
      split_ifs with hx
      · rw [hx, hloc]
      · rfl
    · rw [commit_proxy]
      split_ifs with hx
      · rw [hx, hremote]
      · rfl

/-- **How a call leaves a proxy.** A proxy that handles a call publishes one frame: the call, to a
proxy to which it can hop; the call, to a node; or an `ERROR`, to the source of the call. -/
theorem deliver_call_cases (run : Run roster h net) {a : ι} {f : Frame} {now : ℤ} {rand : ℕ}
    {key : Bytes} (hstep : Step roster net (.deliver a f now rand key) frames net')
    (hcall : f.command.cmd = .invoke) :
    ∃ f', frames = [f'] ∧
      ((∃ b, Hops roster net f.command.identifier a b ∧ f'.topic = (roster.config b).guid ∧
          f'.command.cmd = .invoke ∧ f'.command.guidFrom = f.command.guidFrom ∧
          f'.command.identifier = f.command.identifier) ∨
        f'.command.cmd = .invoke ∧ (∀ b, f'.topic ≠ (roster.config b).guid) ∨
        f'.command.cmd = .error ∧ f'.topic = f.command.sourceProxyGuid) := by
  cases hstep with
  | deliver running inFlight _ handled =>
    have hlength := ((Run.firstHand run).1 f inFlight).length_source
    obtain ⟨subs, published, -, hcallback, rfl⟩ := handled.of_command
    rw [Proxy.subscriberCallback] at hcallback
    simp only [hcall] at hcallback
    obtain ⟨_, _, -, -, hroute⟩ :=
      Proxy.invoke_cases now rand f.command { net.proxy a with subscribers := subs }
    rcases hroute with ⟨entry, hentry, -, heq⟩ | ⟨hlocal, ⟨entry, hentry, -, heq⟩ | ⟨-, heq⟩⟩
    · rw [heq] at hcallback
      cases hcallback
      exact ⟨_, rfl, .inr (.inl ⟨rfl, (Run.nodesServe run a _ entry hentry).2⟩)⟩
    · rw [heq] at hcallback
      cases hcallback
      obtain ⟨hidentifier, b, -, howner, -⟩ := (Run.firstHand run).2 a _ entry hentry
      have howner : entry.ownerGuid = (roster.config b).guid := howner
      have hhop : Hops roster net f.command.identifier a b :=
        ⟨running, hlocal, entry, hentry, howner⟩
      refine ⟨_, rfl, .inl ⟨b, hhop, ?_, rfl, rfl, hidentifier⟩⟩
      rw [publish_topic, howner, topicOf_eq_self (roster.config b).length_guid]
    · rw [heq] at hcallback
      cases hcallback
      exact ⟨_, rfl, .inr (.inr ⟨rfl, topicOf_eq_self hlength⟩)⟩

/-! ### A call in flight -/

section Calls

variable [Fintype ι] {net₀ : Net ι} {g i : Bytes} {now : ℤ} {a b : ι} {l : List ι}

variable (roster) in
/-- The frame is a call with the guid `g` to a proxy. -/
def IsForward (g : Bytes) (f : Frame) : Prop :=
  f.command.cmd = .invoke ∧ f.command.guidFrom = g ∧ ∃ b, f.topic = (roster.config b).guid

instance (g : Bytes) : DecidablePred (IsForward roster g) := fun _ =>
  inferInstanceAs (Decidable (_ ∧ _ ∧ _))

instance (net : Net ι) (i : Bytes) (x y : ι) : Decidable (Hops roster net i x y) :=
  inferInstanceAs (Decidable (_ ∧ _ ∧ ∃ e ∈ _, _))

variable (roster) in
/-- The calls with the guid `g` in flight to proxies. -/
def callsInFlight (g : Bytes) (net : Net ι) : List Frame :=
  net.wire.filter fun f => decide (IsForward roster g f)

variable (roster) in
/-- The proxy that forwards a call with the guid `g` to a proxy in the transition. -/
def forwarder (g : Bytes) (t : Transition (Net ι) (Action ι) (List Frame)) : Option ι :=
  match t.action with
  | .deliver a _ _ _ _ => if ∃ f ∈ t.out, IsForward roster g f then some a else none
  | _ => none

omit [DecidableEq ι] in
theorem forwarder_deliver (f f' : Frame) (rand : ℕ) (key : Bytes) :
    forwarder roster g ⟨net, .deliver a f now rand key, [f'], net'⟩ =
      if IsForward roster g f' then some a else none := by
  simp [forwarder]

variable (roster) in
/-- The frames that an input publishes are put in flight behind the others. -/
theorem callsInFlight_commit (g : Bytes) (a : ι) (s' : Proxy) (out : Output) (net : Net ι) :
    callsInFlight roster g (net.commit a s' out) = callsInFlight roster g net ++
      out.frames.filter fun f => decide (IsForward roster g f) := by
  rw [callsInFlight, callsInFlight, commit, List.filter_append, List.filter_filter]
  congr 2
  ext f
  by_cases hf : IsForward roster g f
  · simp [hf, hf.1]
  · simp [hf]

variable (roster) in
/-- A step that holds the registries and the clock fixed, and in which no node sends a call with the
guid `g`. -/
structure Holds (g : Bytes) (now : ℤ) (t : Transition (Net ι) (Action ι) (List Frame)) : Prop where
  registries : SameRegistries t.pre t.post
  clock : ∀ a f time rand key, t.action = .deliver a f time rand key → time = now
  unsent : ∀ node a cmdReq, t.action = .send node a cmdReq →
    ¬ (cmdReq.cmd = .invoke ∧ cmdReq.guidFrom = g)

variable (roster) in
/-- A call with the guid `g` that started at the proxy `a` was forwarded by the proxies `l`, and is
in flight to the next one, or no more. -/
def Wandered (net₀ : Net ι) (g i : Bytes) (a : ι) (l : List ι) (net : Net ι) : Prop :=
  ∃ b, Walk (Hops roster net₀ i) a l b ∧ (callsInFlight roster g net = [] ∨
    ∃ f, callsInFlight roster g net = [f] ∧ f.topic = (roster.config b).guid ∧
      f.command.identifier = i)

variable (roster) in
omit [DecidableEq ι] [Fintype ι] in
/-- A call with the guid `g` is published for a call with this guid only. -/
theorem not_isForward_of_step {s s' : Proxy} {i : Input} {out : Output}
    (hstep : Proxy.Step s i out s')
    (other : ∀ now rand cmdReq key, i = .command now rand cmdReq key →
      ¬ (cmdReq.cmd = .invoke ∧ cmdReq.guidFrom = g)) :
    ∀ f ∈ out.frames, ¬ IsForward roster g f := by
  rintro f hf ⟨hcmd, hguid, -⟩
  have heffect := hstep.pendingEffect
  generalize out.frames = frames at heffect hf
  cases heffect with
  | quiet _ notRouted => exact notRouted f hf hcmd
  | ponged => simp [List.mem_singleton.mp hf, Proxy.pong, Command.cmd] at hcmd
  | refused => simp [List.mem_singleton.mp hf, Proxy.callbackNotFound, Command.cmd] at hcmd
  | routed call =>
    rw [List.mem_singleton.mp hf] at hguid
    exact other _ _ _ _ rfl ⟨call, hguid⟩
  | @relayed _ _ cmdReq _ _ reply =>
    have hreply : cmdReq.cmd = .invoke := by
      rw [List.mem_singleton.mp hf] at hcmd
      exact hcmd
    simp [Command.IsReply, hreply] at reply
  | cleaned silent => simp [silent] at hf

/-- In a step that does not handle a call with the guid `g`, nobody forwards one, and none comes in
flight. -/
theorem Step.callsInFlight_sublist (run : Run roster h net)
    (hstep : Step roster net act frames net') (holds : Holds g now ⟨net, act, frames, net'⟩)
    (other : ∀ a f time rand key, act = .deliver a f time rand key →
      ¬ (f.command.cmd = .invoke ∧ f.command.guidFrom = g)) :
    forwarder roster g ⟨net, act, frames, net'⟩ = none ∧
      (callsInFlight roster g net').Sublist (callsInFlight roster g net) := by
  -- one proxy executes another input, in a network with some of the frames in flight
  have committed : ∀ (base : Net ι) (a : ι) (i : Input) (s' : Proxy) (out : Output),
      base.wire.Sublist net.wire → (net.proxy a).Step i out s' →
      (∀ now rand cmdReq key, i = .command now rand cmdReq key →
        ¬ (cmdReq.cmd = .invoke ∧ cmdReq.guidFrom = g)) →
      (∀ f ∈ out.frames, ¬ IsForward roster g f) ∧
        (callsInFlight roster g (base.commit a s' out)).Sublist (callsInFlight roster g net) := by
    intro base a i s' out hsub hexec hother
    have hnone := not_isForward_of_step roster hexec hother
    have hfilter : (out.frames.filter fun f => decide (IsForward roster g f)) = [] := by
      rw [List.filter_eq_nil_iff]
      intro f hf
      simpa using hnone f hf
    refine ⟨hnone, ?_⟩
    rw [callsInFlight_commit, hfilter, List.append_nil]
    exact hsub.filter _
  cases hstep with
  | start => exact ⟨rfl, List.Sublist.refl _⟩
  | stop => exact ⟨rfl, List.Sublist.refl _⟩
  | @send node a cmdReq =>
    have hnot : ¬ IsForward roster g ⟨(roster.config a).guid, cmdReq⟩ :=
      fun hforward => holds.unsent node a cmdReq rfl ⟨hforward.1, hforward.2.1⟩
    exact ⟨rfl, by simp [callsInFlight, hnot]⟩
  | lose => exact ⟨rfl, List.erase_sublist.filter _⟩
  | @deliver a f time rand key _ _ _ _ _ handled =>
    obtain ⟨hnone, hsub⟩ := committed { net with wire := net.wire.erase f } a _ _ _
      List.erase_sublist handled (by
        rintro _ _ _ _ ⟨⟩
        exact other a f time rand key rfl)
    refine ⟨if_neg ?_, hsub⟩
    rintro ⟨f', hf', hforward⟩
    exact hnone f' hf' hforward
  | @overhear a f _ _ _ _ _ _ onAir handled =>
    refine ⟨rfl, (committed net a _ _ _ (List.Sublist.refl _) handled ?_).2⟩
    rintro _ _ _ _ ⟨⟩ ⟨hcall, -⟩
    simp [((Run.sound run).event f onAir).1] at hcall
  | @housekeep a _ _ _ _ housekeeping handled =>
    refine ⟨rfl, (committed net a _ _ _ (List.Sublist.refl _) handled ?_).2⟩
    rintro _ _ _ _ rfl
    exact housekeeping.elim
  | @greet a _ _ _ _ _ _ handled =>
    exact ⟨rfl, (committed net a _ _ _ (List.Sublist.refl _) handled (by simp)).2⟩
  | pingRedis => exact ⟨rfl, List.Sublist.refl _⟩
  | @visit a _ _ _ _ _ rest _ _ _ _ _ handled =>
    exact ⟨rfl, (committed { net with scan := Function.update net.scan a rest } a _ _ _
      (List.Sublist.refl _) handled (by simp)).2⟩

/-- A step extends the walk of a call by the proxy that forwards it. -/
theorem Step.wandered (run : Run roster h net) (hstep : Step roster net act frames net')
    (same : SameRegistries net₀ net) (holds : Holds g now ⟨net, act, frames, net'⟩)
    (hw : Wandered roster net₀ g i a l net) :
    Wandered roster net₀ g i a (l ++ (forwarder roster g ⟨net, act, frames, net'⟩).toList)
      net' := by
  obtain ⟨b, walk, hflight⟩ := hw
  by_cases hcalls : ∃ c f time rand key, act = .deliver c f time rand key ∧
      f.command.cmd = .invoke ∧ f.command.guidFrom = g
  · obtain ⟨c, f, time, rand, key, rfl, hcall, hguid⟩ := hcalls
    obtain ⟨f', hframes, hcases⟩ := deliver_call_cases run hstep hcall
    cases hstep with
    | @deliver _ _ _ _ _ s' out running inFlight addressed handled =>
      -- the call was the only one in flight, and what is published takes its place
      have hmem : f ∈ callsInFlight roster g net :=
        List.mem_filter.mpr ⟨inFlight, decide_eq_true ⟨hcall, hguid, c, addressed⟩⟩
      obtain hnil | ⟨f₀, hf₀, haddressed, hidentifier⟩ := hflight
      · simp [hnil] at hmem
      · obtain rfl : f = f₀ := by simpa [hf₀] using hmem
        obtain rfl : c = b := roster.guid_injective (addressed.symm.trans haddressed)
        have hrest : callsInFlight roster g { net with wire := net.wire.erase f } = [] := by
          have herase : (callsInFlight roster g net).erase f =
              callsInFlight roster g { net with wire := net.wire.erase f } := List.erase_filter
          rw [← herase, hf₀, List.erase_cons_head]
        have hafter := callsInFlight_commit roster g c s' out
          { net with wire := net.wire.erase f }
        rw [hrest, List.nil_append, hframes] at hafter
        rcases hcases with ⟨d, hhop, htopic, hcmd, hsame, hkeyed⟩ | hend
        · have hforward : IsForward roster g f' := ⟨hcmd, hsame.trans hguid, d, htopic⟩
          have hlast : Hops roster net₀ i c d := by
            rw [← same.hops_iff, ← hidentifier]
            exact hhop
          rw [hframes, forwarder_deliver, if_pos hforward]
          refine ⟨d, walk.append (.cons hlast .nil), .inr ⟨f', ?_, htopic, ?_⟩⟩
          · rw [hafter]
            simp [hforward]
          · exact hkeyed.trans hidentifier
        · have hnot : ¬ IsForward roster g f' := by
            rintro ⟨hcmd, -, d, htopic⟩
            obtain ⟨-, hnode⟩ | ⟨herror, -⟩ := hend
            · exact hnode d htopic
            · simp [herror] at hcmd
          rw [hframes, forwarder_deliver, if_neg hnot, Option.toList_none, List.append_nil]
          refine ⟨c, walk, .inl ?_⟩
          rw [hafter]
          simp [hnot]
  · obtain ⟨hnone, hsub⟩ := hstep.callsInFlight_sublist run holds
      fun c f time rand key haction hcall => hcalls ⟨c, f, time, rand, key, haction, hcall⟩
    rw [hnone, Option.toList_none, List.append_nil]
    refine ⟨b, walk, ?_⟩
    obtain hnil | ⟨f, hf, haddressed⟩ := hflight
    · rw [hnil] at hsub
      exact .inl (List.sublist_nil.mp hsub)
    · rw [hf] at hsub
      rcases List.sublist_singleton.mp hsub with hnil | hkept
      · exact .inl hnil
      · exact .inr ⟨f, hkept, haddressed⟩

/-- **Forwarding is walking.** Along every trace that holds the registries fixed, the proxies that
forward a call walk along the hops. -/
theorem wandered_of_trace (run : Run roster h net₀) (trace : Trace (Step roster) net₀ h' net)
    (holds : ∀ t ∈ h', Holds g now t) (hw : Wandered roster net₀ g i a [] net₀) :
    SameRegistries net₀ net ∧
      Wandered roster net₀ g i a (h'.filterMap (forwarder roster g)) net := by
  induction trace with
  | nil => exact ⟨⟨rfl, fun _ _ => rfl, fun _ _ => rfl⟩, hw⟩
  | @snoc h' net act frames net' before last ih =>
    obtain ⟨same, hwandered⟩ := ih fun t ht => holds t (by simp [ht])
    have hlast : Holds g now ⟨net, act, frames, net'⟩ := holds _ (by simp)
    have hnext := last.wandered (run.append before) same hlast hwandered
    refine ⟨same.trans hlast.registries, ?_⟩
    rw [List.filterMap_append]
    cases hforwarder : forwarder roster g ⟨net, act, frames, net'⟩ with
    | none => simpa [hforwarder] using hnext
    | some c => simpa [hforwarder] using hnext

/-- A call can be forwarded along every walk, if the right methods are picked. -/
theorem exists_trace_of_walk (walk : Walk (Hops roster net₀ i) a l b) (now : ℤ) :
    ∀ {h : List (Transition (Net ι) (Action ι) (List Frame))} {net : Net ι} {f : Frame},
      Run roster h net → SameRegistries net₀ net → f ∈ net.wire →
      f.topic = (roster.config a).guid → f.command.cmd = .invoke → f.command.guidFrom = g →
      f.command.identifier = i →
        ∃ h' net', Trace (Step roster) net h' net' ∧ (∀ t ∈ h', Holds g now t) ∧
          h'.filterMap (forwarder roster g) = l := by
  induction walk with
  | nil =>
    intro h net f _ _ _ _ _ _ _
    exact ⟨[], net, .nil, by simp, rfl⟩
  | @cons a c b l hop rest ih =>
    intro h net f run same hf haddressed hcall hguid hidentifier
    obtain ⟨running, hlocal, entry, hentry, howner⟩ := (same.hops_iff i a c).mpr hop
    subst hidentifier
    obtain ⟨rand, s', handled⟩ := Proxy.exists_step_forward hcall hlocal hentry now []
    obtain ⟨f', hf'⟩ : ∃ f', f' = publish entry.ownerGuid ((net.proxy a).routed f.command entry) :=
      ⟨_, rfl⟩
    rw [← hf'] at handled
    have hstep := Step.deliver running hf haddressed handled
    have htopic : f'.topic = (roster.config c).guid := by
      rw [hf', publish_topic, howner, topicOf_eq_self (roster.config c).length_guid]
    have hcmd : f'.command.cmd = .invoke := by
      rw [hf']
      rfl
    have hsame : f'.command.guidFrom = g := by
      rw [hf', ← hguid]
      rfl
    have hkeyed : f'.command.identifier = f.command.identifier := by
      rw [hf']
      exact ((Run.firstHand run).2 a _ entry hentry).1
    have hregistries := sameRegistries_of_deliver hstep hcall
    have hflight : f' ∈ ((net.wire.erase f) ++
        [f'].filter fun f => decide (f.command.cmd ≠ .publish)) := by simp [hcmd]
    obtain ⟨h', net', trace, hholds, hforwarders⟩ := ih (run.snoc hstep)
      (same.trans hregistries) hflight htopic hcmd hsame hkeyed
    refine ⟨_ :: h', net', (Trace.nil.snoc hstep).append trace, fun t ht => ?_, ?_⟩
    · rcases List.mem_cons.mp ht with rfl | ht
      · refine ⟨hregistries, ?_, by simp⟩
        rintro _ _ _ _ _ ⟨⟩
        rfl
      · exact hholds t ht
    · have hforward : IsForward roster g f' := ⟨hcmd, hsame, c, htopic⟩
      rw [List.filterMap_cons, forwarder_deliver, if_pos hforward, hforwarders]

variable (roster) in
/-- **The law of forwarding.** Each proxy forwards the call with the guid `g` at most once, so there
are at most as many hops as proxies; and a proxy that handles the call and does not forward it to
another proxy sends it to a node, or an `ERROR` to its source. -/
structure ForwardedOnce (g : Bytes) (h' : List (Transition (Net ι) (Action ι) (List Frame))) :
    Prop where
  once : (h'.filterMap (forwarder roster g)).Nodup
  hops : (h'.filterMap (forwarder roster g)).length ≤ Fintype.card ι
  ends : ∀ t ∈ h', ∀ a f now rand key, t.action = .deliver a f now rand key →
    f.command.cmd = .invoke → f.command.guidFrom = g →
      forwarder roster g t = some a ∨ ∃ f', t.out = [f'] ∧
        (f'.command.cmd = .invoke ∧ (∀ b, f'.topic ≠ (roster.config b).guid) ∨
          f'.command.cmd = .error ∧ f'.topic = f.command.sourceProxyGuid)

/-- A proxy that handles a call forwards it to a proxy, or the call ends. -/
theorem forwarder_or_ends (run : Run roster h net) (ht : t ∈ h) {f : Frame} {rand : ℕ} {key : Bytes}
    (haction : t.action = .deliver a f now rand key) (hcall : f.command.cmd = .invoke)
    (hguid : f.command.guidFrom = g) :
    forwarder roster g t = some a ∨ ∃ f', t.out = [f'] ∧
      (f'.command.cmd = .invoke ∧ (∀ b, f'.topic ≠ (roster.config b).guid) ∨
        f'.command.cmd = .error ∧ f'.topic = f.command.sourceProxyGuid) := by
  obtain ⟨h₁, h₂, rfl⟩ := List.append_of_mem ht
  obtain ⟨before, hstep, -⟩ := run.split_cons
  rw [haction] at hstep
  obtain ⟨f', hframes, ⟨b, -, htopic, hcmd, hsame, -⟩ | hend⟩ :=
    deliver_call_cases before hstep hcall
  · left
    rw [forwarder, haction]
    exact if_pos ⟨f', by simp [hframes], hcmd, hsame.trans hguid, b, htopic⟩
  · exact .inr ⟨f', hframes, hend⟩

/-- A node sends a call to the first proxy, which knows the method of the second one. -/
def callSent : List (Action Site) :=
  knownMethod ++ [.send (List.replicate GUID_SIZE 78) .first addCall.command]

/-- A node registers a method with both proxies, they learn of each other's method at time 10, and
both delete their own at time 11. Then a node sends a call to the first proxy. -/
def listedCrosswise : List (Action Site) :=
  let server := List.replicate GUID_SIZE 83
  let registration : Command :=
    { cmd? := some .registerInvoke
      sourceProxyGuid? := some server
      payload? := some (List.replicate GUID_SIZE 77)
      identifier? := some (ascii "add") }
  let request (a b : Site) : Frame := publish (localhost.config b).guid
    { cmd? := some .registryExchangeRequest
      sourceProxyGuid? := some (localhost.config a).guid
      payload? := some (ascii "REGISTRY_EXCHANGE_REQUEST please :)") }
  let response (a b : Site) : Frame := publish (localhost.config b).guid
    { cmd? := some .registryExchangeResponse
      sourceProxyGuid? := some (localhost.config a).guid
      payload? := some (ascii "here is my registry")
      regEntry :=
        [{ type? := some .invokeMethod
           identifier? := some (ascii "add")
           methodGuid? := some (List.replicate GUID_SIZE 77)
           proxyGuid? := some (localhost.config a).guid }] }
  [.start .first, .start .second, .send server .first registration,
    .send server .second registration,
    .deliver .first ⟨(localhost.config .first).guid, registration⟩ 0 0 [],
    .deliver .second ⟨(localhost.config .second).guid, registration⟩ 0 0 [],
    .pingRedis .first 2 [], .pingRedis .second 2 [(localhost.config .first).member],
    .pingRedis .first 2 [(localhost.config .second).member],
    .visit .first 2 (some .second) true true, .visit .second 2 (some .first) true true,
    .housekeep .first (.requestRegistryExchange 10),
    .housekeep .second (.requestRegistryExchange 10),
    .deliver .second (request .first .second) 10 0 [],
    .deliver .first (request .second .first) 10 0 [],
    .deliver .first (response .second .first) 10 0 [],
    .deliver .second (response .first .second) 10 0 [],
    .housekeep .first (.localRegistryHealthChecks 11),
    .housekeep .second (.localRegistryHealthChecks 11),
    .send (List.replicate GUID_SIZE 78) .first addCall.command]

end Calls

end Net

end EsbProxy
