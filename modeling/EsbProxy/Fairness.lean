import EsbProxy.Foundation.Service
import EsbProxy.MainLoopRuns

/-!
# No subscriber starves

A visit takes at most 1000 messages from a subscriber, and ends early at a malformed one; a
subscriber behind one that is erased is passed by in that turn. A message still waits for a bounded
number of turns only: every visit brings it forward by 1000 messages or past a malformed one, and
every turn that passes a subscriber by has erased another one, which must have been there at the
start or have said hello since.

## Main definitions

* `Proxy.connections`, `killCount`, `helloCount`: the balance of the connections.
* `TurnLog.taken`, `TurnLog.dispatched`: what a turn takes from a subscriber, and what it
  dispatches.
* `Feeds`: the messages that are not taken stay in front of those that come later.

## Main results

* `Proxy.Step.connections_le`, `MainLoop.Turn.connections_le`: the balance of a step and of a turn.
* `MainLoop.no_starvation`.
-/

namespace EsbProxy

open Foundation

/-! ### The balance of the connections -/

/-- The number of connections. -/
def Proxy.connections (s : Proxy) : ℕ := s.subscribers.keys.length

/-- The number of connections that the steps of a trace kill. -/
def killCount (steps : List (Transition Proxy Input Output)) : ℕ :=
  steps.countP fun t => (t.pre.killedBy t.action).isSome

/-- The number of hellos that succeed in the steps of a trace. -/
def helloCount (steps : List (Transition Proxy Input Output)) : ℕ :=
  steps.countP fun t => (t.pre.helloOf t.action).isSome

namespace Proxy

variable {s s' : Proxy} {i : Input} {out : Output} {key : Bytes}
  {steps : List (Transition Proxy Input Output)}

/-- What is killed was a connection. -/
theorem mem_subscribers_of_killedBy (hkilled : s.killedBy i = some key) : key ∈ s.subscribers := by
  unfold killedBy at hkilled
  split at hkilled
  · obtain ⟨sub, hsub, -⟩ := Dict.exists_lookup_of_firstKey hkilled
    exact Dict.mem_iff_exists_lookup.mpr ⟨sub, hsub⟩
  · split at hkilled
    · obtain ⟨rfl, t, ht, -⟩ := expired_eq_some_iff.mp hkilled
      exact mem_subscribers_iff.mpr (by rw [ht]; rfl)
    · simp at hkilled

/-- **The balance of a step.** A connection was there before, or is that of a hello; one that is
killed is gone. -/
theorem Step.connections_le (hstep : Step s i out s') :
    s'.connections + (s.killedBy i).toList.length ≤
      s.connections + (s.helloOf i).toList.length := by
  have hlink := hstep.connectionEffect.link_eq
  have hmem : ∀ key ∈ s'.subscribers.keys, key ∈ (s.helloOf i).toList.map Hello.key ∨
      key ∈ s.subscribers.keys ∧ s.killedBy i ≠ some key := by
    intro key hkey
    have hsome : s'.link key ≠ none := mt link_eq_none_iff.mp (not_not.mpr hkey)
    rw [hlink] at hsome
    split at hsome
    · rename_i link hsurvives
      refine .inr ⟨?_, fun hkilled => ?_⟩
      · have hbefore : s.link key ≠ none := by
          rw [link_of_survivor hsurvives]
          simp
        exact not_not.mp (mt link_eq_none_iff.mpr hbefore)
      · rw [survivor, if_pos hkilled] at hsurvives
        simp at hsurvives
    · left
      cases hgreets : s.helloOf i with
      | none => simp [hgreets] at hsome
      | some hello =>
        rw [hgreets, Option.bind_some] at hsome
        split_ifs at hsome with heq
        · simp [heq]
        · simp at hsome
  have hnodup := s'.subscribers.keys_nodup
  rw [connections, connections]
  cases hkilled : s.killedBy i with
  | none =>
    have hsub : s'.subscribers.keys ⊆ (s.helloOf i).toList.map Hello.key ++ s.subscribers.keys :=
      fun key hkey => List.mem_append.mpr ((hmem key hkey).imp_right And.left)
    have hlength := (hnodup.subperm hsub).length_le
    rw [List.length_append, List.length_map] at hlength
    simp only [Option.toList_none, List.length_nil]
    omega
  | some killed =>
    have hsub : s'.subscribers.keys ⊆
        (s.helloOf i).toList.map Hello.key ++ s.subscribers.keys.erase killed := fun key hkey =>
      List.mem_append.mpr <| (hmem key hkey).imp_right fun hkept =>
        (List.mem_erase_of_ne fun heq => hkept.2 (hkilled.trans (by rw [heq]))).mpr hkept.1
    have hlength := (hnodup.subperm hsub).length_le
    have hkilled' : killed ∈ s.subscribers.keys := mem_subscribers_of_killedBy hkilled
    have hpos := List.length_pos_of_mem hkilled'
    rw [List.length_append, List.length_map, List.length_erase_of_mem hkilled'] at hlength
    simp only [Option.toList_some, List.length_singleton]
    omega

/-- The balance of a trace. -/
theorem connections_le_of_trace (htrace : Trace Step s steps s') :
    s'.connections + killCount steps ≤ s.connections + helloCount steps := by
  have hcount : ∀ {α β : Type} (f : α → Option β) (l : List α),
      l.countP (fun x => (f x).isSome) = (l.map fun x => (f x).toList.length).sum := by
    intro α β f l
    induction l with
    | nil => rfl
    | cons x l ih =>
      rw [List.countP_cons, List.map_cons, List.sum_cons, ih]
      cases f x with
      | none => simp
      | some y => simp [Nat.add_comm]
  rw [killCount, helloCount, hcount, hcount]
  exact Trace.sum_spent_le (P := fun _ => True) connections _ _
    (fun t hstep _ => hstep.connections_le) htrace fun _ _ => trivial

theorem connections_congr (h : ∀ key, key ∈ s'.subscribers ↔ key ∈ s.subscribers) :
    s'.connections = s.connections :=
  ((List.perm_ext_iff_of_nodup s'.subscribers.keys_nodup s.subscribers.keys_nodup).mpr
    h).length_eq

theorem connections_rehash (orders : Orders) (s : Proxy) :
    (s.rehash orders).connections = s.connections :=
  connections_congr fun key => by
    rw [rehash]
    exact Dict.mem_congr (Dict.lookup_reorder orders.subscribers key s.subscribers)

theorem connections_finishTurn (o : Surroundings) (s : Proxy) :
    (s.finishTurn o).connections = s.connections := by
  have hasked : ∀ s : Proxy,
      (s.requestRegistryExchange o.exchangeTime).1.connections = s.connections := fun s => by
    obtain ⟨stamp, hstamp⟩ := s.requestRegistryExchange_eq o.exchangeTime
    rw [hstamp]
    rfl
  have hcleaned : ∀ s : Proxy, (s.cleanUpResponsesMap o.cleanUpTime).connections = s.connections :=
    fun s => by
      rw [sameButPending_cleanUpResponsesMap]
      rfl
  rw [finishTurn, hcleaned, connections_rehash, hasked, connections_rehash]

end Proxy

/-- The number of hellos that succeed in a turn: that of the request, and those that the proxy says
itself. -/
def TurnLog.hellos (codec : Codec) (o : Surroundings) (s : Proxy) (log : TurnLog) : ℕ :=
  ((o.requested codec).countP fun i => (s.helloOf i).isSome) +
    (log.kept.map fun kept => helloCount kept.pinged).getD 0

/-- A visit erases a subscriber by killing a connection. -/
theorem Proxy.killCount_of_erased {codec : Codec} {now : ℤ} {key : Bytes} : ∀ {r : ℕ}
    {queue : List Arrival} {s s' : Proxy} {v : Visit},
    s.pollMessages codec now key r queue = .ok (s', v) → v.erased = true → 0 < killCount v.steps
  | 0, _, s, s', v, hvisit, herased => by
      obtain ⟨-, rfl⟩ := Prod.mk.inj (Except.ok.inj hvisit)
      simp at herased
  | _ + 1, [], s, s', v, hvisit, herased => by
      obtain ⟨-, rfl⟩ := Prod.mk.inj (Except.ok.inj hvisit)
      exact List.countP_pos_iff.mpr ⟨_, List.mem_singleton_self _, herased⟩
  | r + 1, a :: queue, s, s', v, hvisit, herased => by
      rw [pollMessages] at hvisit
      split at hvisit
      · obtain ⟨-, rfl⟩ := Prod.mk.inj (Except.ok.inj hvisit)
        exact List.countP_pos_iff.mpr ⟨_, List.mem_singleton_self _, herased⟩
      · simp only at hvisit
        split at hvisit
        · simp at hvisit
        · split at hvisit
          · simp at hvisit
          · rename_i s₁ v₁ hrest
            obtain ⟨-, rfl⟩ := Prod.mk.inj (Except.ok.inj hvisit)
            have hkills := killCount_of_erased hrest herased
            rw [killCount, List.countP_cons]
            exact Nat.lt_of_lt_of_le hkills (Nat.le_add_right _ _)

section

variable {codec : Codec} {o : Surroundings} {m : MainLoop} {s s' : Proxy} {log : TurnLog}
  {key : Bytes}

/-- The polls of a turn make only the connection of the request. -/
theorem Proxy.connections_pollAll (hpolls : s.pollAll codec o = .ok (s', log)) :
    s'.connections + killCount log.steps ≤
      s.connections + (o.requested codec).countP fun i => (s.helloOf i).isSome := by
  obtain ⟨s₁, hpoll, -, -, hpass⟩ := pollAll_cases hpolls
  have hvisits := connections_le_of_trace (pollSubscribers_passSpec hpass).trace
  have hquiet : helloCount log.steps = 0 := by
    rw [helloCount, List.countP_eq_zero]
    intro t ht
    have hvisit := ofVisit_pollAll hpolls t ht
    cases haction : t.action with
    | command | killInactive => simp [helloOf]
    | _ => simp [haction, Input.ofVisit] at hvisit
  rw [connections_rehash] at hvisits
  change s'.connections + killCount log.steps ≤ s₁.connections + helloCount log.steps at hvisits
  have hrequest : s₁.connections ≤
      s.connections + (o.requested codec).countP fun i => (s.helloOf i).isSome := by
    rcases pollResponder_cases hpoll with ⟨hnone, rfl⟩ | ⟨i, out, hrequested, -, -, hstep⟩
    · omega
    · have hbalance := hstep.connections_le
      rw [hrequested, List.countP_singleton]
      cases hgreets : s.helloOf i with
      | none =>
        simp only [hgreets, Option.toList_none, List.length_nil] at hbalance
        simp
        omega
      | some hello =>
        simp only [hgreets, Option.toList_some, List.length_singleton] at hbalance
        simp
        omega
  omega

/-- **The balance of a turn.** -/
theorem MainLoop.Turn.connections_le (hsteady : o.Steady) (hturn : Turn codec o m log s') :
    s'.connections + killCount log.steps ≤ m.proxy.connections + log.hellos codec o m.proxy := by
  cases hturn with
  | quiet polls notDue =>
    have hbalance := Proxy.connections_pollAll polls
    rw [TurnLog.hellos]
    omega
  | @due s s₁ s₂ s₃ log kept polls due pings remote own =>
    have hbalance := Proxy.connections_pollAll polls
    have hpinged := Proxy.connections_le_of_trace (Proxy.pingRedis_trace pings).1
    have hchecked : s₃.connections = s₁.connections := by
      rw [Proxy.localChecks_eq hsteady.own own, Proxy.connections_rehash]
      change s₂.connections = s₁.connections
      rw [Proxy.remoteChecks_eq hsteady.remote remote, Proxy.connections_rehash]
      rfl
    rw [Proxy.connections_finishTurn, hchecked, TurnLog.hellos, Option.map_some, Option.getD_some]
    change s₁.connections + killCount log.steps ≤ _
    omega

/-! ### What a turn takes from a subscriber -/

/-- The visits of a subscriber. -/
def TurnLog.visitsOf (key : Bytes) (log : TurnLog) : List Visit :=
  log.visits.filter fun v => v.key = key

/-- The messages that a turn takes from a subscriber. -/
def TurnLog.taken (key : Bytes) (log : TurnLog) : List Arrival :=
  (log.visitsOf key).flatMap Visit.dequeued

/-- The commands from a subscriber that a turn dispatches. -/
def TurnLog.dispatched (key : Bytes) (log : TurnLog) : List (Bytes × Command) :=
  (log.steps.filterMap fun t => t.action.dispatched).filter fun c => c.1 = key

/-- The subscriber is visited. -/
def TurnLog.visited (key : Bytes) (log : TurnLog) : Bool :=
  log.visits.any fun v => v.key = key

theorem TurnLog.visited_iff {key : Bytes} {log : TurnLog} :
    log.visited key = true ↔ key ∈ log.visits.map Visit.key := by
  simp [visited, List.mem_map]

/-- A visit takes up to 1000 messages, and stops behind the first malformed one. -/
theorem Proxy.dequeued_pollMessages {now : ℤ} : ∀ {r : ℕ} {queue : List Arrival} {s s' : Proxy}
    {v : Visit}, s.pollMessages codec now key r queue = .ok (s', v) →
      v.dequeued = queue.take (min r ((leading codec s.guid queue).length + 1))
  | 0, queue, s, s', v, hvisit => by
      obtain ⟨-, rfl⟩ := Prod.mk.inj (Except.ok.inj hvisit)
      simp
  | r + 1, [], s, s', v, hvisit => by
      obtain ⟨-, rfl⟩ := Prod.mk.inj (Except.ok.inj hvisit)
      simp
  | r + 1, a :: queue, s, s', v, hvisit => by
      rw [pollMessages] at hvisit
      split at hvisit
      · rename_i hmsg
        obtain ⟨-, rfl⟩ := Prod.mk.inj (Except.ok.inj hvisit)
        rw [leading_cons_of_none hmsg]
        simp
      · rename_i cmdReq hmsg
        simp only at hvisit
        split at hvisit
        · simp at hvisit
        · rename_i s₁ out hexec
          split at hvisit
          · simp at hvisit
          · rename_i s₂ v₁ hrest
            obtain ⟨-, rfl⟩ := Prod.mk.inj (Except.ok.inj hvisit)
            have hstep : Step s (.command a.time a.rand cmdReq key) out s₁ := hexec
            have hguid : s₁.guid = s.guid := hstep.sameIdentity.1.guid
            have ih := dequeued_pollMessages hrest
            rw [hguid] at ih
            rw [leading_cons_of_some hmsg, List.length_cons, Nat.succ_min_succ, List.take_succ_cons,
              ← ih]

/-- A subscriber that a walk passes by stands behind one that it erased. -/
theorem Walks.visited_or_erased {skip : Bool} {keys : List Bytes} {visits : List Visit}
    (hwalk : Walks skip keys visits) (hkey : key ∈ keys) :
    key ∈ visits.map Visit.key ∨ skip = true ∨ ∃ v ∈ visits, v.erased = true := by
  induction hwalk with
  | done => simp at hkey
  | skips => exact .inr (.inl rfl)
  | @visits v rest visits walks ih =>
    rcases List.mem_cons.mp hkey with rfl | hrest
    · exact .inl List.mem_cons_self
    · rcases ih hrest with hvisited | herased | ⟨u, hu, herased⟩
      · exact .inl (List.mem_cons_of_mem _ hvisited)
      · exact .inr (.inr ⟨v, List.mem_cons_self, herased⟩)
      · exact .inr (.inr ⟨u, List.mem_cons_of_mem _ hu, herased⟩)

/-- No subscriber is visited twice. -/
theorem visitsOf_eq_singleton {log : TurnLog} (hnodup : (log.visits.map Visit.key).Nodup)
    {v : Visit} (hv : v ∈ log.visits) : log.visitsOf v.key = [v] := by
  obtain ⟨before, after, hsplit⟩ := List.append_of_mem hv
  rw [hsplit, List.map_append, List.map_cons, List.nodup_middle, List.nodup_cons,
    List.mem_append, not_or] at hnodup
  obtain ⟨⟨hbefore, hafter⟩, -⟩ := hnodup
  have hother : ∀ {visits : List Visit}, v.key ∉ visits.map Visit.key →
      (visits.filter fun u => u.key = v.key) = [] := by
    intro visits hnot
    refine List.filter_eq_nil_iff.mpr fun u hu => ?_
    have hne : u.key ≠ v.key := fun heq => hnot (heq ▸ List.mem_map_of_mem hu)
    simpa using hne
  rw [TurnLog.visitsOf, hsplit, List.filter_append, List.filter_cons_of_pos (by simp),
    hother hbefore, hother hafter]
  rfl

namespace MainLoop

/-- What a turn does behind the subscribers does not change what it did to them. -/
theorem Turn.polls (hturn : Turn codec o m log s') : ∃ s kept,
    m.proxy.pollAll codec o = .ok (s, { log with kept := kept }) := by
  cases hturn with
  | quiet polls => exact ⟨_, _, polls⟩
  | due polls => exact ⟨_, _, polls⟩

/-- The pass of a turn. -/
theorem Turn.passSpec (hturn : Turn codec o m log s') : ∃ s₁ s : Proxy, s₁.guid = m.proxy.guid ∧
    log.subscribers = s₁.subscribers.keys ∧
    s₁.pollSubscribers codec o.queue o.now = .ok (s, log.visits) := by
  obtain ⟨s, kept, hpolls⟩ := hturn.polls
  obtain ⟨s₁, hpoll, hkeys, -, hpass⟩ := Proxy.pollAll_cases hpolls
  exact ⟨s₁.rehash o.pollOrders, s, (Proxy.executes_pollResponder hpoll).sameIdentity.guid, hkeys,
    hpass⟩

/-- **A turn passes a subscriber by only when it kills another connection.** -/
theorem Turn.visited_or_kills (hturn : Turn codec o m log s') (hkey : key ∈ log.subscribers) :
    log.visited key = true ∨ 0 < killCount log.steps := by
  obtain ⟨s₁, s, -, hkeys, hpass⟩ := hturn.passSpec
  rw [hkeys] at hkey
  rcases (Proxy.pollSubscribers_passSpec hpass).walks.visited_or_erased hkey with
    hvisited | hskip | ⟨v, hv, herased⟩
  · exact .inl (TurnLog.visited_iff.mpr hvisited)
  · simp at hskip
  · right
    obtain ⟨s₂, s₃, -, hpolls⟩ := Proxy.pollMessages_of_walk hpass v hv
    obtain ⟨t, ht, hkills⟩ := List.countP_pos_iff.mp (Proxy.killCount_of_erased hpolls herased)
    exact List.countP_pos_iff.mpr ⟨t, List.mem_flatMap.mpr ⟨v, hv, ht⟩, hkills⟩

/-- **What a turn takes from a subscriber**: nothing when it is not visited. -/
theorem Turn.taken_eq (hturn : Turn codec o m log s') (key : Bytes) :
    log.visited key = false ∧ log.taken key = [] ∨
      log.visited key = true ∧ Advances (fun a => (poll codec m.proxy.guid a.msg).isSome) maxPolls
        (o.queue key) (log.taken key) := by
  obtain ⟨s₁, s, hguid, hkeys, hpass⟩ := hturn.passSpec
  have hwalks := (Proxy.pollSubscribers_passSpec hpass).walks
  by_cases hvisited : key ∈ log.visits.map Visit.key
  · right
    refine ⟨TurnLog.visited_iff.mpr hvisited, ?_⟩
    obtain ⟨v, hv, rfl⟩ := List.mem_map.mp hvisited
    have hnodup := s₁.subscribers.keys_nodup.sublist hwalks.sublist
    obtain ⟨s₂, s₃, hguid', hpolls⟩ := Proxy.pollMessages_of_walk hpass v hv
    have hdequeued := Proxy.dequeued_pollMessages hpolls
    rw [hguid', hguid] at hdequeued
    rw [TurnLog.taken, visitsOf_eq_singleton hnodup hv, List.flatMap_singleton]
    exact hdequeued
  · left
    refine ⟨Bool.eq_false_iff.mpr (mt TurnLog.visited_iff.mp hvisited), ?_⟩
    have hnone : log.visitsOf key = [] := List.filter_eq_nil_iff.mpr fun v hv => by
      have hne : v.key ≠ key := fun heq => hvisited (heq ▸ List.mem_map_of_mem hv)
      simpa using hne
    rw [TurnLog.taken, hnone, List.flatMap_nil]

/-- **What a turn dispatches from a subscriber** is what is well-formed in what it takes. -/
theorem Turn.dispatched_eq (hturn : Turn codec o m log s') (key : Bytes) :
    log.dispatched key = commandsIn codec m.proxy.guid key (log.taken key) := by
  obtain ⟨s₁, s, hguid, -, hpass⟩ := hturn.passSpec
  have hvisits := (Proxy.pollSubscribers_passSpec hpass).visits
  rw [hguid] at hvisits
  rw [TurnLog.dispatched, TurnLog.taken, TurnLog.steps, TurnLog.visitsOf]
  generalize log.visits = visits at hvisits
  induction visits with
  | nil => rfl
  | cons v visits ih =>
    obtain ⟨hv, hrest⟩ := List.forall_mem_cons.mp hvisits
    have hdispatched : (v.steps.filterMap fun t => t.action.dispatched) =
        commandsIn codec m.proxy.guid v.key v.dequeued := hv.dispatched
    have hkeys : ∀ c ∈ commandsIn codec m.proxy.guid v.key v.dequeued, c.1 = v.key := by
      intro c hc
      obtain ⟨a, -, ha⟩ := List.mem_filterMap.mp hc
      obtain ⟨cmdReq, -, rfl⟩ := Option.map_eq_some_iff.mp ha
      rfl
    rw [List.flatMap_cons, List.filterMap_append, List.filter_append, ih hrest, hdispatched]
    by_cases hkey : v.key = key
    · subst hkey
      rw [List.filter_eq_self.mpr (by simpa using hkeys), List.filter_cons_of_pos (by simp),
        List.flatMap_cons, commandsIn, commandsIn, commandsIn, List.filterMap_append]
    · have hnone : (commandsIn codec m.proxy.guid v.key v.dequeued).filter
          (fun c => decide (c.1 = key)) = [] :=
        List.filter_eq_nil_iff.mpr fun c hc => by simpa [hkeys c hc] using hkey
      rw [hnone, List.nil_append, List.filter_cons_of_neg (by simpa using hkey)]

end MainLoop

end

/-! ### Many turns -/

section

variable {codec : Codec} {guid key : Bytes} {q : List Arrival} {m₀ m : MainLoop}
  {h : List (Transition MainLoop Surroundings TurnLog)}

/-- The queue of a subscriber in a number of turns: what a turn does not take stays in front of what
arrives later. -/
def Feeds (key : Bytes) : List Arrival → List (Transition MainLoop Surroundings TurnLog) → Prop
  | _, [] => True
  | q, t :: h => ∃ arrived, t.action.queue key = q ++ arrived ∧
      Feeds key ((q ++ arrived).drop (t.out.taken key).length) h

/-- The turns serve the queue of a subscriber. -/
theorem Feeds.exists_serves (hfeeds : Feeds key q h)
    (htaken : ∀ t ∈ h, t.out.visited key = false ∧ t.out.taken key = [] ∨
      t.out.visited key = true ∧ Advances (fun a => (poll codec guid a.msg).isSome) maxPolls
        (t.action.queue key) (t.out.taken key)) :
    ∃ rounds q',
      Serves (Advances (fun a => (poll codec guid a.msg).isSome) maxPolls) q rounds q' ∧
      rounds.flatMap Round.taken = (h.flatMap fun t => t.out.taken key) ∧
      rounds.countP Round.served = h.countP fun t => t.out.visited key := by
  induction h generalizing q with
  | nil => exact ⟨[], q, .done, rfl, rfl⟩
  | cons t h ih =>
    obtain ⟨ht, hrest⟩ := List.forall_mem_cons.mp htaken
    obtain ⟨arrived, hqueue, hfeeds'⟩ := hfeeds
    obtain ⟨rounds, q', hserves, htakes, hserved⟩ := ih hfeeds' hrest
    rw [hqueue] at ht
    have htakes' : q ++ arrived =
        t.out.taken key ++ (q ++ arrived).drop (t.out.taken key).length := by
      rcases ht with ⟨-, hnone⟩ | ⟨-, hadvances⟩
      · rw [hnone]
        rfl
      · have hfront : t.out.taken key <+: q ++ arrived := by
          rw [hadvances]
          exact List.take_prefix _ _
        exact (List.prefix_iff_eq_append.mp hfront).symm
    refine ⟨⟨arrived, t.out.taken key, t.out.visited key⟩ :: rounds, q',
      .round htakes' (fun hvisited => ?_) hserves, ?_, ?_⟩
    · rcases ht with ⟨hnot, -⟩ | ⟨-, hadvances⟩
      · exact absurd (hvisited.symm.trans hnot) (by simp)
      · exact hadvances
    · rw [List.flatMap_cons, List.flatMap_cons, htakes]
    · rw [List.countP_cons, List.countP_cons, hserved]

namespace MainLoop

theorem guid_eq_of_trace (htrace : Trace (Step codec) m₀ h m)
    (hsteady : ∀ t ∈ h, t.action.Steady) : m.proxy.guid = m₀.proxy.guid :=
  Trace.invariant_of_forall (I := fun m : MainLoop => m.proxy.guid = m₀.proxy.guid)
    (P := fun t => t.action.Steady) rfl
    (fun _ hstep ht hguid => (hstep.1.executes ht).sameIdentity.guid.trans hguid) htrace hsteady

/-- A subscriber is visited in all turns but those that kill another connection. -/
theorem length_le_of_trace (htrace : Trace (Step codec) m₀ h m)
    (hsteady : ∀ t ∈ h, t.action.Steady) (hsub : ∀ t ∈ h, key ∈ t.out.subscribers) :
    h.length ≤ (h.countP fun t => t.out.visited key) + m₀.proxy.connections +
      (h.map fun t => t.out.hellos codec t.action t.pre.proxy).sum := by
  have hbalance := Trace.sum_spent_le (P := fun t => t.action.Steady)
    (fun m : MainLoop => m.proxy.connections) (fun t => killCount t.out.steps)
    (fun t => t.out.hellos codec t.action t.pre.proxy)
    (fun t hstep ht => hstep.1.connections_le ht) htrace hsteady
  have hkills : h.length ≤ (h.countP fun t => t.out.visited key) +
      (h.map fun t => killCount t.out.steps).sum := by
    have hturn : ∀ t ∈ h, t.out.visited key = true ∨ 0 < killCount t.out.steps := fun t ht =>
      (htrace.step_of_mem ht).1.visited_or_kills (hsub t ht)
    clear htrace hsteady hsub hbalance
    induction h with
    | nil => simp
    | cons t h ih =>
      obtain ⟨ht, hrest⟩ := List.forall_mem_cons.mp hturn
      have hlength := ih hrest
      rw [List.length_cons, List.countP_cons, List.map_cons, List.sum_cons]
      rcases ht with hvisited | hkill
      · rw [if_pos hvisited]
        omega
      · omega
  omega

/-- **No subscriber starves.** Take any state of the main loop and any turns during which a
subscriber stays connected, and whose clocks do not go back during the health checks. What the
turns dispatch from the subscriber are the well-formed messages that they take from its queue, each
of them once, in order. The message behind `p` others is taken when the number of turns exceeds the
number of thousands and of malformed messages in front of it, and the number of connections that
there were or that were made by a hello: however many messages the other subscribers send. -/
theorem no_starvation (htrace : Trace (Step codec) m₀ h m) (hsteady : ∀ t ∈ h, t.action.Steady)
    (hsub : ∀ t ∈ h, key ∈ t.out.subscribers) (hfeeds : Feeds key q h) :
    (h.flatMap fun t => t.out.dispatched key) =
        commandsIn codec m₀.proxy.guid key (h.flatMap fun t => t.out.taken key) ∧
      ∀ p < q.length,
        p / 1000 + ((q.take p).countP fun a => !(poll codec m₀.proxy.guid a.msg).isSome) +
            m₀.proxy.connections + (h.map fun t => t.out.hellos codec t.action t.pre.proxy).sum <
          h.length →
        q.take (p + 1) <+: h.flatMap fun t => t.out.taken key := by
  have hguid : ∀ t ∈ h, t.pre.proxy.guid = m₀.proxy.guid := fun t ht => by
    obtain ⟨h₁, h₂, rfl⟩ := List.append_of_mem ht
    exact guid_eq_of_trace htrace.split_cons.1 fun u hu => hsteady u (List.mem_append_left _ hu)
  refine ⟨?_, fun p hp hlong => ?_⟩
  · have hturn : ∀ t ∈ h, t.out.dispatched key =
        commandsIn codec m₀.proxy.guid key (t.out.taken key) := fun t ht => by
      rw [← hguid t ht]
      exact (htrace.step_of_mem ht).1.dispatched_eq key
    rw [commandsIn, List.filterMap_flatMap]
    exact List.flatMap_congr hturn
  · have htaken : ∀ t ∈ h, t.out.visited key = false ∧ t.out.taken key = [] ∨
        t.out.visited key = true ∧ Advances (fun a => (poll codec m₀.proxy.guid a.msg).isSome)
          maxPolls (t.action.queue key) (t.out.taken key) := fun t ht => by
      rw [← hguid t ht]
      exact (htrace.step_of_mem ht).1.taken_eq key
    obtain ⟨rounds, q', hserves, htakes, hserved⟩ := hfeeds.exists_serves htaken
    have hvisits := length_le_of_trace htrace hsteady hsub
    have hpast : p < (rounds.flatMap Round.taken).length :=
      hserves.lt_length_taken (by decide) hp (by rw [hserved, maxPolls]; omega)
    have hall := congrArg (List.take (p + 1)) hserves.conserved
    rw [List.take_append_of_le_length hp, List.take_append_of_le_length hpast] at hall
    rw [hall, ← htakes]
    exact List.take_prefix _ _

end MainLoop

end

/-- A proxy with one subscriber. -/
def oneSubscriber : Proxy :=
  let nodeAddress := ascii "tcp://127.0.0.1:9000"
  { Proxy.init (Config.ofSite .first 7770 7780) with
    subscribers := (∅ : Dict Bytes Subscriber).insert nodeAddress
      (.new nodeAddress (List.replicate GUID_SIZE 78) 10) }

/-- The ping of a node, as it waits at the subscriber. -/
def waitingPing : Arrival where
  msg := (publish (List.replicate GUID_SIZE 65)
    { cmd? := some .ping
      sourceProxyGuid? := some (List.replicate GUID_SIZE 78)
      payload? := some (ascii "ping") }).bytes protobuf
  time := 10
  rand := 0

/-- The ping is taken within two turns. -/
theorem no_starvation_waitingPing : ∃ h m,
    Trace (MainLoop.Step protobuf) ⟨1, oneSubscriber⟩ h m ∧ h.length = 2 ∧
      [waitingPing] <+: h.flatMap fun t => t.out.taken (ascii "tcp://127.0.0.1:9000") := by
  let waits : Surroundings := { calm 10 with queue := fun _ => [waitingPing] }
  obtain ⟨s₁, log₁, s₂, log₂, hfirst, hsecond, hkey₁, hkey₂, htaken⟩ : ∃ s₁ log₁ s₂ log₂,
      oneSubscriber.pollAll protobuf waits = .ok (s₁, log₁) ∧
      s₁.pollAll protobuf (calm 10) = .ok (s₂, log₂) ∧
      ascii "tcp://127.0.0.1:9000" ∈ log₁.subscribers ∧
      ascii "tcp://127.0.0.1:9000" ∈ log₂.subscribers ∧
      log₁.taken (ascii "tcp://127.0.0.1:9000") = [waitingPing] :=
    ⟨_, _, _, _, rfl, rfl, by decide, by decide, rfl⟩
  have hturn₁ : MainLoop.Step protobuf ⟨1, oneSubscriber⟩ waits log₁ ⟨2, s₁⟩ :=
    ⟨.quiet hfirst (by change (1 : ℤ).tmod 25 ≠ 0; decide), rfl⟩
  have hturn₂ : MainLoop.Step protobuf ⟨2, s₁⟩ (calm 10) log₂ ⟨3, s₂⟩ :=
    ⟨.quiet hsecond (by change (2 : ℤ).tmod 25 ≠ 0; decide), rfl⟩
  have htrace := (Trace.nil.snoc hturn₁).snoc hturn₂
  have hsteady : waits.Steady := ⟨(steady_calm 10).remote, (steady_calm 10).own⟩
  refine ⟨_, _, htrace, rfl, ?_⟩
  refine (MainLoop.no_starvation htrace ?_ ?_ (q := [waitingPing]) ?_).2 0 (by decide) ?_
  · simp [hsteady, steady_calm]
  · simp [hkey₁, hkey₂]
  · exact ⟨[], rfl, [], by simp [htaken, calm], trivial⟩
  · obtain ⟨-, -, -, hkept₁, -⟩ := Proxy.pollAll_cases hfirst
    obtain ⟨-, -, -, hkept₂, -⟩ := Proxy.pollAll_cases hsecond
    have hone : oneSubscriber.connections = 1 := by decide
    simp [TurnLog.hellos, Surroundings.requested, hkept₁, hkept₂, hone, waits, calm]

end EsbProxy
