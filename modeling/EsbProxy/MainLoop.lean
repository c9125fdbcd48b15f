import EsbProxy.Connections
import EsbProxy.DistinctMethods
import EsbProxy.Transport

/-!
# One pass of the main loop

The main loop of a proxy walks over its subscribers. It polls each one up to 1000 times, and
dispatches the messages that it receives; when a poll returns nothing and the subscriber was silent
for more than 30 seconds, the subscriber is erased. `erase` moves the iterator to the next
subscriber, and `local_it++` behind the loop of the polls moves it once more. `Subscriber::Poll`
returns nothing for a malformed message as well, not only when the queue is empty.

## Main definitions

* `Arrival`: a message that a subscriber receives during a pass.
* `Proxy.pollMessages`, `Proxy.pollSubscribers`: what the main loop does in a pass.
* `expires`: whether a subscriber is erased when the pass comes to it.
* `PassLaw`: what a pass should do.

## Main results

* `Proxy.pollMessages_visitSpec`: what the pass does with one subscriber.
* `Proxy.pollSubscribers_passSpec`: what it does with all of them.
* `Proxy.pollSubscribers_iff`: a pass obeys the law, or a subscriber expires that is not the last
  one, or whose queue has a malformed message.
-/

namespace EsbProxy

open Foundation

/-- A message that waits at a subscriber, and what the clock and `rand` answer when it is
handled. -/
structure Arrival where
  msg : Bytes
  time : ℤ
  rand : ℕ

/-- What a pass did with one subscriber: the messages that it took from the queue, whether it found
the queue empty, whether it erased the subscriber, and the steps that the proxy took. -/
structure Visit where
  key : Bytes
  dequeued : List Arrival
  foundEmpty : Bool
  erased : Bool
  steps : List (Transition Proxy Input Output)

/-- The most polls of one subscriber in a pass. -/
def maxPolls : ℕ := 1000

namespace Proxy

/-- A poll returned nothing: the subscriber is erased if it was silent for too long. -/
def endVisit (now : ℤ) (key : Bytes) (dequeued : List Arrival) (foundEmpty : Bool) (s : Proxy) :
    Proxy × Visit :=
  (s.killInactive now key,
    { key := key
      dequeued := dequeued
      foundEmpty := foundEmpty
      erased := (s.expired now key).isSome
      steps := [⟨s, .killInactive now key, {}, s.killInactive now key⟩] })

/-- The polls of one subscriber, at most `r` of them. -/
def pollMessages (codec : Codec) (now : ℤ) (key : Bytes) : (r : ℕ) → List Arrival → Proxy →
    Except Fault (Proxy × Visit)
  | 0, _, s => .ok (s, ⟨key, [], false, false, []⟩)
  | _ + 1, [], s => .ok (s.endVisit now key [] true)
  | r + 1, a :: queue, s =>
    match poll codec s.guid a.msg with
    | none => .ok (s.endVisit now key [a] false)
    | some cmdReq =>
      let i := Input.command a.time a.rand cmdReq key
      match s.exec i with
      | .error fault => .error fault
      | .ok (s', out) =>
        match pollMessages codec now key r queue s' with
        | .error fault => .error fault
        | .ok (s'', visit) => .ok (s'',
          { visit with
            dequeued := a :: visit.dequeued
            steps := ⟨s, i, out, s'⟩ :: visit.steps })

/-- The walk over the rest of the subscribers. When a subscriber was erased, the iterator points to
the next one already, and `local_it++` skips it. -/
def walk (codec : Codec) (queue : Bytes → List Arrival) (now : ℤ) : (skip : Bool) → List Bytes →
    Proxy → Except Fault (Proxy × List Visit)
  | _, [], s => .ok (s, [])
  | true, _ :: rest, s => walk codec queue now false rest s
  | false, key :: rest, s =>
    match s.pollMessages codec now key maxPolls (queue key) with
    | .error fault => .error fault
    | .ok (s', visit) =>
      match walk codec queue now visit.erased rest s' with
      | .error fault => .error fault
      | .ok (s'', log) => .ok (s'', visit :: log)

/-- One pass of the main loop over the subscribers. -/
def pollSubscribers (codec : Codec) (queue : Bytes → List Arrival) (now : ℤ) (s : Proxy) :
    Except Fault (Proxy × List Visit) :=
  walk codec queue now false s.subscribers.keys s

end Proxy

/-! ### When a subscriber was active last -/

/-- The time at which the subscriber under a key was active last. -/
def Proxy.lastActive (s : Proxy) (key : Bytes) : Option ℤ :=
  (s.subscribers.lookup key).map Subscriber.lastActiveTime

namespace Proxy

variable {s s' : Proxy} {now : ℤ} {rand : ℕ} {cmdReq : Command} {key : Bytes} {out : Output}

theorem mem_subscribers_iff : key ∈ s.subscribers ↔ (s.lastActive key).isSome := by
  rw [lastActive, Option.isSome_map, AList.lookup_isSome]

theorem lastActive_markActive (now : ℤ) (key key' : Bytes) (s : Proxy) :
    (s.markActive now key).lastActive key' =
      if key' = key then (s.lastActive key').map fun _ => int32 now else s.lastActive key' := by
  rw [lastActive, lookup_markActive, lastActive]
  split_ifs
  · rw [Option.map_map, Option.map_map]
    rfl
  · rfl

/-- A command from a subscriber marks it active, and no other one. -/
theorem Step.lastActive_command (hstep : Step s (.command now rand cmdReq key) out s')
    (key' : Bytes) :
    s'.lastActive key' =
      if key' = key then (s.lastActive key').map fun _ => int32 now else s.lastActive key' := by
  obtain ⟨subs, frames, hactive, hcall, -⟩ := hstep.of_command
  have hmarked := s.lastActive_markActive now key key'
  rw [hactive] at hmarked
  rw [← hmarked]
  obtain ⟨-, -, ⟨-, hsubs, -⟩ | ⟨-, rfl⟩⟩ := subscriberCallback_connections hcall
  · rw [lastActive, lastActive, hsubs]
  · rw [lastActive, lastActive, subscribeReq, Dict.lookup_mapVal, Option.map_map]
    rfl

theorem expired_eq_some_iff {key' : Bytes} :
    s.expired now key = some key' ↔
      key' = key ∧ ∃ t, s.lastActive key = some t ∧ now - t > maxInactiveSubscriber := by
  rw [expired, lastActive]
  cases s.subscribers.lookup key with
  | none => simp
  | some sub =>
    by_cases hsilent : now - sub.lastActiveTime > maxInactiveSubscriber
    · simp [hsilent, eq_comm]
    · simp [hsilent]

theorem lastActive_killInactive (now : ℤ) (key key' : Bytes) (s : Proxy) :
    (s.killInactive now key).lastActive key' =
      if s.expired now key = some key' then none else s.lastActive key' := by
  rw [lastActive, lookup_killInactive, lastActive]
  split_ifs
  · rfl
  · rfl

end Proxy

/-! ### What a pass does with one subscriber -/

/-- The well-formed messages at the head of a queue. -/
def leading (codec : Codec) (guid : Bytes) (queue : List Arrival) : List Arrival :=
  queue.takeWhile fun a => (poll codec guid a.msg).isSome

/-- When a subscriber was active last, after messages were received from it. -/
def activeAfter (messages : List Arrival) (stored : ℤ) : ℤ :=
  messages.foldl (fun _ a => int32 a.time) stored

/-- A subscriber that was active last at `stored` is erased when it is polled at most `r` times: a
poll returns nothing, and the subscriber was silent for too long. -/
def expires (codec : Codec) (guid : Bytes) (now : ℤ) (r : ℕ) (queue : List Arrival)
    (stored : Option ℤ) : Prop :=
  (leading codec guid queue).length < r ∧
    ∃ t, stored = some t ∧
      now - activeAfter (leading codec guid queue) t > Proxy.maxInactiveSubscriber

/-- The command that an input dispatches, and the subscriber that it came from. -/
def Input.dispatched : Input → Option (Bytes × Command)
  | command _ _ cmdReq key => some (key, cmdReq)
  | _ => none

/-- The commands that were dispatched in a visit. -/
def Visit.dispatched (v : Visit) : List (Bytes × Command) :=
  v.steps.filterMap fun t => t.action.dispatched

/-- The commands in messages that came from a subscriber. -/
def commandsIn (codec : Codec) (guid key : Bytes) (messages : List Arrival) :
    List (Bytes × Command) :=
  messages.filterMap fun a => (poll codec guid a.msg).map fun cmdReq => (key, cmdReq)

/-- What a visit of at most `r` polls does with the messages of a subscriber. -/
structure VisitSpec (codec : Codec) (guid : Bytes) (now : ℤ) (key : Bytes) (r : ℕ)
    (queue : List Arrival) (stored : Option ℤ) (v : Visit) : Prop where
  key_eq : v.key = key
  dequeued : v.dequeued <+: queue
  polled : 0 < r → v.dequeued ≠ [] ∨ v.foundEmpty = true
  dispatched : v.dispatched = commandsIn codec guid key v.dequeued
  length_le : v.dispatched.length ≤ r
  foundEmpty : v.foundEmpty = true ↔ leading codec guid queue = queue ∧ queue.length < r
  dequeued_eq : v.foundEmpty = true → v.dequeued = queue
  erased : v.erased = true ↔ expires codec guid now r queue stored

section

variable {codec : Codec} {guid key : Bytes} {now : ℤ} {r : ℕ} {queue : List Arrival}
  {stored : Option ℤ} {a : Arrival} {cmdReq : Command} {s s' : Proxy} {v : Visit}

theorem leading_cons_of_some (ha : poll codec guid a.msg = some cmdReq) (queue : List Arrival) :
    leading codec guid (a :: queue) = a :: leading codec guid queue := by
  rw [leading, List.takeWhile_cons_of_pos (by rw [ha]; rfl), leading]

theorem leading_cons_of_none (ha : poll codec guid a.msg = none) (queue : List Arrival) :
    leading codec guid (a :: queue) = [] := by
  rw [leading, List.takeWhile_cons_of_neg (by rw [ha]; simp)]

theorem expires_cons_of_some (ha : poll codec guid a.msg = some cmdReq) :
    expires codec guid now (r + 1) (a :: queue) stored ↔
      expires codec guid now r queue (stored.map fun _ => int32 a.time) := by
  unfold expires
  rw [leading_cons_of_some ha, List.length_cons, Nat.add_lt_add_iff_right]
  cases stored with
  | none => simp
  | some t => simp [activeAfter]

/-- A poll that returns nothing ends the visit. -/
theorem expires_of_leading_eq_nil (hnil : leading codec guid queue = []) :
    expires codec guid now (r + 1) queue stored ↔
      ∃ t, stored = some t ∧ now - t > Proxy.maxInactiveSubscriber := by
  unfold expires
  rw [hnil]
  simp [activeAfter]

theorem Proxy.visitSpec_endVisit {dequeued : List Arrival} {foundEmpty : Bool}
    (hdequeued : dequeued <+: queue) (hnil : leading codec guid queue = [])
    (hpolled : dequeued ≠ [] ∨ foundEmpty = true)
    (hnone : commandsIn codec guid key dequeued = [])
    (hempty : foundEmpty = true ↔ queue = []) :
    VisitSpec codec guid now key (r + 1) queue (s.lastActive key)
      (s.endVisit now key dequeued foundEmpty).2 where
  key_eq := rfl
  dequeued := hdequeued
  polled _ := hpolled
  dispatched := by
    change [] = commandsIn codec guid key dequeued
    exact hnone.symm
  length_le := Nat.zero_le _
  foundEmpty := by
    change foundEmpty = true ↔ _
    rw [hempty, hnil, eq_comm]
    exact ⟨fun hqueue => ⟨hqueue, hqueue ▸ Nat.succ_pos r⟩, And.left⟩
  dequeued_eq hfound := by
    have hqueue : queue = [] := hempty.mp hfound
    rw [hqueue] at hdequeued ⊢
    exact List.prefix_nil.mp hdequeued
  erased := by
    change (s.expired now key).isSome = true ↔ _
    rw [expires_of_leading_eq_nil hnil, Option.isSome_iff_exists]
    simp only [Proxy.expired_eq_some_iff]
    exact ⟨fun ⟨_, _, h⟩ => h, fun h => ⟨key, rfl, h⟩⟩

/-- A well-formed message in front of the queue is dispatched first. -/
theorem VisitSpec.cons {t : Transition Proxy Input Output}
    (hspec : VisitSpec codec guid now key r queue (stored.map fun _ => int32 a.time) v)
    (ha : poll codec guid a.msg = some cmdReq)
    (haction : t.action = .command a.time a.rand cmdReq key) :
    VisitSpec codec guid now key (r + 1) (a :: queue) stored
      { v with dequeued := a :: v.dequeued, steps := t :: v.steps } := by
  have hdispatched : Visit.dispatched { v with
      dequeued := a :: v.dequeued
      steps := t :: v.steps } = (key, cmdReq) :: v.dispatched := by
    rw [Visit.dispatched, List.filterMap_cons_some (by rw [haction, Input.dispatched]),
      Visit.dispatched]
  have hcommands : commandsIn codec guid key (a :: v.dequeued) =
      (key, cmdReq) :: commandsIn codec guid key v.dequeued := by
    rw [commandsIn, List.filterMap_cons_some (by rw [ha, Option.map_some]), commandsIn]
  exact
    { key_eq := hspec.key_eq
      dequeued := List.cons_prefix_cons.mpr ⟨rfl, hspec.dequeued⟩
      polled := fun _ => .inl (by simp)
      dispatched := by rw [hdispatched, hcommands, hspec.dispatched]
      length_le := by
        rw [hdispatched, List.length_cons]
        exact Nat.succ_le_succ hspec.length_le
      foundEmpty := by
        rw [leading_cons_of_some ha, List.length_cons, Nat.add_lt_add_iff_right]
        simpa using hspec.foundEmpty
      dequeued_eq := fun hfound => by
        change a :: v.dequeued = a :: queue
        rw [hspec.dequeued_eq hfound]
      erased := hspec.erased.trans (expires_cons_of_some ha).symm }

/-- What a visit leaves of the subscribers: the one that was visited is gone if it was erased, and
the times of the others are what they were. -/
structure LeavesOthers (s : Proxy) (v : Visit) (s' : Proxy) : Prop where
  guid : s'.guid = s.guid
  visited : v.key ∈ s'.subscribers ↔ v.key ∈ s.subscribers ∧ v.erased = false
  others : ∀ key, key ≠ v.key → s'.lastActive key = s.lastActive key

theorem Proxy.leavesOthers_endVisit (now : ℤ) (key : Bytes) (dequeued : List Arrival)
    (foundEmpty : Bool) (s : Proxy) :
    LeavesOthers s (s.endVisit now key dequeued foundEmpty).2
      (s.endVisit now key dequeued foundEmpty).1 where
  guid := by
    obtain ⟨subs, hsubs⟩ := s.killInactive_eq now key
    change (s.killInactive now key).guid = s.guid
    rw [hsubs]
  visited := by
    change key ∈ (s.killInactive now key).subscribers ↔
      key ∈ s.subscribers ∧ (s.expired now key).isSome = false
    rw [mem_subscribers_iff, lastActive_killInactive, mem_subscribers_iff]
    cases hexpired : s.expired now key with
    | none => simp
    | some key' =>
      obtain ⟨rfl, -⟩ := expired_eq_some_iff.mp hexpired
      simp
  others key' hne := by
    change (s.killInactive now key).lastActive key' = s.lastActive key'
    rw [lastActive_killInactive, if_neg]
    exact fun hexpired => hne (expired_eq_some_iff.mp hexpired).1

/-- **One subscriber.** The steps of a visit are steps of the proxy; it takes messages from the
queue in order, and dispatches what is well-formed in them. -/
theorem Proxy.pollMessages_visitSpec : ∀ {r : ℕ} {queue : List Arrival} {s s' : Proxy} {v : Visit},
    s.pollMessages codec now key r queue = .ok (s', v) →
      Trace Proxy.Step s v.steps s' ∧
        VisitSpec codec s.guid now key r queue (s.lastActive key) v ∧ LeavesOthers s v s'
  | 0, queue, s, s', v, hvisit => by
      obtain ⟨rfl, rfl⟩ : s = s' ∧ ⟨key, [], false, false, []⟩ = v := by
        simpa [pollMessages] using hvisit
      refine ⟨.nil, ⟨rfl, List.nil_prefix, by simp, rfl, le_rfl, by simp, by simp, ?_⟩,
        ⟨rfl, by simp, fun _ _ => rfl⟩⟩
      simp [expires]
  | r + 1, [], s, s', v, hvisit => by
      obtain ⟨rfl, rfl⟩ : (s.endVisit now key [] true).1 = s' ∧
          (s.endVisit now key [] true).2 = v := Prod.mk.inj (Except.ok.inj hvisit)
      refine ⟨Trace.nil.snoc rfl, ?_, s.leavesOthers_endVisit now key [] true⟩
      exact visitSpec_endVisit List.nil_prefix rfl (.inr rfl) rfl (by simp)
  | r + 1, a :: queue, s, s', v, hvisit => by
      rw [pollMessages] at hvisit
      split at hvisit
      · rename_i hmsg
        obtain ⟨rfl, rfl⟩ : (s.endVisit now key [a] false).1 = s' ∧
            (s.endVisit now key [a] false).2 = v := Prod.mk.inj (Except.ok.inj hvisit)
        have hnil := leading_cons_of_none hmsg queue
        refine ⟨Trace.nil.snoc rfl, ?_, s.leavesOthers_endVisit now key [a] false⟩
        exact visitSpec_endVisit (by simp) hnil (.inl (by simp)) (by simp [commandsIn, hmsg])
          (by simp)
      · rename_i cmdReq hmsg
        simp only at hvisit
        split at hvisit
        · simp at hvisit
        · rename_i s₁ out hexec
          split at hvisit
          · simp at hvisit
          · rename_i s₂ v₂ hrest
            obtain ⟨rfl, rfl⟩ := Prod.mk.inj (Except.ok.inj hvisit)
            have hstep : Proxy.Step s (.command a.time a.rand cmdReq key) out s₁ := hexec
            have hguid : s₁.guid = s.guid := hstep.sameIdentity.1.guid
            obtain ⟨htrace, hspec, hothers⟩ := pollMessages_visitSpec hrest
            rw [hguid, hstep.lastActive_command, if_pos rfl] at hspec
            refine ⟨(Trace.nil.snoc hstep).append htrace, hspec.cons hmsg rfl, ?_⟩
            have hkey : v₂.key = key := hspec.key_eq
            refine ⟨hothers.guid.trans hguid, ?_, fun key' hne => ?_⟩
            · refine hothers.visited.trans (and_congr_left' ?_)
              rw [mem_subscribers_iff, mem_subscribers_iff, hstep.lastActive_command, hkey,
                if_pos rfl, Option.isSome_map]
            · change key' ≠ v₂.key at hne
              rw [hothers.others key' hne, hstep.lastActive_command, if_neg (hkey ▸ hne)]

end

/-! ### What a pass does with all subscribers -/

/-- The visits of a walk: a subscriber behind one that was erased is skipped. -/
inductive Walks : Bool → List Bytes → List Visit → Prop
  | done {skip : Bool} : Walks skip [] []
  | skips {key : Bytes} {rest : List Bytes} {log : List Visit} (walks : Walks false rest log) :
      Walks true (key :: rest) log
  | visits {v : Visit} {rest : List Bytes} {log : List Visit} (walks : Walks v.erased rest log) :
      Walks false (v.key :: rest) (v :: log)

section

variable {skip : Bool} {keys : List Bytes} {log : List Visit}

/-- The subscribers are visited in the order of the walk, each at most once. -/
theorem Walks.sublist (hwalk : Walks skip keys log) : (log.map Visit.key).Sublist keys := by
  induction hwalk with
  | done => exact List.Sublist.refl _
  | skips _ ih => exact ih.cons _
  | visits _ ih => exact ih.cons_cons _

/-- **Skipped subscribers.** A walk visits all subscribers exactly when it erases none but the
last. -/
theorem Walks.forall_visited_iff (hwalk : Walks skip keys log) (hnodup : keys.Nodup)
    {erases : Bytes → Prop} (herases : ∀ v ∈ log, v.erased = true ↔ erases v.key) :
    (∀ key ∈ keys, key ∈ log.map Visit.key) ↔
      (skip = false ∨ keys = []) ∧ ∀ key ∈ keys.dropLast, ¬ erases key := by
  induction hwalk with
  | done => simp
  | @skips key rest log walks _ =>
    have hkey : key ∉ log.map Visit.key := fun hmem =>
      (List.nodup_cons.mp hnodup).1 (walks.sublist.subset hmem)
    constructor
    · exact fun hall => absurd (hall key List.mem_cons_self) hkey
    · rintro ⟨hskip, -⟩
      simp at hskip
  | @visits v rest log walks ih =>
    obtain ⟨hnotMem, hrest⟩ := List.nodup_cons.mp hnodup
    have hv := herases v List.mem_cons_self
    have htail : (∀ key ∈ v.key :: rest, key ∈ (v :: log).map Visit.key) ↔
        ∀ key ∈ rest, key ∈ log.map Visit.key := by
      rw [List.forall_mem_cons, List.map_cons, and_iff_right List.mem_cons_self]
      refine forall₂_congr fun key hkey => ?_
      have hne : key ≠ v.key := fun heq => hnotMem (heq ▸ hkey)
      rw [List.mem_cons, or_iff_right hne]
    rw [htail, ih hrest fun u hu => herases u (List.mem_cons_of_mem _ hu)]
    cases rest with
    | nil => simp
    | cons key rest =>
      rw [List.dropLast_cons_cons, List.forall_mem_cons, ← hv]
      simp

end

/-- What a walk does: its steps are steps of the proxy, every visit meets its specification, and
the subscribers that are left are those that no visit erased. -/
structure PassSpec (codec : Codec) (queue : Bytes → List Arrival) (now : ℤ) (skip : Bool)
    (keys : List Bytes) (s : Proxy) (log : List Visit) (s' : Proxy) : Prop where
  trace : Trace Proxy.Step s (log.flatMap Visit.steps) s'
  walks : Walks skip keys log
  visits : ∀ v ∈ log,
    VisitSpec codec s.guid now v.key maxPolls (queue v.key) (s.lastActive v.key) v
  left : ∀ key, key ∈ s'.subscribers ↔
    key ∈ s.subscribers ∧ ∀ v ∈ log, v.key = key → v.erased = false

/-- **All subscribers.** -/
theorem Proxy.walk_passSpec {codec : Codec} {queue : Bytes → List Arrival} {now : ℤ} :
    ∀ {keys : List Bytes} {skip : Bool} {s s' : Proxy} {log : List Visit}, keys.Nodup →
      walk codec queue now skip keys s = .ok (s', log) →
      PassSpec codec queue now skip keys s log s'
  | [], skip, s, s', log, _, hwalk => by
      obtain ⟨rfl, rfl⟩ : s = s' ∧ [] = log := by simpa [walk] using hwalk
      exact ⟨.nil, .done, by simp, by simp⟩
  | key :: rest, true, s, s', log, hnodup, hwalk => by
      have hspec := walk_passSpec (List.nodup_cons.mp hnodup).2 hwalk
      exact ⟨hspec.trace, hspec.walks.skips, hspec.visits, hspec.left⟩
  | key :: rest, false, s, s', log, hnodup, hwalk => by
      obtain ⟨hnotMem, hrest⟩ := List.nodup_cons.mp hnodup
      rw [walk] at hwalk
      split at hwalk
      · simp at hwalk
      · rename_i s₁ v hvisit
        split at hwalk
        · simp at hwalk
        · rename_i s₂ log₂ hlog
          obtain ⟨rfl, rfl⟩ := Prod.mk.inj (Except.ok.inj hwalk)
          obtain ⟨htrace, hspec, hothers⟩ := pollMessages_visitSpec hvisit
          obtain rfl : v.key = key := hspec.key_eq
          have hspecs := walk_passSpec hrest hlog
          refine ⟨htrace.append hspecs.trace, hspecs.walks.visits, ?_, fun key' => ?_⟩
          · refine List.forall_mem_cons.mpr ⟨hspec, fun u hu => ?_⟩
            have hne : u.key ≠ v.key := fun heq =>
              hnotMem (heq ▸ hspecs.walks.sublist.subset (List.mem_map_of_mem hu))
            have hvisits := hspecs.visits u hu
            rwa [hothers.guid, hothers.others u.key hne] at hvisits
          · rw [hspecs.left, List.forall_mem_cons]
            by_cases hkey : key' = v.key
            · subst hkey
              rw [hothers.visited]
              tauto
            · rw [mem_subscribers_iff, hothers.others key' hkey, ← mem_subscribers_iff]
              have hkey' : v.key ≠ key' := Ne.symm hkey
              tauto

theorem Proxy.pollSubscribers_passSpec {codec : Codec} {queue : Bytes → List Arrival} {now : ℤ}
    {s s' : Proxy} {log : List Visit} (hpass : s.pollSubscribers codec queue now = .ok (s', log)) :
    PassSpec codec queue now false s.subscribers.keys s log s' :=
  walk_passSpec s.subscribers.keys_nodup hpass

/-! ### Passes that are not cut short -/

/-- No message in the queues lists an identifier with a NUL. -/
def QueuesClean (codec : Codec) (guid : Bytes) (queue : Bytes → List Arrival) : Prop :=
  ∀ key, ∀ a ∈ queue key, ∀ cmdReq, poll codec guid a.msg = some cmdReq →
    ∀ entry ∈ cmdReq.regEntry, 0 ∉ entry.identifier

namespace Proxy

variable {codec : Codec} {queue : Bytes → List Arrival} {now : ℤ} {key : Bytes} {s : Proxy}

theorem exists_exec_command (now : ℤ) (rand : ℕ) {cmdReq : Command}
    (hclean : ∀ entry ∈ cmdReq.regEntry, 0 ∉ entry.identifier) (key : Bytes) (s : Proxy) :
    ∃ s' out, s.exec (.command now rand cmdReq key) = .ok (s', out) := by
  rw [exec, subscriberCallback]
  cases cmdReq.cmd <;> simp [remoteRegistryUpdate_of_clean hclean]

theorem exists_pollMessages (now : ℤ) (hclean : QueuesClean codec s.guid queue) :
    ∀ (r : ℕ) (messages : List Arrival) (s₁ : Proxy), s₁.guid = s.guid → messages ⊆ queue key →
      ∃ s' v, s₁.pollMessages codec now key r messages = .ok (s', v)
  | 0, _, s₁, _, _ => ⟨s₁, _, rfl⟩
  | _ + 1, [], s₁, _, _ => ⟨_, _, rfl⟩
  | r + 1, a :: messages, s₁, hguid, hmem => by
      rw [pollMessages]
      cases hmsg : poll codec s₁.guid a.msg with
      | none => exact ⟨_, _, rfl⟩
      | some cmdReq =>
        have ha : a ∈ queue key := hmem List.mem_cons_self
        obtain ⟨s₂, out, hexec⟩ := s₁.exists_exec_command a.time a.rand
          (hclean key a ha cmdReq (hguid ▸ hmsg)) key
        have hstep : Step s₁ (.command a.time a.rand cmdReq key) out s₂ := hexec
        obtain ⟨s', v, hrest⟩ := exists_pollMessages now hclean r messages s₂
          (hstep.sameIdentity.1.guid.trans hguid) fun b hb => hmem (List.mem_cons_of_mem _ hb)
        exact ⟨_, _, by simp only [hexec, hrest]; rfl⟩

theorem exists_walk (now : ℤ) (hclean : QueuesClean codec s.guid queue) :
    ∀ (keys : List Bytes) (skip : Bool) (s₁ : Proxy), s₁.guid = s.guid →
      ∃ s' log, walk codec queue now skip keys s₁ = .ok (s', log)
  | [], skip, s₁, _ => by cases skip <;> exact ⟨_, _, rfl⟩
  | _ :: rest, true, s₁, hguid => exists_walk now hclean rest false s₁ hguid
  | key :: rest, false, s₁, hguid => by
      obtain ⟨s₂, v, hvisit⟩ := exists_pollMessages now hclean maxPolls (queue key) s₁ hguid
        (List.Subset.refl _)
      have hothers := (pollMessages_visitSpec hvisit).2.2
      obtain ⟨s', log, hlog⟩ := exists_walk now hclean rest v.erased s₂ (hothers.guid.trans hguid)
      exact ⟨s', v :: log, by simp only [walk, hvisit, hlog]⟩

end Proxy

/-! ### What a pass should do -/

/-- What a pass should do: it polls all subscribers; it dispatches every well-formed message that it
takes from a queue once, in order, and at most 1000 for each subscriber; and it removes those
subscribers whose queue it found empty and that were silent for more than 30 seconds. -/
structure PassLaw (codec : Codec) (queue : Bytes → List Arrival) (now : ℤ) (s : Proxy)
    (log : List Visit) (s' : Proxy) : Prop where
  polled : ∀ key ∈ s.subscribers, ∃ v ∈ log, v.key = key ∧ (v.dequeued ≠ [] ∨ v.foundEmpty = true)
  nodup : (log.map Visit.key).Nodup
  dequeued : ∀ v ∈ log, v.dequeued <+: queue v.key
  dispatched : ∀ v ∈ log, v.dispatched = v.dequeued.filterMap fun a =>
    (poll codec s.guid a.msg).map fun cmdReq => (v.key, cmdReq)
  length_le : ∀ v ∈ log, v.dispatched.length ≤ 1000
  removed : ∀ key ∈ s.subscribers, key ∉ s'.subscribers ↔
    ∃ v ∈ log, v.key = key ∧ v.foundEmpty = true ∧
      ∃ t, s.lastActive key = some t ∧ now - activeAfter v.dequeued t > 30

section

variable {codec : Codec} {queue : Bytes → List Arrival} {now : ℤ} {s s' : Proxy}
  {log : List Visit} {v : Visit}

/-- A subscriber whose queue is found empty expires when it was silent for too long. -/
theorem VisitSpec.expires_iff_of_foundEmpty {guid key : Bytes} {r : ℕ} {messages : List Arrival}
    {stored : Option ℤ} (hspec : VisitSpec codec guid now key r messages stored v)
    (hempty : v.foundEmpty = true) :
    expires codec guid now r messages stored ↔
      ∃ t, stored = some t ∧ now - activeAfter v.dequeued t > 30 := by
  obtain ⟨hleading, hlength⟩ := hspec.foundEmpty.mp hempty
  rw [expires, hleading, hspec.dequeued_eq hempty]
  exact and_iff_right hlength

/-- A subscriber that expires is found with an empty queue exactly when no malformed message is in
it. -/
theorem VisitSpec.foundEmpty_iff_of_expires {guid key : Bytes} {r : ℕ} {messages : List Arrival}
    {stored : Option ℤ} (hspec : VisitSpec codec guid now key r messages stored v)
    (hexpires : expires codec guid now r messages stored) :
    v.foundEmpty = true ↔ ∀ a ∈ messages, (poll codec guid a.msg).isSome := by
  rw [hspec.foundEmpty]
  constructor
  · rintro ⟨hleading, -⟩ a ha
    rw [← hleading] at ha
    exact List.mem_takeWhile_imp (p := fun a : Arrival => (poll codec guid a.msg).isSome) ha
  · intro hgood
    have hleading : leading codec guid messages = messages := List.takeWhile_eq_self_iff.mpr hgood
    have hlength := hexpires.1
    rw [hleading] at hlength
    exact ⟨hleading, hlength⟩

/-- **When a pass obeys the law.** A pass that meets its specification obeys the law exactly when
only the last subscriber expires, if any, and only if no malformed message is in its queue. -/
theorem PassSpec.law_iff (hspec : PassSpec codec queue now false s.subscribers.keys s log s') :
    PassLaw codec queue now s log s' ↔
      (∀ key ∈ s.subscribers.keys.dropLast,
          ¬ expires codec s.guid now 1000 (queue key) (s.lastActive key)) ∧
        ∀ key ∈ s.subscribers.keys,
          expires codec s.guid now 1000 (queue key) (s.lastActive key) →
            ∀ a ∈ queue key, (poll codec s.guid a.msg).isSome := by
  have hwalk : (∀ key ∈ s.subscribers.keys, key ∈ log.map Visit.key) ↔
      (false = false ∨ s.subscribers.keys = []) ∧ ∀ key ∈ s.subscribers.keys.dropLast,
        ¬ expires codec s.guid now maxPolls (queue key) (s.lastActive key) :=
    hspec.walks.forall_visited_iff s.subscribers.keys_nodup
      fun v hv => (hspec.visits v hv).erased
  constructor
  · intro hlaw
    have hvisited : ∀ key ∈ s.subscribers.keys, key ∈ log.map Visit.key := fun key hkey =>
      let ⟨v, hv, hvkey, _⟩ := hlaw.polled key hkey
      List.mem_map.mpr ⟨v, hv, hvkey⟩
    refine ⟨(hwalk.mp hvisited).2, fun key hkey hexpires => ?_⟩
    obtain ⟨v, hv, rfl⟩ := List.mem_map.mp (hvisited key hkey)
    have hgone : v.key ∉ s'.subscribers := fun hmem => by
      have hkept := ((hspec.left v.key).mp hmem).2 v hv rfl
      rw [(hspec.visits v hv).erased.mpr hexpires] at hkept
      simp at hkept
    obtain ⟨u, hu, hukey, hempty, -⟩ := (hlaw.removed v.key hkey).mp hgone
    have hvisit := hspec.visits u hu
    rw [hukey] at hvisit
    exact (hvisit.foundEmpty_iff_of_expires hexpires).mp hempty
  · rintro ⟨hlast, hgood⟩
    have hvisited := hwalk.mpr ⟨.inl rfl, hlast⟩
    refine ⟨fun key hkey => ?_, ?_, fun v hv => (hspec.visits v hv).dequeued,
      fun v hv => (hspec.visits v hv).dispatched, fun v hv => (hspec.visits v hv).length_le,
      fun key hkey => ?_⟩
    · obtain ⟨v, hv, rfl⟩ := List.mem_map.mp (hvisited key hkey)
      exact ⟨v, hv, rfl, (hspec.visits v hv).polled (by decide)⟩
    · exact s.subscribers.keys_nodup.sublist hspec.walks.sublist
    · rw [hspec.left, not_and]
      constructor
      · intro hgone
        have herased : ∃ v ∈ log, v.key = key ∧ v.erased = true := by
          by_contra hnone
          refine hgone hkey fun v hv hvkey => ?_
          by_contra herased
          exact hnone ⟨v, hv, hvkey, by simpa using herased⟩
        obtain ⟨v, hv, rfl, herased⟩ := herased
        have hvisit := hspec.visits v hv
        have hexpires := hvisit.erased.mp herased
        have hempty := (hvisit.foundEmpty_iff_of_expires hexpires).mpr (hgood v.key hkey hexpires)
        exact ⟨v, hv, rfl, hempty, (hvisit.expires_iff_of_foundEmpty hempty).mp hexpires⟩
      · rintro ⟨v, hv, rfl, hempty, hsilent⟩ _ hkept
        have hvisit := hspec.visits v hv
        have hexpires := (hvisit.expires_iff_of_foundEmpty hempty).mpr hsilent
        have herased := hkept v hv rfl
        rw [hvisit.erased.mpr hexpires] at herased
        simp at herased

end

/-- **One pass of the main loop.** Take any subscribers, any queues, with malformed messages in them
or not, and any times at which the subscribers were active last. Unless a message lists an
identifier with a NUL, the pass completes. A pass that completes consists of steps of the proxy; it
visits no subscriber twice, and dispatches every well-formed message that it takes from a queue
once, in order, and at most 1000 for each subscriber. It polls all subscribers and removes the
silent ones with an empty queue, and only them, exactly when no subscriber but the last expires,
and none that has a malformed message in its queue. -/
theorem Proxy.pollSubscribers_iff (codec : Codec) (queue : Bytes → List Arrival) (now : ℤ)
    (s : Proxy) :
    (QueuesClean codec s.guid queue →
        ∃ s' log, s.pollSubscribers codec queue now = .ok (s', log)) ∧
      ∀ s' log, s.pollSubscribers codec queue now = .ok (s', log) →
        Trace Proxy.Step s (log.flatMap Visit.steps) s' ∧
        ((log.map Visit.key).Nodup ∧ ∀ v ∈ log, v.dequeued <+: queue v.key ∧
          (v.dispatched = v.dequeued.filterMap fun a =>
            (poll codec s.guid a.msg).map fun cmdReq => (v.key, cmdReq)) ∧
          v.dispatched.length ≤ 1000) ∧
        (PassLaw codec queue now s log s' ↔
          (∀ key ∈ s.subscribers.keys.dropLast,
              ¬ expires codec s.guid now 1000 (queue key) (s.lastActive key)) ∧
            ∀ key ∈ s.subscribers.keys,
              expires codec s.guid now 1000 (queue key) (s.lastActive key) →
                ∀ a ∈ queue key, (poll codec s.guid a.msg).isSome) := by
  refine ⟨fun hclean => exists_walk now hclean s.subscribers.keys false s rfl, ?_⟩
  intro s' log hpass
  have hspec := pollSubscribers_passSpec hpass
  refine ⟨hspec.trace, ⟨s.subscribers.keys_nodup.sublist hspec.walks.sublist, fun v hv => ?_⟩,
    hspec.law_iff⟩
  have hvisit := hspec.visits v hv
  exact ⟨hvisit.dequeued, hvisit.dispatched, hvisit.length_le⟩

/-- Two nodes say hello. -/
def twoHellos : List Input :=
  [.request 0 true
    { cmd? := some .nodeHello
      payload? := some (List.replicate GUID_SIZE 78 ++ ascii "#tcp://127.0.0.1:9000") },
   .request 0 true
    { cmd? := some .nodeHello
      payload? := some (List.replicate GUID_SIZE 79 ++ ascii "#tcp://127.0.0.1:9001") }]

/-- After the run of `twoHellos`, a pass at 20 with empty queues obeys the law: it polls both
subscribers. -/
theorem pollSubscribers_twoHellos : ∃ h s s' log, Proxy.Run (Config.ofSite .first 7770 7780) h s ∧
    s.subscribers.keys.length = 2 ∧ s.pollSubscribers protobuf (fun _ => []) 20 = .ok (s', log) ∧
    PassLaw protobuf (fun _ => []) 20 s log s' := by
  have hsome : (Proxy.execute (Config.ofSite .first 7770 7780) twoHellos).isSome := by decide
  obtain ⟨h, s, hexec, htwo, hactive⟩ : ∃ h s,
      Proxy.execute (Config.ofSite .first 7770 7780) twoHellos = some (h, s) ∧
      s.subscribers.keys.length = 2 ∧ ∀ key ∈ s.subscribers.keys, s.lastActive key = some 0 :=
    ⟨_, _, (Option.some_get hsome).symm, by decide, by decide⟩
  have hyoung : ∀ key ∈ s.subscribers.keys,
      ¬ expires protobuf s.guid 20 1000 [] (s.lastActive key) := by
    rintro key hkey ⟨-, t, ht, hsilent⟩
    obtain rfl : 0 = t := Option.some.inj ((hactive key hkey).symm.trans ht)
    have hnil : leading protobuf s.guid [] = [] := rfl
    rw [hnil] at hsilent
    exact absurd hsilent (by decide)
  obtain ⟨hcompletes, hlaw⟩ := Proxy.pollSubscribers_iff protobuf (fun _ => []) 20 s
  obtain ⟨s', log, hpass⟩ := hcompletes fun _ a ha => absurd ha (by simp)
  refine ⟨h, s, s', log, Proxy.run_execute hexec, htwo, hpass, (hlaw s' log hpass).2.2.mpr ⟨?_, ?_⟩⟩
  · exact fun key hkey => hyoung key (List.mem_of_mem_dropLast hkey)
  · exact fun key hkey hexpires => absurd hexpires (hyoung key hkey)

/-- After the run of `twoHellos`, a pass at 100 with empty queues erases the first subscriber and
skips the second one. -/
theorem not_pollSubscribers : ¬ ∀ (config : Config) (h : List (Transition Proxy Input Output))
    (s : Proxy) (codec : Codec) (queue : Bytes → List Arrival) (now : ℤ) (s' : Proxy)
    (log : List Visit), Proxy.Run config h s →
    s.pollSubscribers codec queue now = .ok (s', log) → PassLaw codec queue now s log s' := by
  intro claim
  have hsome : (Proxy.execute (Config.ofSite .first 7770 7780) twoHellos).isSome := by decide
  obtain ⟨h, s, hexec, hkeys, hactive⟩ : ∃ h s,
      Proxy.execute (Config.ofSite .first 7770 7780) twoHellos = some (h, s) ∧
      ascii "tcp://127.0.0.1:9001" ∈ s.subscribers.keys.dropLast ∧
      s.lastActive (ascii "tcp://127.0.0.1:9001") = some 0 :=
    ⟨_, _, (Option.some_get hsome).symm, by decide, by decide⟩
  have hclean : QueuesClean protobuf s.guid fun _ => [] := fun _ a ha => absurd ha (by simp)
  obtain ⟨s', log, hpass⟩ :=
    Proxy.exists_walk 100 hclean s.subscribers.keys false s rfl
  have hlaw := claim _ h s protobuf (fun _ => []) 100 s' log (Proxy.run_execute hexec) hpass
  have hexpires := ((Proxy.pollSubscribers_passSpec hpass).law_iff.mp hlaw).1 _ hkeys
  have hnil : leading protobuf s.guid [] = [] := rfl
  refine hexpires ?_
  rw [expires, hnil]
  exact ⟨by decide, 0, hactive, by decide⟩

end EsbProxy
