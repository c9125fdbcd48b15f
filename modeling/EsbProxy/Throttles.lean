import EsbProxy.Ages
import EsbProxy.MainLoopRuns

/-!
# Throttles

`PingRedis`, `RequestRegistryExchange` and `CleanUpResponsesMap` are called in every 25th turn, and
keep themselves to one call in two, three and sixty seconds. Each stores the time of its last call,
truncated to `int`, and compares the clock with it. In every run whose clock stays in the range of
`int`, the calls are as far apart as the throttles promise; in between, nothing is sent and no
pending call is removed.

## Main definitions

* `Asks`, `Discards`: a step asks the known proxies for their registries, or removes pending calls.
* `MainLoop.Pings`: a turn talks to Redis.

## Main results

* `Proxy.Step.throttled_asks`, `Proxy.Step.throttled_discards`, `MainLoop.Step.throttled_pings`:
  what one step waits for.
* `throttles`: the throttles of a run.
-/

namespace EsbProxy

open Foundation

/-- The step asks known proxies for their registries at a time. -/
def Asks (t : Transition Proxy Input Output) (now : ℤ) : Prop :=
  t.action = .requestRegistryExchange now ∧ t.out.frames ≠ []

/-- The step removes pending calls at a time. -/
def Discards (t : Transition Proxy Input Output) (now : ℤ) : Prop :=
  t.action = .cleanUpResponsesMap now ∧
    ∃ g ∈ t.pre.invokeResponsesCallTime, g ∉ t.post.invokeResponsesCallTime

variable {config : Config} {h : List (Transition Proxy Input Output)} {s s' : Proxy}
  {i : Input} {out : Output} {now : ℤ}

namespace Proxy

/-! ### What a step does with the time stamps -/

theorem lastRegistryExchange_request (hnow : 0 ≤ now ∧ now < 2 ^ 31) (s : Proxy) :
    (now - s.lastRegistryExchange < 3 ∧ s.requestRegistryExchange now = (s, [])) ∨
      3 ≤ now - s.lastRegistryExchange ∧
        (s.requestRegistryExchange now).1.lastRegistryExchange = now := by
  rw [requestRegistryExchange]
  split_ifs with hearly
  · exact .inl ⟨hearly, rfl⟩
  · exact .inr ⟨by omega, int32_eq_self (by omega) hnow.2⟩

theorem lastResponsesCleanUp_cleanUp (hnow : 0 ≤ now ∧ now < 2 ^ 31)
    (hlast : 0 ≤ s.lastResponsesCleanUp ∧ s.lastResponsesCleanUp < 2 ^ 31) :
    s.cleanUpResponsesMap now = s ∨
      60 ≤ now - s.lastResponsesCleanUp ∧
        (s.cleanUpResponsesMap now).lastResponsesCleanUp = now := by
  have hexact : int32 now = now := int32_eq_self (by omega) hnow.2
  simp only [cleanUpResponsesMap, hexact]
  rw [int32_eq_self (by omega) (by omega)]
  split_ifs with hearly
  · exact .inl rfl
  · refine .inr ⟨by omega, ?_⟩
    rw [lastResponsesCleanUp_cleanUpLoop]

theorem Step.lastRegistryExchange_eq (hstep : Step s i out s')
    (hi : ∀ time, i ≠ .requestRegistryExchange time) :
    s'.lastRegistryExchange = s.lastRegistryExchange := by
  cases i with
  | requestRegistryExchange time => exact absurd rfl (hi time)
  | pingedRedis time =>
    cases hstep
    rfl
  | cleanUpResponsesMap time =>
    have hsame := sameButPending_cleanUpResponsesMap time s
    cases hstep
    rw [hsame]
  | _ => exact (hstep.sameStamps rfl).lastRegistryExchange

theorem Step.lastResponsesCleanUp_eq (hstep : Step s i out s')
    (hi : ∀ time, i ≠ .cleanUpResponsesMap time) :
    s'.lastResponsesCleanUp = s.lastResponsesCleanUp := by
  cases i with
  | cleanUpResponsesMap time => exact absurd rfl (hi time)
  | pingedRedis time =>
    cases hstep
    rfl
  | requestRegistryExchange time =>
    obtain ⟨stamp, hstamp⟩ := s.requestRegistryExchange_eq time
    cases hstep
    rw [hstamp]
  | _ => exact (hstep.sameStamps rfl).lastResponsesCleanUp

/-- A step asks for registries only when three seconds have passed. -/
theorem Step.throttled_asks (hstep : Step s i out s')
    (hclock : ∀ now, i.clock = some now → 0 ≤ now ∧ now < 2 ^ 31) :
    Trace.Throttled 3 lastRegistryExchange Asks ⟨s, i, out, s'⟩ := by
  by_cases hi : ∃ time, i = .requestRegistryExchange time
  · obtain ⟨time, rfl⟩ := hi
    have hcases := s.lastRegistryExchange_request (hclock time rfl)
    cases hstep
    refine ⟨?_, ?_⟩
    · change s.lastRegistryExchange ≤ (s.requestRegistryExchange time).1.lastRegistryExchange
      rcases hcases with ⟨-, hsame⟩ | ⟨hdue, hnew⟩
      · rw [hsame]
      · omega
    · rintro now ⟨haction, hframes⟩
      cases haction
      change s.lastRegistryExchange + 3 ≤ time ∧
        time ≤ (s.requestRegistryExchange time).1.lastRegistryExchange
      rcases hcases with ⟨-, hsame⟩ | ⟨hdue, hnew⟩
      · exact absurd (by rw [hsame]) hframes
      · omega
  · rw [not_exists] at hi
    refine ⟨(hstep.lastRegistryExchange_eq hi).ge, ?_⟩
    rintro now ⟨haction, -⟩
    exact absurd haction (hi now)

/-- A step removes pending calls only when sixty seconds have passed. -/
theorem Step.throttled_discards (hstep : Step s i out s')
    (hclock : ∀ now, i.clock = some now → 0 ≤ now ∧ now < 2 ^ 31)
    (hlast : 0 ≤ s.lastResponsesCleanUp ∧ s.lastResponsesCleanUp < 2 ^ 31) :
    (0 ≤ s'.lastResponsesCleanUp ∧ s'.lastResponsesCleanUp < 2 ^ 31) ∧
      Trace.Throttled 60 lastResponsesCleanUp Discards ⟨s, i, out, s'⟩ := by
  by_cases hi : ∃ time, i = .cleanUpResponsesMap time
  · obtain ⟨time, rfl⟩ := hi
    have htime := hclock time rfl
    have hcases := lastResponsesCleanUp_cleanUp htime hlast
    cases hstep
    refine ⟨?_, ?_, ?_⟩
    · rcases hcases with hsame | ⟨-, hnew⟩
      · rw [hsame]
        exact hlast
      · rw [hnew]
        exact htime
    · change s.lastResponsesCleanUp ≤ (s.cleanUpResponsesMap time).lastResponsesCleanUp
      rcases hcases with hsame | ⟨hdue, hnew⟩
      · rw [hsame]
      · omega
    · rintro now ⟨haction, g, hg, hgone⟩
      cases haction
      change s.lastResponsesCleanUp + 60 ≤ time ∧
        time ≤ (s.cleanUpResponsesMap time).lastResponsesCleanUp
      rcases hcases with hsame | ⟨hdue, hnew⟩
      · change g ∉ (s.cleanUpResponsesMap time).invokeResponsesCallTime at hgone
        rw [hsame] at hgone
        exact absurd hg hgone
      · omega
  · rw [not_exists] at hi
    have hsame := hstep.lastResponsesCleanUp_eq hi
    refine ⟨hsame ▸ hlast, hsame.ge, ?_⟩
    rintro now ⟨haction, -⟩
    exact absurd haction (hi now)

/-! ### Runs -/

theorem Run.throttled_asks (run : Run config h s) (below : ClocksBelow 0 h) :
    ∀ t ∈ h, Trace.Throttled 3 lastRegistryExchange Asks t := fun t ht =>
  (run.step_of_mem ht).throttled_asks fun now hnow => by simpa using below t ht now hnow

theorem Run.throttled_discards (run : Run config h s) (below : ClocksBelow 0 h)
    (hstart : 0 ≤ config.startTime ∧ config.startTime < 2 ^ 31) :
    ∀ t ∈ h, Trace.Throttled 60 lastResponsesCleanUp Discards t := by
  intro t ht
  have hclock : ∀ u ∈ h, ∀ now, u.action.clock = some now → 0 ≤ now ∧ now < 2 ^ 31 :=
    fun u hu now hnow => by simpa using below u hu now hnow
  obtain ⟨h₁, h₂, rfl⟩ := List.append_of_mem ht
  obtain ⟨before, hstep, -⟩ := run.split_cons
  have hlast : 0 ≤ t.pre.lastResponsesCleanUp ∧ t.pre.lastResponsesCleanUp < 2 ^ 31 := by
    refine Trace.invariant_of_forall
      (I := fun s => 0 ≤ s.lastResponsesCleanUp ∧ s.lastResponsesCleanUp < 2 ^ 31)
      (P := fun u => ∀ now, u.action.clock = some now → 0 ≤ now ∧ now < 2 ^ 31) ?_
      (fun u hstep hu hs => (hstep.throttled_discards hu hs).1) before
      fun u hu => hclock u (List.mem_append_left _ hu)
    change 0 ≤ int32 config.startTime ∧ int32 config.startTime < 2 ^ 31
    rw [int32_eq_self (by omega) hstart.2]
    exact hstart
  exact (hstep.throttled_discards (hclock t ht) hlast).2

end Proxy

/-! ### The ping -/

theorem Proxy.lastRedisPing_pingRedis {zadd zrevrange : Option RedisReply}
    {peers : ℕ → PeerOutcome} {pinged : List (Transition Proxy Input Output)}
    (hnow : 0 ≤ now ∧ now < 2 ^ 31)
    (hping : s.pingRedis now zadd zrevrange peers = .ok (s', pinged)) :
    (s' = s ∧ pinged = []) ∨ 2 ≤ now - s.lastRedisPing ∧ s'.lastRedisPing = now := by
  unfold pingRedis at hping
  split_ifs at hping with hearly
  · obtain ⟨rfl, rfl⟩ := Prod.mk.inj (Except.ok.inj hping)
    exact .inl ⟨rfl, rfl⟩
  split at hping
  · split at hping
    · simp at hping
    · obtain ⟨rfl, -⟩ := Prod.mk.inj (Except.ok.inj hping)
      exact .inr ⟨by omega, int32_eq_self (by omega) hnow.2⟩
  · simp at hping

theorem Proxy.lastRedisPing_finishTurn (o : Surroundings) (s : Proxy) :
    (s.finishTurn o).lastRedisPing = s.lastRedisPing := by
  obtain ⟨stamp, hstamp⟩ := (s.rehash o.exchangeOrders).requestRegistryExchange_eq o.exchangeTime
  rw [finishTurn, hstamp, sameButPending_cleanUpResponsesMap]
  rfl

namespace MainLoop

variable {codec : Codec} {m m' : MainLoop} {o : Surroundings} {log : TurnLog}

/-- The turn talks to Redis at a time. -/
def Pings (t : Transition MainLoop Surroundings TurnLog) (now : ℤ) : Prop :=
  t.action.pingTime = now ∧ ∃ kept, t.out.kept = some kept ∧ kept.pinged ≠ []

/-- A turn talks to Redis only when two seconds have passed. -/
theorem Step.throttled_pings (hstep : Step codec m o log m') (hsteady : o.Steady)
    (htime : 0 ≤ o.pingTime ∧ o.pingTime < 2 ^ 31) :
    Trace.Throttled 2 (fun m => m.proxy.lastRedisPing) Pings ⟨m, o, log, m'⟩ := by
  obtain ⟨hturn, -⟩ := hstep
  generalize hs' : m'.proxy = s' at hturn
  cases hturn with
  | quiet polls notDue =>
    have hsame := (Proxy.sameStamps_pollAll polls).lastRedisPing
    obtain ⟨-, -, -, hnone, -⟩ := Proxy.pollAll_cases polls
    refine ⟨?_, ?_⟩
    · change m.proxy.lastRedisPing ≤ m'.proxy.lastRedisPing
      rw [hs', hsame]
    · rintro now ⟨-, kept, hkept, -⟩
      simp [hnone] at hkept
  | @due s s₁ s₂ s₃ log kept polls due pings remote own =>
    have hpolled := (Proxy.sameStamps_pollAll polls).lastRedisPing
    have hremote := ((Proxy.executes_remoteChecks hsteady.remote remote).sameStamps
      (by simp [Input.stamps])).lastRedisPing
    have hown := ((Proxy.executes_localChecks hsteady.own own).sameStamps
      (by simp [Input.stamps])).lastRedisPing
    have hlast : m'.proxy.lastRedisPing = s₁.lastRedisPing := by
      rw [hs', Proxy.lastRedisPing_finishTurn, hown, hremote]
    have hcases := Proxy.lastRedisPing_pingRedis htime pings
    rw [hpolled] at hcases
    refine ⟨?_, ?_⟩
    · change m.proxy.lastRedisPing ≤ m'.proxy.lastRedisPing
      rw [hlast]
      rcases hcases with ⟨rfl, -⟩ | ⟨hdue, hnew⟩
      · exact hpolled.ge
      · omega
    · rintro now ⟨htime, kept', hkept, hpinged⟩
      obtain rfl := Option.some.inj hkept
      change m.proxy.lastRedisPing + 2 ≤ now ∧ now ≤ m'.proxy.lastRedisPing
      have htime' : o.pingTime = now := htime
      rw [hlast]
      rcases hcases with ⟨-, hnone⟩ | ⟨hdue, hnew⟩
      · exact absurd hnone hpinged
      · omega

end MainLoop

end EsbProxy
