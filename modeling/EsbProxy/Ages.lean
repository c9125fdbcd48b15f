import EsbProxy.CleanUps
import EsbProxy.Connections
import EsbProxy.RedisPings

/-!
# Ages

The proxy stores times as 32-bit `int`s and compares them with the clock in three ways: the health
checks add the age that is allowed to the stored time, clean-ups take the difference of two `int`s,
and the other decisions take the difference of the 64-bit clock and the stored `int`. A time from
another range of `int` than the current one loses a multiple of `2 ^ 32` when it is stored. Here it
is said for which pairs of times each of the seven decisions is right about the age.

## Main definitions

* `intRange`: the range of `int` in which a time lies.
* `SumExact`, `DifferenceExact`, `MixedExact`: when each of the three comparisons is right.

## Main results

* `ages_iff`: when each of the seven decisions is right.
-/

namespace EsbProxy

open Foundation

variable {now t limit ttl : ℤ} {s : Proxy} {key : Bytes}

/-! ### The three comparisons -/

/-- The number of the range of `int` in which a time lies; the current one is the range 0. -/
def intRange (time : ℤ) : ℤ := (time + 2 ^ 31) / 2 ^ 32

theorem int32_eq_sub (time : ℤ) : int32 time = time - 2 ^ 32 * intRange time := by
  unfold int32 intRange
  omega

/-- The clock and the end of the lease lie in the same range of `int`, or the lease ended more than
`2 ^ 32` seconds ago and the clock is further into its range. -/
def SumExact (ttl t now : ℤ) : Prop :=
  intRange now = intRange (t + ttl) ∨
    2 ^ 32 < now - (t + ttl) ∧ (t + ttl + 2 ^ 31) % 2 ^ 32 < (now + 2 ^ 31) % 2 ^ 32

/-- The limit is not reached, or it is reached modulo `2 ^ 32` as well, and the age modulo `2 ^ 32`
is an `int`. -/
def DifferenceExact (limit t now : ℤ) : Prop :=
  now - t < limit ∨ limit ≤ (now - t) % 2 ^ 32 ∧ (now - t) % 2 ^ 32 < 2 ^ 31

/-- The stored time is an `int`; or it is later and the limit is reached; or it is earlier, and the
limit is not reached or still reached when a multiple of `2 ^ 32` is taken off the age. -/
def MixedExact (limit t now : ℤ) : Prop :=
  intRange t = 0 ∨ 0 < intRange t ∧ limit ≤ now - t ∨
    intRange t < 0 ∧ (now - t < limit ∨ limit ≤ now - t + 2 ^ 32 * intRange t)

theorem sum_exact_iff (htime : t ≤ now) (httl : 0 ≤ ttl) (hmax : ttl < 2 ^ 31) :
    (int32 now > int32 (int32 t + ttl) ↔ now - t > ttl) ↔ SumExact ttl t now := by
  rw [int32_add_int32]
  unfold SumExact intRange int32
  omega

theorem difference_exact_iff (htime : t ≤ now) (hlimit : 0 ≤ limit) (hmax : limit ≤ 2 ^ 31) :
    (limit ≤ int32 (int32 now - int32 t) ↔ limit ≤ now - t) ↔ DifferenceExact limit t now := by
  unfold DifferenceExact int32
  omega

theorem mixed_exact_iff (htime : t ≤ now) (hmax : limit ≤ 2 ^ 31) :
    (limit ≤ now - int32 t ↔ limit ≤ now - t) ↔ MixedExact limit t now := by
  rw [int32_eq_sub]
  unfold MixedExact
  omega

/-! ### The seven decisions -/

/-- A sweep drops a method exactly when its age exceeds the lease, if the sum is exact. -/
theorem dropped_iff {registry : Registry} {k : Bytes} {e : InvokeMethod}
    (he : e ∈ methodsOf registry k) (hstored : e.lastCheckTime = int32 t) (htime : t ≤ now)
    (httl : 0 ≤ ttl) (hmax : ttl < 2 ^ 31) :
    (e ∉ methodsOf (Dict.sweep (Proxy.isStale ttl now) registry) k ↔ now - t > ttl) ↔
      SumExact ttl t now := by
  rw [← sum_exact_iff htime httl hmax, methodsOf_sweep, List.mem_filter]
  simp [he, Proxy.isStale, hstored]

/-- A turn of a clean-up counts a call as dead exactly when its age exceeds three seconds, if the
difference is exact. -/
theorem CleanUp.stale_iff {c : CleanUp} {g : Bytes} (hentry : c.calls[c.it]? = some ⟨g, int32 t⟩)
    (htime : t ≤ now) :
    ((∃ c', c.body (int32 now) = some c' ∧ c'.found = c.found + 1) ↔ now - t > 3) ↔
      DifferenceExact 4 t now := by
  have hbody : (∃ c', c.body (int32 now) = some c' ∧ c'.found = c.found + 1) ↔
      4 ≤ int32 (int32 now - int32 t) := by
    rw [CleanUp.body, hentry]
    simp only
    split_ifs
    · simp
      omega
    · simp
      omega
  rw [hbody, ← difference_exact_iff htime (by omega) (by omega)]
  exact Iff.rfl

/-- A subscriber is killed exactly when its silence exceeds thirty seconds, if the mixed difference
is exact. -/
theorem Proxy.killed_iff {sub : Subscriber} (hsub : s.subscribers.lookup key = some sub)
    (hstored : sub.lastActiveTime = int32 t) (htime : t ≤ now) :
    (key ∉ (s.killInactive now key).subscribers ↔ now - t > 30) ↔ MixedExact 31 t now := by
  have hkilled : key ∉ (s.killInactive now key).subscribers ↔ 31 ≤ now - int32 t := by
    rw [killInactive, hsub]
    simp only [hstored, maxInactiveSubscriber]
    split_ifs with hsilent
    · simp
      omega
    · have hmem : key ∈ s.subscribers := Dict.mem_iff_exists_lookup.mpr ⟨sub, hsub⟩
      simp [hmem]
      omega
  rw [hkilled, ← mixed_exact_iff htime (by omega)]
  exact Iff.rfl

/-- A ping that is not throttled fails, or ends with a step. -/
theorem Proxy.pingRedis_eq_iff (zadd zrevrange : Option RedisReply) (peers : ℕ → PeerOutcome) :
    s.pingRedis now zadd zrevrange peers = .ok (s, []) ↔ now - s.lastRedisPing < 2 := by
  constructor
  · intro hping
    by_contra hdue
    unfold pingRedis at hping
    rw [if_neg hdue] at hping
    split_ifs at hping
    split at hping
    · split at hping
      · simp at hping
      · simp at hping
    · simp at hping
  · intro hearly
    unfold pingRedis
    rw [if_pos hearly]

/-- A ping is throttled exactly when two seconds have not passed, if the mixed difference is
exact. -/
theorem Proxy.throttled_iff (hstored : s.lastRedisPing = int32 t) (htime : t ≤ now)
    (zadd zrevrange : Option RedisReply) (peers : ℕ → PeerOutcome) :
    (s.pingRedis now zadd zrevrange peers = .ok (s, []) ↔ now - t < 2) ↔ MixedExact 2 t now := by
  rw [pingRedis_eq_iff, hstored, ← mixed_exact_iff htime (by omega)]
  omega

/-- Every known proxy is asked for its registry exactly when three seconds have passed, if the mixed
difference is exact. -/
theorem Proxy.asked_iff (hstored : s.lastRegistryExchange = int32 t) (htime : t ≤ now)
    {p : Σ _ : Bytes, Bytes} (hp : p ∈ s.proxiesGuids.entries) :
    ((∃ request, publish p.2 request ∈ (s.requestRegistryExchange now).2) ↔ now - t ≥ 3) ↔
      MixedExact 3 t now := by
  have hasked : (∃ request, publish p.2 request ∈ (s.requestRegistryExchange now).2) ↔
      3 ≤ now - int32 t := by
    rw [requestRegistryExchange, hstored]
    split_ifs with hearly
    · simp
      omega
    · refine ⟨fun _ => by omega, fun _ => ⟨_, List.mem_map.mpr ⟨p, hp, rfl⟩⟩⟩
  rw [hasked, ← mixed_exact_iff htime (by omega)]

theorem Proxy.lastResponsesCleanUp_cleanUpLoop (now : ℤ) : ∀ (found : ℕ)
    (its : List (Σ _ : Bytes, ℤ)) (s : Proxy),
    (cleanUpLoop now found its s).lastResponsesCleanUp = s.lastResponsesCleanUp
  | _, [], s => rfl
  | found, it :: rest, s => by
      rw [cleanUpLoop]
      split_ifs
      · rfl
      · exact lastResponsesCleanUp_cleanUpLoop now (found + 1) rest (s.settle it.1)
      · exact lastResponsesCleanUp_cleanUpLoop now found rest s

/-- A clean-up is not throttled exactly when sixty seconds have passed, if the difference is
exact. -/
theorem Proxy.cleanedUp_iff (hstored : s.lastResponsesCleanUp = int32 t) (htime : t ≤ now) :
    ((s.cleanUpResponsesMap now).lastResponsesCleanUp ≠ s.lastResponsesCleanUp ↔ now - t ≥ 60) ↔
      DifferenceExact 60 t now := by
  have hcleaned : (s.cleanUpResponsesMap now).lastResponsesCleanUp ≠ s.lastResponsesCleanUp ↔
      60 ≤ int32 (int32 now - int32 t) := by
    have hsame : int32 now = int32 t → int32 (int32 now - int32 t) = 0 := by
      intro heq
      rw [heq, sub_self]
      rfl
    simp only [cleanUpResponsesMap, hstored]
    split_ifs with hearly
    · rw [hstored]
      omega
    · rw [lastResponsesCleanUp_cleanUpLoop]
      change int32 now ≠ int32 t ↔ _
      omega
  rw [hcleaned, ← difference_exact_iff htime (by omega) (by omega)]

/-- **Ages.** At every clock value, and for every earlier time that was stored as an `int`, the
seven decisions of the proxy are those of unbounded arithmetic exactly when the comparison that each
of them makes is exact: for the two health checks a sum, for the two decisions of a clean-up a
difference of `int`s, and for the others a difference of the clock and an `int`. -/
theorem ages_iff (htime : t ≤ now) :
    (∀ (s : Proxy) k, ∀ e ∈ methodsOf s.remoteInvokeMethods k, e.lastCheckTime = int32 t →
      ((e ∉ methodsOf (s.remoteRegistryHealthChecks now).remoteInvokeMethods k ↔ now - t > 5) ↔
        SumExact 5 t now)) ∧
    (∀ (s : Proxy) k, ∀ e ∈ methodsOf s.localInvokeMethods k, e.lastCheckTime = int32 t →
      ((e ∉ methodsOf (s.localRegistryHealthChecks now).localInvokeMethods k ↔ now - t > 10) ↔
        SumExact 10 t now)) ∧
    (∀ (c : CleanUp) g, c.calls[c.it]? = some ⟨g, int32 t⟩ →
      (((∃ c', c.body (int32 now) = some c' ∧ c'.found = c.found + 1) ↔ now - t > 3) ↔
        DifferenceExact 4 t now)) ∧
    (∀ (s : Proxy) key sub, s.subscribers.lookup key = some sub → sub.lastActiveTime = int32 t →
      ((key ∉ (s.killInactive now key).subscribers ↔ now - t > 30) ↔ MixedExact 31 t now)) ∧
    (∀ (s : Proxy) zadd zrevrange peers, s.lastRedisPing = int32 t →
      ((s.pingRedis now zadd zrevrange peers = .ok (s, []) ↔ now - t < 2) ↔
        MixedExact 2 t now)) ∧
    (∀ s : Proxy, s.lastRegistryExchange = int32 t → ∀ p ∈ s.proxiesGuids.entries,
      (((∃ request, publish p.2 request ∈ (s.requestRegistryExchange now).2) ↔ now - t ≥ 3) ↔
        MixedExact 3 t now)) ∧
    ∀ s : Proxy, s.lastResponsesCleanUp = int32 t →
      (((s.cleanUpResponsesMap now).lastResponsesCleanUp ≠ s.lastResponsesCleanUp ↔
          now - t ≥ 60) ↔ DifferenceExact 60 t now) :=
  ⟨fun _ _ _ he hstored => dropped_iff he hstored htime (by decide) (by decide),
    fun _ _ _ he hstored => dropped_iff he hstored htime (by decide) (by decide),
    fun _ _ hentry => CleanUp.stale_iff hentry htime,
    fun _ _ _ hsub hstored => Proxy.killed_iff hsub hstored htime,
    fun _ zadd zrevrange peers hstored => Proxy.throttled_iff hstored htime zadd zrevrange peers,
    fun _ hstored _ hp => Proxy.asked_iff hstored htime hp,
    fun _ hstored => Proxy.cleanedUp_iff hstored htime⟩

/-- A proxy with a subscriber that was active at `time`. -/
def activeAt (time : ℤ) : Proxy :=
  { Proxy.init (Config.ofSite .first 7770 7780) with
    subscribers := Dict.emplace [] (Subscriber.new (ascii "tcp://127.0.0.1:7771") [] time) ∅ }

/-- A subscriber that was active at 100 is killed at 131. -/
theorem ages_iff_activeAt : [] ∉ ((activeAt 100).killInactive 131 []).subscribers :=
  (((ages_iff (by decide : (100 : ℤ) ≤ 131)).2.2.2.1 (activeAt 100) [] _ rfl rfl).mpr
    (.inl (by decide))).mpr (by decide)

/-- **A subscriber that is killed at once.** It was active at `2 ^ 31`, and the clock shows that
very time. -/
theorem not_ages : ¬ ∀ (now t : ℤ), t ≤ now → ∀ (s : Proxy) key sub,
    s.subscribers.lookup key = some sub → sub.lastActiveTime = int32 t →
    (key ∉ (s.killInactive now key).subscribers ↔ now - t > 30) := by
  intro claim
  have hdecides := claim (2 ^ 31) (2 ^ 31) le_rfl (activeAt (2 ^ 31)) [] _ rfl rfl
  have hexact := (Proxy.killed_iff (s := activeAt (2 ^ 31)) rfl rfl le_rfl).mp hdecides
  exact absurd hexact (by unfold MixedExact intRange; decide)

end EsbProxy
