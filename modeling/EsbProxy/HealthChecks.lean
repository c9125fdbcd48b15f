import EsbProxy.Registry

/-!
# The health checks of the registries

A health check deletes one stale entry and asks to be called again, so the main loop calls it in
`while(RemoteRegistryHealthCheck());` and `while(LocalRegistryHealthCheck());`. Both loops end,
whatever the iteration order of the maps, and leave every list without the entries that the
comparison `now > lastCheckTime + ttl` selects. The comparison is one of 32-bit `int`s: it tells
the age of an entry as long as the clock has not left the range of `int` since.

## Main definitions

* `Proxy.RemoteCheck`, `Proxy.LocalCheck`: one turn of each loop.
* `SweepsOut`: a loop ends and keeps the methods that a predicate selects.
* `ComparesExactly`: truncation to `int` keeps the order of two times.

## Main results

* `comparesExactly_iff`: truncation keeps the order of times from one range of `int`.
* `Proxy.healthChecks_iff`: the loops keep exactly the recent entries, or the comparison of some
  entry is not exact.
-/

namespace EsbProxy

open Foundation

variable {s s' : Proxy} {now ttl : ℤ}

namespace Proxy

/-- The proxy with another remote registry. -/
def withRemote (s : Proxy) (methods : Registry) : Proxy :=
  { s with remoteInvokeMethods := methods }

/-- The proxy with another local registry. -/
def withLocal (s : Proxy) (methods : Registry) : Proxy :=
  { s with localInvokeMethods := methods }

/-- One turn of `while(RemoteRegistryHealthCheck());`, in any iteration order. -/
def RemoteCheck (now : ℤ) (s : Proxy) (r : Option Proxy) : Prop :=
  ∃ order, remoteRegistryHealthCheck now
    (s.withRemote (s.remoteInvokeMethods.reorder order)) = r

/-- One turn of `while(LocalRegistryHealthCheck());`, in any iteration order. -/
def LocalCheck (now : ℤ) (s : Proxy) (r : Option Proxy) : Prop :=
  ∃ order, localRegistryHealthCheck now
    (s.withLocal (s.localInvokeMethods.reorder order)) = r

end Proxy

/-! ### Loops around a health check -/

section

variable {check : Proxy → Option Proxy → Prop} {registry : Proxy → Registry}
  {put : Proxy → Registry → Proxy} {stale : InvokeMethod → Bool}
  {kept kept' : Bytes → InvokeMethod → Bool}

/-- The loop around a health check of one registry always ends. Afterwards every list of the
registry holds the methods that `kept` selects, in their order, and nothing else has changed. -/
structure SweepsOut (check : Proxy → Option Proxy → Prop) (registry : Proxy → Registry)
    (put : Proxy → Registry → Proxy) (kept : Bytes → InvokeMethod → Bool) (s : Proxy) : Prop where
  terminates : Loop.Terminates check s
  finishes : ∃ s', Loop check s s'
  frame : ∀ s', Loop check s s' → s' = put s (registry s')
  lists : ∀ s', Loop check s s' → ∀ i,
    (registry s').lookup i = ((registry s).lookup i).map (List.filter (kept i))

/-- A check that deletes one selected method at a time, and touches nothing else, sweeps its
registry. -/
theorem sweepsOut_of_sweepStep
    (hstep : ∀ s r, check s r → Dict.SweepStep stale (registry s) (r.map registry))
    (hcheck : ∀ s d r, Dict.SweepStep stale d r → check (put s d) (r.map (put s)))
    (hframe : ∀ s s', check s (some s') → s' = put s (registry s'))
    (hput : ∀ s d d', put (put s d) d' = put s d') (hself : ∀ s, put s (registry s) = s)
    (s : Proxy) :
    Loop check s (put s ((registry s).sweep stale)) ∧
      SweepsOut check registry put (fun _ e => !stale e) s := by
  have hloop : Loop check s (put s ((registry s).sweep stale)) := by
    have hsweep := (Dict.loop_sweep (registry s)).map (put s) (fun d r => hcheck s d r)
    rwa [hself] at hsweep
  refine ⟨hloop, ?_, ⟨_, hloop⟩, fun s' hrun => ?_, fun s' hrun i => ?_⟩
  · exact Loop.terminates_of_lt (fun s => (registry s).size)
      (fun s s' hturn => (hstep s _ hturn).size_lt) s
  · refine (hrun.invariant (I := fun s' => s' = put s (registry s')) ?_ (hself s).symm).1
    intro s₁ s₂ hs₁ hturn
    have hs₂ := hframe s₁ s₂ hturn
    rwa [hs₁, hput] at hs₂
  · exact Dict.lookup_of_loop (hrun.map registry hstep) i

/-- Two selections keep the same exactly when they agree on every listed method. -/
theorem SweepsOut.iff_forall (hsweeps : SweepsOut check registry put kept s) :
    SweepsOut check registry put kept' s ↔
      ∀ i, ∀ e ∈ methodsOf (registry s) i, kept i e = kept' i e := by
  constructor
  · intro hsweeps' i e he
    obtain ⟨s', hrun⟩ := hsweeps.finishes
    have hsame := (hsweeps.lists s' hrun i).symm.trans (hsweeps'.lists s' hrun i)
    cases hlook : (registry s).lookup i with
    | none => simp [methodsOf, hlook] at he
    | some vec =>
      have hvec : e ∈ vec := by simpa [methodsOf, hlook] using he
      rw [hlook, Option.map_some, Option.map_some, Option.some.injEq] at hsame
      have hmem : e ∈ vec.filter (kept i) ↔ e ∈ vec.filter (kept' i) := by rw [hsame]
      rw [List.mem_filter, List.mem_filter] at hmem
      exact Bool.eq_iff_iff.mpr (by simpa [hvec] using hmem)
  · intro hagree
    refine ⟨hsweeps.terminates, hsweeps.finishes, hsweeps.frame, fun s' hrun i => ?_⟩
    rw [hsweeps.lists s' hrun i]
    cases hlook : (registry s).lookup i with
    | none => rfl
    | some vec =>
      have hvec : ∀ e ∈ vec, kept i e = kept' i e :=
        fun e he => hagree i e (by simpa [methodsOf, hlook] using he)
      rw [Option.map_some, Option.map_some, List.filter_congr hvec]

end

namespace Proxy

/-- **The loop over the remote registry.** -/
theorem sweepsOut_remoteCheck (now : ℤ) (s : Proxy) :
    Loop (RemoteCheck now) s (s.remoteRegistryHealthChecks now) ∧
      SweepsOut (RemoteCheck now) remoteInvokeMethods withRemote
        (fun _ e => !isStale remoteTtl now e) s := by
  have hput : ∀ (s : Proxy) d d', (s.withRemote d).withRemote d' = s.withRemote d' :=
    fun _ _ _ => rfl
  have hself : ∀ s : Proxy, s.withRemote s.remoteInvokeMethods = s := fun _ => rfl
  refine sweepsOut_of_sweepStep ?_ ?_ ?_ hput hself s
  · rintro s r ⟨order, rfl⟩
    refine ⟨order, ?_⟩
    rw [remoteRegistryHealthCheck, Option.map_map]
    exact Option.map_id'.symm
  · rintro s d r ⟨order, rfl⟩
    exact ⟨order, rfl⟩
  · rintro s s' ⟨order, hcheck⟩
    obtain ⟨methods, -, rfl⟩ := Option.map_eq_some_iff.mp hcheck
    rfl

/-- **The loop over the local registry.** -/
theorem sweepsOut_localCheck (now : ℤ) (s : Proxy) :
    Loop (LocalCheck now) s (s.localRegistryHealthChecks now) ∧
      SweepsOut (LocalCheck now) localInvokeMethods withLocal
        (fun _ e => !isStale localTtl now e) s := by
  have hput : ∀ (s : Proxy) d d', (s.withLocal d).withLocal d' = s.withLocal d' := fun _ _ _ => rfl
  have hself : ∀ s : Proxy, s.withLocal s.localInvokeMethods = s := fun _ => rfl
  refine sweepsOut_of_sweepStep ?_ ?_ ?_ hput hself s
  · rintro s r ⟨order, rfl⟩
    refine ⟨order, ?_⟩
    rw [localRegistryHealthCheck, Option.map_map]
    exact Option.map_id'.symm
  · rintro s d r ⟨order, rfl⟩
    exact ⟨order, rfl⟩
  · rintro s s' ⟨order, hcheck⟩
    obtain ⟨methods, -, rfl⟩ := Option.map_eq_some_iff.mp hcheck
    rfl

end Proxy

/-! ### Ages -/

/-- Two times compare as they do when both are truncated to `int`. -/
def ComparesExactly (now limit : ℤ) : Prop := int32 now > int32 limit ↔ now > limit

theorem int32_add_int32 (m n : ℤ) : int32 (int32 m + n) = int32 (m + n) := by
  unfold int32
  omega

/-- **When truncation keeps the order.** Two times that are less than `2 ^ 32` seconds apart
compare exactly when no end of an `int` range lies between them. -/
theorem comparesExactly_iff {limit : ℤ} (hnear : |now - limit| < 2 ^ 32) :
    ComparesExactly now limit ↔ (now + 2 ^ 31) / 2 ^ 32 = (limit + 2 ^ 31) / 2 ^ 32 := by
  obtain ⟨hlower, hupper⟩ := abs_lt.mp hnear
  unfold ComparesExactly int32
  omega

/-- Before the clock leaves the range of `int`, times compare exactly. -/
theorem comparesExactly_of_lt {limit : ℤ} (hnow : 0 ≤ now ∧ now < 2 ^ 31)
    (hlimit : 0 ≤ limit ∧ limit < 2 ^ 31) : ComparesExactly now limit := by
  rw [ComparesExactly, int32_eq_self (by omega) hnow.2, int32_eq_self (by omega) hlimit.2]

/-- An entry refreshed at `time` is kept as long as it is not older than `ttl` exactly when the
comparison is exact. -/
theorem not_isStale_eq_iff {e : InvokeMethod} {time : ℤ} (htime : e.lastCheckTime = int32 time) :
    (!Proxy.isStale ttl now e) = decide (now - time ≤ ttl) ↔
      ComparesExactly now (time + ttl) := by
  rw [Proxy.isStale, htime, int32_add_int32, ComparesExactly, ← decide_not, decide_eq_decide,
    not_iff_comm, not_le, iff_comm]
  have hage : ttl < now - time ↔ now > time + ttl := by omega
  rw [hage]
  exact iff_comm

/-! ### What the loops keep -/

/-- The loops around both health checks end, and keep exactly the remote methods that were
refreshed within five seconds and the local ones that were refreshed within ten, when `remoteTime`
and `localTime` tell when the methods were refreshed. -/
def KeepsRecent (now : ℤ) (remoteTime localTime : Bytes → InvokeMethod → ℤ) (s : Proxy) : Prop :=
  SweepsOut (Proxy.RemoteCheck now) Proxy.remoteInvokeMethods Proxy.withRemote
      (fun i e => decide (now - remoteTime i e ≤ 5)) s ∧
    SweepsOut (Proxy.LocalCheck now) Proxy.localInvokeMethods Proxy.withLocal
      (fun i e => decide (now - localTime i e ≤ 10)) s

/-- What the loop keeps is recent exactly when all comparisons are exact. -/
theorem sweepsOut_recent_iff {check : Proxy → Option Proxy → Prop} {registry : Proxy → Registry}
    {put : Proxy → Registry → Proxy} {time : Bytes → InvokeMethod → ℤ}
    (hsweeps : SweepsOut check registry put (fun _ e => !Proxy.isStale ttl now e) s)
    (htime : ∀ i, ∀ e ∈ methodsOf (registry s) i, e.lastCheckTime = int32 (time i e)) :
    SweepsOut check registry put (fun i e => decide (now - time i e ≤ ttl)) s ↔
      ∀ i, ∀ e ∈ methodsOf (registry s) i, ComparesExactly now (time i e + ttl) := by
  rw [hsweeps.iff_forall]
  exact forall_congr' fun i => forall₂_congr fun e he => not_isStale_eq_iff (htime i e he)

/-- **The health checks.** For all contents of the registries, at any constant clock value and in
any iteration orders, the loops around both health checks end, and keep the entries that the
comparison of the code does not call stale, in their order; no other identifier or map changes.
These are the entries that were refreshed within five or ten seconds exactly when, for every entry,
the clock and the end of its lease compare as their truncations to `int` do. -/
theorem Proxy.healthChecks_iff (now : ℤ) (s : Proxy)
    (remoteTime localTime : Bytes → InvokeMethod → ℤ)
    (hremote : ∀ i, ∀ e ∈ methodsOf s.remoteInvokeMethods i,
      e.lastCheckTime = int32 (remoteTime i e))
    (hlocal : ∀ i, ∀ e ∈ methodsOf s.localInvokeMethods i,
      e.lastCheckTime = int32 (localTime i e)) :
    SweepsOut (RemoteCheck now) remoteInvokeMethods withRemote
        (fun _ e => !isStale remoteTtl now e) s ∧
      SweepsOut (LocalCheck now) localInvokeMethods withLocal
        (fun _ e => !isStale localTtl now e) s ∧
      (KeepsRecent now remoteTime localTime s ↔
        (∀ i, ∀ e ∈ methodsOf s.remoteInvokeMethods i,
            (int32 now > int32 (remoteTime i e + 5) ↔ now > remoteTime i e + 5)) ∧
          ∀ i, ∀ e ∈ methodsOf s.localInvokeMethods i,
            (int32 now > int32 (localTime i e + 10) ↔ now > localTime i e + 10)) := by
  have hsweepsRemote := (sweepsOut_remoteCheck now s).2
  have hsweepsLocal := (sweepsOut_localCheck now s).2
  exact ⟨hsweepsRemote, hsweepsLocal, and_congr (sweepsOut_recent_iff hsweepsRemote hremote)
    (sweepsOut_recent_iff hsweepsLocal hlocal)⟩

/-- The proxy with one method that a node registered at `time`. -/
def registeredAt (time : ℤ) : Proxy :=
  let registration : Command :=
    { cmd? := some .registerInvoke
      identifier? := some (ascii "add")
      payload? := some (List.replicate GUID_SIZE 77)
      sourceProxyGuid? := some (List.replicate GUID_SIZE 78) }
  ((Proxy.init (Config.ofSite .first 7770 7780)).registerInvoke time registration).1

theorem methodsOf_registeredAt (time : ℤ) (i : Bytes) :
    methodsOf (registeredAt time).localInvokeMethods i =
      if i = ascii "add" then
        [⟨ascii "add", List.replicate GUID_SIZE 78, List.replicate GUID_SIZE 77, int32 time⟩]
      else [] := by
  have hidentifier : cStr (ascii "add") = ascii "add" := by decide
  rw [registeredAt, Proxy.registerInvoke, methodsOf_fileMethod]
  simp only [methodsOf_emplace]
  change (if i = cStr (ascii "add") then _ else _) = _
  rw [hidentifier]
  rfl

theorem lastCheckTime_registeredAt (time : ℤ) : ∀ i,
    ∀ e ∈ methodsOf (registeredAt time).localInvokeMethods i, e.lastCheckTime = int32 time := by
  intro i e he
  rw [methodsOf_registeredAt] at he
  split_ifs at he with hi
  · rw [List.mem_singleton.mp he]
  · simp at he

/-- A method is kept nine seconds after its registration. -/
theorem healthChecks_iff_registeredAt : KeepsRecent 109 (fun _ _ => 100) (fun _ _ => 100)
    (registeredAt 100) := by
  have hnone : ∀ i, ∀ e ∈ methodsOf (registeredAt 100).remoteInvokeMethods i,
      e.lastCheckTime = int32 100 := fun i e he => absurd he List.not_mem_nil
  refine (Proxy.healthChecks_iff 109 (registeredAt 100) _ _ hnone
    (lastCheckTime_registeredAt 100)).2.2.mpr
    ⟨fun i e he => absurd he List.not_mem_nil, fun i e he => ?_⟩
  exact comparesExactly_of_lt (by decide) (by decide)

/-- A method that was registered twenty seconds before the clock leaves the range of `int` is still
kept when it does. -/
theorem not_healthChecks : ¬ ∀ (now : ℤ) (s : Proxy)
    (remoteTime localTime : Bytes → InvokeMethod → ℤ),
    (∀ i, ∀ e ∈ methodsOf s.remoteInvokeMethods i, e.lastCheckTime = int32 (remoteTime i e)) →
    (∀ i, ∀ e ∈ methodsOf s.localInvokeMethods i, e.lastCheckTime = int32 (localTime i e)) →
    KeepsRecent now remoteTime localTime s := by
  intro claim
  let time : ℤ := 2 ^ 31 - 20
  have hlist := methodsOf_registeredAt time (ascii "add")
  rw [if_pos rfl] at hlist
  have htime := lastCheckTime_registeredAt time
  have hrecent := (claim (2 ^ 31) (registeredAt time) (fun _ _ => time) (fun _ _ => time)
    (fun i e he => absurd he List.not_mem_nil) htime).2
  have hsweeps := (Proxy.sweepsOut_localCheck (2 ^ 31) (registeredAt time)).2
  have hexact := (sweepsOut_recent_iff hsweeps htime).mp hrecent (ascii "add") _
    (hlist ▸ List.mem_singleton_self _)
  exact absurd hexact (by unfold ComparesExactly; decide)

end EsbProxy
