import EsbProxy.Dispatch
import EsbProxy.Offers

/-!
# What inputs do to the registries

An input registers a method, files an advertisement, sweeps one of the registries, or leaves the
lists of both as they are (`Proxy.Step.registryEffect`); a call opens the lists that it reads
(`Proxy.Step.registryStep`). What holds of the local registry in every reachable state follows.

## Main definitions

* `RegistryEffect`, `RegistryStep`: the classification, of the lists and of the keys.
* `Registry.WellFormed`: what holds of the local registry.

## Main results

* `Proxy.Step.registryStep`, `Proxy.Step.registryEffect`, `Proxy.Run.localWellFormed`.
-/

namespace EsbProxy

open Foundation

variable {config : Config} {h : List (Transition Proxy Input Output)} {s s' : Proxy} {i : Input}
  {out : Output}

/-! ### What an input does to the registries -/

/-- The ways in which an input treats the two registries. -/
inductive RegistryEffect (s : Proxy) : Input → Proxy → Prop
  /-- Both registries keep their lists. -/
  | same {i : Input} {s' : Proxy}
      (loc : ∀ j, methodsOf s'.localInvokeMethods j = methodsOf s.localInvokeMethods j)
      (remote : ∀ j, methodsOf s'.remoteInvokeMethods j = methodsOf s.remoteInvokeMethods j)
      (other : ∀ now rand cmdReq key, i = .command now rand cmdReq key →
        cmdReq.cmd ≠ .registerInvoke ∧ cmdReq.cmd ≠ .registryExchangeResponse) :
      RegistryEffect s i s'
  /-- A node registers a method. -/
  | registered {now rand cmdReq key} {s' : Proxy} (call : cmdReq.cmd = .registerInvoke)
      (loc : s'.localInvokeMethods = (s.registerInvoke now cmdReq).1.localInvokeMethods)
      (remote : s'.remoteInvokeMethods = s.remoteInvokeMethods) :
      RegistryEffect s (.command now rand cmdReq key) s'
  /-- A proxy advertises its methods. -/
  | advertised {now rand cmdReq key} {s' : Proxy} (call : cmdReq.cmd = .registryExchangeResponse)
      (loc : s'.localInvokeMethods = s.localInvokeMethods)
      (remote : cmdReq.regEntry.foldlM (Proxy.updateEntry now) s.remoteInvokeMethods =
        .ok s'.remoteInvokeMethods) :
      RegistryEffect s (.command now rand cmdReq key) s'
  /-- The local registry is swept. -/
  | checkedLocal {now : ℤ} {s' : Proxy}
      (loc : s'.localInvokeMethods =
        Dict.sweep (Proxy.isStale Proxy.localTtl now) s.localInvokeMethods)
      (remote : s'.remoteInvokeMethods = s.remoteInvokeMethods) :
      RegistryEffect s (.localRegistryHealthChecks now) s'
  /-- The remote registry is swept. -/
  | checkedRemote {now : ℤ} {s' : Proxy} (loc : s'.localInvokeMethods = s.localInvokeMethods)
      (remote : s'.remoteInvokeMethods =
        Dict.sweep (Proxy.isStale Proxy.remoteTtl now) s.remoteInvokeMethods) :
      RegistryEffect s (.remoteRegistryHealthChecks now) s'

/-- The same, with the keys: a call opens the lists that it reads. -/
inductive RegistryStep (s : Proxy) : Input → Proxy → Prop
  /-- Both registries keep their keys and lists. -/
  | same {i : Input} {s' : Proxy}
      (loc : ∀ j, s'.localInvokeMethods.lookup j = s.localInvokeMethods.lookup j)
      (remote : ∀ j, s'.remoteInvokeMethods.lookup j = s.remoteInvokeMethods.lookup j)
      (other : ∀ now rand cmdReq key, i = .command now rand cmdReq key → cmdReq.cmd ≠ .invoke ∧
        cmdReq.cmd ≠ .registerInvoke ∧ cmdReq.cmd ≠ .registryExchangeResponse)
      (notLocal : ∀ now, i ≠ .localRegistryHealthChecks now)
      (notRemote : ∀ now, i ≠ .remoteRegistryHealthChecks now) : RegistryStep s i s'
  /-- A method is called. -/
  | called {now rand cmdReq key} {s' : Proxy} (call : cmdReq.cmd = .invoke)
      (loc : s'.localInvokeMethods = s.localInvokeMethods.emplace cmdReq.identifier [])
      (remote : s'.remoteInvokeMethods =
        if methodsOf s.localInvokeMethods cmdReq.identifier = [] then
          s.remoteInvokeMethods.emplace cmdReq.identifier []
        else s.remoteInvokeMethods) : RegistryStep s (.command now rand cmdReq key) s'
  /-- A node registers a method. -/
  | registered {now rand cmdReq key} {s' : Proxy} (call : cmdReq.cmd = .registerInvoke)
      (loc : s'.localInvokeMethods = (s.registerInvoke now cmdReq).1.localInvokeMethods)
      (remote : s'.remoteInvokeMethods = s.remoteInvokeMethods) :
      RegistryStep s (.command now rand cmdReq key) s'
  /-- A proxy advertises its methods. -/
  | advertised {now rand cmdReq key} {s' : Proxy} (call : cmdReq.cmd = .registryExchangeResponse)
      (loc : s'.localInvokeMethods = s.localInvokeMethods)
      (remote : cmdReq.regEntry.foldlM (Proxy.updateEntry now) s.remoteInvokeMethods =
        .ok s'.remoteInvokeMethods) : RegistryStep s (.command now rand cmdReq key) s'
  /-- The local registry is swept. -/
  | checkedLocal {now : ℤ} {s' : Proxy}
      (loc : s'.localInvokeMethods =
        Dict.sweep (Proxy.isStale Proxy.localTtl now) s.localInvokeMethods)
      (remote : s'.remoteInvokeMethods = s.remoteInvokeMethods) :
      RegistryStep s (.localRegistryHealthChecks now) s'
  /-- The remote registry is swept. -/
  | checkedRemote {now : ℤ} {s' : Proxy} (loc : s'.localInvokeMethods = s.localInvokeMethods)
      (remote : s'.remoteInvokeMethods =
        Dict.sweep (Proxy.isStale Proxy.remoteTtl now) s.remoteInvokeMethods) :
      RegistryStep s (.remoteRegistryHealthChecks now) s'

/-- The registries after a call. -/
theorem Proxy.registries_invoke (now : ℤ) (rand : ℕ) (cmdReq : Command) (s : Proxy) :
    (s.invoke now rand cmdReq).1.localInvokeMethods =
        s.localInvokeMethods.emplace cmdReq.identifier [] ∧
      (s.invoke now rand cmdReq).1.remoteInvokeMethods =
        if methodsOf s.localInvokeMethods cmdReq.identifier = [] then
          s.remoteInvokeMethods.emplace cmdReq.identifier []
        else s.remoteInvokeMethods := by
  unfold invoke
  simp only [methodsOf_emplace]
  cases hlocal : pick rand (methodsOf s.localInvokeMethods cmdReq.identifier) with
  | some entry =>
    rw [if_neg (List.ne_nil_of_mem (mem_of_pick hlocal))]
    exact ⟨rfl, rfl⟩
  | none =>
    rw [if_pos (pick_eq_none_iff.mp hlocal)]
    cases pick rand (methodsOf s.remoteInvokeMethods cmdReq.identifier) <;> exact ⟨rfl, rfl⟩

/-- What a command does to the registries. -/
private theorem registryStep_command {now : ℤ} {rand : ℕ} {cmdReq : Command} {key : Bytes}
    (hstep : Proxy.Step s (.command now rand cmdReq key) out s') :
    RegistryStep s (.command now rand cmdReq key) s' := by
  obtain ⟨subs, frames, -, hcall, rfl⟩ := hstep.of_command
  have other : s'.localInvokeMethods = s.localInvokeMethods →
      s'.remoteInvokeMethods = s.remoteInvokeMethods →
      cmdReq.cmd ≠ .invoke ∧ cmdReq.cmd ≠ .registerInvoke ∧
        cmdReq.cmd ≠ .registryExchangeResponse →
      RegistryStep s (.command now rand cmdReq key) s' := by
    intro hloc hremote hcmd
    refine .same (fun j => by rw [hloc]) (fun j => by rw [hremote]) (fun _ _ _ _ heq => ?_)
      (by simp) (by simp)
    cases heq
    exact hcmd
  rw [Proxy.subscriberCallback] at hcall
  cases hcmd : cmdReq.cmd <;> simp only [hcmd] at hcall
  case registerInvoke =>
    cases hcall
    exact .registered hcmd rfl rfl
  case registryExchangeResponse =>
    split at hcall
    · rename_i s'' hupd
      obtain ⟨methods, hmethods, rfl⟩ := Proxy.remoteRegistryUpdate_eq hupd
      cases hcall
      exact .advertised hcmd rfl hmethods
    · simp at hcall
  case invoke =>
    obtain ⟨hloc, hremote⟩ := Proxy.registries_invoke now rand cmdReq { s with subscribers := subs }
    rw [Except.ok.inj hcall] at hloc hremote
    exact .called hcmd hloc hremote
  case response =>
    obtain ⟨responses, times, rfl⟩ := Proxy.invokeResponse_eq (Except.ok.inj hcall)
    exact other rfl rfl (by simp [hcmd])
  case errorResponse =>
    obtain ⟨responses, times, rfl⟩ := Proxy.invokeResponse_eq (Except.ok.inj hcall)
    exact other rfl rfl (by simp [hcmd])
  all_goals
    cases hcall
    exact other rfl rfl (by simp [hcmd])

/-- **What an input does to the registries.** Every executed input is one of the steps listed. -/
theorem Proxy.Step.registryStep (hstep : Proxy.Step s i out s') : RegistryStep s i s' := by
  have same : s'.localInvokeMethods = s.localInvokeMethods →
      s'.remoteInvokeMethods = s.remoteInvokeMethods →
      (∀ now rand cmdReq key, i ≠ .command now rand cmdReq key) →
      (∀ now, i ≠ .localRegistryHealthChecks now) →
      (∀ now, i ≠ .remoteRegistryHealthChecks now) → RegistryStep s i s' := by
    intro hloc hremote hother
    refine .same (fun j => by rw [hloc]) (fun j => by rw [hremote])
      fun now rand cmdReq key heq => ?_
    exact absurd heq (hother now rand cmdReq key)
  cases i with
  | command now rand cmdReq key => exact registryStep_command hstep
  | request now connects cmdReq =>
    obtain ⟨subs, nodes, cmdResp, -, rfl, rfl⟩ := hstep.of_request
    exact same rfl rfl (by simp) (by simp) (by simp)
  | visitMember now proxy peer =>
    obtain ⟨subs, proxies, redis, -, rfl, rfl⟩ := hstep.of_visitMember
    exact same rfl rfl (by simp) (by simp) (by simp)
  | pingedRedis now =>
    cases hstep
    exact same rfl rfl (by simp) (by simp) (by simp)
  | killInactive now key =>
    obtain ⟨subs, -, rfl, rfl⟩ := hstep.of_killInactive
    exact same rfl rfl (by simp) (by simp) (by simp)
  | remoteRegistryHealthChecks now =>
    cases hstep
    exact .checkedRemote rfl rfl
  | localRegistryHealthChecks now =>
    cases hstep
    exact .checkedLocal rfl rfl
  | requestRegistryExchange now =>
    obtain ⟨time, htime⟩ := s.requestRegistryExchange_eq now
    cases hstep
    exact same (by rw [htime]) (by rw [htime]) (by simp) (by simp) (by simp)
  | cleanUpResponsesMap now =>
    have hsame := Proxy.sameButPending_cleanUpResponsesMap now s
    cases hstep
    exact same (by rw [hsame]) (by rw [hsame]) (by simp) (by simp) (by simp)
  | rehash orders =>
    cases hstep
    exact .same (fun _ => Dict.lookup_reorder ..) (fun _ => Dict.lookup_reorder ..) (by simp)
      (by simp) (by simp)

/-- What an input does to the lists of the registries. -/
theorem Proxy.Step.registryEffect (hstep : Proxy.Step s i out s') : RegistryEffect s i s' := by
  cases hstep.registryStep with
  | same loc remote other =>
    refine .same (fun j => ?_) (fun j => ?_) fun now rand cmdReq key heq =>
      (other now rand cmdReq key heq).2
    · rw [methodsOf, loc, methodsOf]
    · rw [methodsOf, remote, methodsOf]
  | called call loc remote =>
    refine .same (fun j => ?_) (fun j => ?_) fun now rand cmdReq key heq => ?_
    · rw [loc, methodsOf_emplace]
    · rw [remote]
      split_ifs
      · rw [methodsOf_emplace]
      · rfl
    · cases heq
      simp [call]
  | registered call loc remote => exact .registered call loc remote
  | advertised call loc remote => exact .advertised call loc remote
  | checkedLocal loc remote => exact .checkedLocal loc remote
  | checkedRemote loc remote => exact .checkedRemote loc remote

/-! ### Invariants of the registries -/

/-- The strings of every entry are C strings without NUL. -/
def Registry.Clean (registry : Registry) : Prop :=
  ∀ i, ∀ e ∈ methodsOf registry i, 0 ∉ e.identifier ∧ 0 ∉ e.methodGuid ∧ 0 ∉ e.ownerGuid

theorem Registry.Clean.fileMethod {registry : Registry} (hclean : registry.Clean) {e : InvokeMethod}
    (he : 0 ∉ e.identifier ∧ 0 ∉ e.methodGuid ∧ 0 ∉ e.ownerGuid) (now : ℤ) :
    Registry.Clean (fileMethod now e registry) := by
  intro i x hx
  obtain hx | ⟨rfl, ⟨y, hy, -, rfl⟩ | ⟨rfl, -⟩⟩ := mem_fileMethod hx
  · exact hclean i x hx
  · exact hclean _ y hy
  · exact he

/-- What holds of the local registry in every state: entries are filed under their identifier, the
method guids under one identifier differ, and no string has a NUL. -/
structure Registry.WellFormed (registry : Registry) : Prop where
  keyed : registry.Keyed
  distinct : registry.Distinct
  clean : registry.Clean

theorem Registry.wellFormed_empty : Registry.WellFormed ∅ :=
  ⟨Registry.keyed_empty, Registry.distinct_empty, fun _ _ he => by simp [methodsOf] at he⟩

theorem Registry.WellFormed.congr {registry registry' : Registry} (hs : registry.WellFormed)
    (heq : ∀ i, methodsOf registry' i = methodsOf registry i) : registry'.WellFormed :=
  ⟨hs.keyed.congr heq, hs.distinct.congr heq, fun j e he => hs.clean j e (heq j ▸ he)⟩

theorem Registry.WellFormed.sweep {registry : Registry} (hs : registry.WellFormed)
    (stale : InvokeMethod → Bool) : Registry.WellFormed (Dict.sweep stale registry) := by
  refine ⟨hs.keyed.sweep _, hs.distinct.sweep _, fun j e he => ?_⟩
  rw [methodsOf_sweep] at he
  exact hs.clean j e (List.mem_of_mem_filter he)

theorem Registry.WellFormed.registerInvoke (hs : s.localInvokeMethods.WellFormed) (now : ℤ)
    (cmdReq : Command) : (s.registerInvoke now cmdReq).1.localInvokeMethods.WellFormed := by
  have hopen := hs.congr (methodsOf_emplace s.localInvokeMethods (cStr cmdReq.identifier))
  exact ⟨hopen.keyed.fileMethod now _, hopen.distinct.fileMethod now _,
    hopen.clean.fileMethod ⟨zero_notMem_cStr _, zero_notMem_cStr _, zero_notMem_cStr _⟩ now⟩

theorem Proxy.Step.localWellFormed (hstep : Proxy.Step s i out s')
    (hs : s.localInvokeMethods.WellFormed) : s'.localInvokeMethods.WellFormed := by
  cases hstep.registryEffect with
  | same loc => exact hs.congr loc
  | registered call loc => exact loc ▸ hs.registerInvoke _ _
  | advertised call loc => exact loc ▸ hs
  | checkedLocal loc => exact loc ▸ hs.sweep _
  | checkedRemote loc => exact loc ▸ hs

theorem Proxy.Run.localWellFormed (run : Proxy.Run config h s) :
    s.localInvokeMethods.WellFormed :=
  Trace.invariant (I := fun s : Proxy => s.localInvokeMethods.WellFormed)
    Registry.wellFormed_empty
    (fun _ _ _ _ hstep => Proxy.Step.localWellFormed hstep) run

end EsbProxy
