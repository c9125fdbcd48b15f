import EsbProxy.RegistryEffects

/-!
# No method is filed twice

Under every identifier the method guids differ, in both registries, and every entry carries the
identifier under which it is filed. So a registration or an advertisement that is handled twice at
the same time leaves what it leaves when it is handled once, and the answer to a request for the
local registry lists every local method once.

## Main definitions

* `fileNew`: filing a method under an identifier that may be missing.
* `Settled`: a method is on file with the current time.
* `AdvertisesClean`: the advertised identifiers of a run have no NUL.

## Main results

* `lookup_fileNew_of_settled`: filing a settled method changes nothing.
* `Proxy.Run.distinctMethods`: the invariants of the registries, and what follows.
-/

namespace EsbProxy

open Foundation

variable {config : Config} {h : List (Transition Proxy Input Output)} {s s' : Proxy} {i : Input}
  {out : Output} {now : ℤ} {e x : InvokeMethod} {registry : Registry}

/-! ### Filing a method twice -/

/-- File a method under its identifier, which may be missing. -/
def fileNew (now : ℤ) (registry : Registry) (e : InvokeMethod) : Registry :=
  fileMethod now e (registry.emplace e.identifier [])

/-- A method is on file with the current time. -/
def Settled (now : ℤ) (registry : Registry) (e : InvokeMethod) : Prop :=
  ∃ y ∈ methodsOf registry e.identifier,
    y.methodGuid = e.methodGuid ∧ y.lastCheckTime = int32 now

theorem Registry.Distinct.fileNew (hdistinct : registry.Distinct) (now : ℤ) (e : InvokeMethod) :
    Registry.Distinct (fileNew now registry e) :=
  (hdistinct.congr (methodsOf_emplace registry e.identifier)).fileMethod now e

theorem Registry.Keyed.fileNew (hkeyed : registry.Keyed) (now : ℤ) (e : InvokeMethod) :
    Registry.Keyed (fileNew now registry e) :=
  (hkeyed.congr (methodsOf_emplace registry e.identifier)).fileMethod now e

/-- What is settled depends on the lists only. -/
theorem Settled.congr {registry' : Registry} (hsettled : Settled now registry e)
    (heq : ∀ i, methodsOf registry' i = methodsOf registry i) : Settled now registry' e := by
  rw [Settled, heq]
  exact hsettled

/-- A filed method is settled. -/
theorem settled_fileNew (htime : e.lastCheckTime = int32 now) (registry : Registry) :
    Settled now (fileNew now registry e) e := by
  obtain ⟨y, -, hguid, hrefreshed⟩ | ⟨-, hfiled⟩ :=
    filed_or_refreshed now e (registry.emplace e.identifier [])
  · exact ⟨_, hrefreshed, hguid, rfl⟩
  · exact ⟨e, hfiled, rfl, htime⟩

/-- A settled method stays settled when another one is filed. -/
theorem Settled.fileNew (hsettled : Settled now registry x) (htime : e.lastCheckTime = int32 now) :
    Settled now (fileNew now registry e) x := by
  obtain ⟨y, hy, hguid, hyTime⟩ := hsettled
  by_cases hsame : x.identifier = e.identifier ∧ x.methodGuid = e.methodGuid
  · obtain ⟨hidentifier, hmethod⟩ := hsame
    obtain ⟨z, hz, hzGuid, hzTime⟩ := settled_fileNew htime registry
    exact ⟨z, hidentifier ▸ hz, hzGuid.trans hmethod.symm, hzTime⟩
  · have hne : x.identifier ≠ e.identifier ∨ y.methodGuid ≠ e.methodGuid := by
      rw [hguid]
      exact not_and_or.mp hsame
    have hy' : y ∈ methodsOf (registry.emplace e.identifier []) x.identifier := by
      rwa [methodsOf_emplace]
    exact ⟨y, mem_fileMethod_of_ne hy' hne, hguid, hyTime⟩

/-- In a list of distinct methods, one that is on file with the current time is not changed by
filing it. -/
theorem fileIn_of_settled {vec : List InvokeMethod}
    (hdistinct : (vec.map InvokeMethod.methodGuid).Nodup) {y : InvokeMethod} (hy : y ∈ vec)
    (hguid : y.methodGuid = e.methodGuid) (htime : y.lastCheckTime = int32 now) :
    fileIn now e vec = vec := by
  obtain ⟨before, z, after, rfl, hz, hfile⟩ | ⟨hnone, -⟩ := fileIn_cases now e vec
  · obtain rfl : y = z :=
      List.inj_on_of_nodup_map hdistinct hy (by simp) (hguid.trans hz.symm)
    rw [hfile, ← htime]
  · exact absurd hguid (hnone y hy)

/-- **Filing a settled method changes nothing.** -/
theorem lookup_fileNew_of_settled (hdistinct : registry.Distinct)
    (hsettled : Settled now registry e) (i : Bytes) :
    (fileNew now registry e).lookup i = registry.lookup i := by
  obtain ⟨y, hy, hguid, htime⟩ := hsettled
  have hfile : fileIn now e (methodsOf registry e.identifier) = methodsOf registry e.identifier :=
    fileIn_of_settled (hdistinct e.identifier) hy hguid htime
  have hlook : registry.lookup e.identifier = some (methodsOf registry e.identifier) := by
    cases hlook : registry.lookup e.identifier with
    | none => simp [methodsOf, hlook] at hy
    | some vec => simp [methodsOf, hlook]
  rw [fileNew, fileMethod, Dict.lookup_insert, methodsOf_emplace, hfile]
  split_ifs with hi
  · rw [hi, hlook]
  · rw [Dict.lookup_emplace, if_neg hi]

/-! ### Lists of methods -/

theorem distinct_foldl (hdistinct : registry.Distinct) (entries : List InvokeMethod) :
    Registry.Distinct (entries.foldl (fileNew now) registry) := by
  induction entries generalizing registry with
  | nil => exact hdistinct
  | cons e entries ih => exact ih (hdistinct.fileNew now e)

theorem keyed_foldl (hkeyed : registry.Keyed) (entries : List InvokeMethod) :
    Registry.Keyed (entries.foldl (fileNew now) registry) := by
  induction entries generalizing registry with
  | nil => exact hkeyed
  | cons e entries ih => exact ih (hkeyed.fileNew now e)

/-- Methods that are filed one after the other are all settled. -/
theorem settled_foldl : ∀ {entries : List InvokeMethod} {registry : Registry},
    (∀ e ∈ entries, e.lastCheckTime = int32 now) →
      (∀ x, Settled now registry x → Settled now (entries.foldl (fileNew now) registry) x) ∧
        ∀ e ∈ entries, Settled now (entries.foldl (fileNew now) registry) e
  | [], registry, _ => ⟨fun x hx => hx, by simp⟩
  | e :: entries, registry, htime => by
      let after := entries.foldl (fileNew now) (fileNew now registry e)
      obtain ⟨hkeep, hsettle⟩ :
          (∀ x, Settled now (fileNew now registry e) x → Settled now after x) ∧
          ∀ e' ∈ entries, Settled now after e' :=
        settled_foldl fun e' he' => htime e' (List.mem_cons_of_mem _ he')
      have he : e.lastCheckTime = int32 now := htime e List.mem_cons_self
      refine ⟨fun x hx => hkeep x (hx.fileNew he), fun e' he' => ?_⟩
      rcases List.mem_cons.mp he' with rfl | he'
      · exact hkeep e' (settled_fileNew he registry)
      · exact hsettle e' he'

/-- Filing settled methods changes nothing. -/
theorem lookup_foldl_of_settled : ∀ {entries : List InvokeMethod} {registry : Registry},
    registry.Distinct → (∀ e ∈ entries, Settled now registry e) → ∀ i,
      (entries.foldl (fileNew now) registry).lookup i = registry.lookup i
  | [], registry, _, _, i => rfl
  | e :: entries, registry, hdistinct, hsettled, i => by
      have hsame := lookup_fileNew_of_settled hdistinct (hsettled e List.mem_cons_self)
      have hlists : ∀ i, methodsOf (fileNew now registry e) i = methodsOf registry i :=
        fun i => by rw [methodsOf, hsame, methodsOf]
      rw [List.foldl_cons, lookup_foldl_of_settled (hdistinct.fileNew now e)
        (fun e' he' => (hsettled e' (List.mem_cons_of_mem _ he')).congr hlists), hsame]

/-! ### Messages -/

/-- The method that a registration files. -/
def Command.method (now : ℤ) (cmdReq : Command) : InvokeMethod where
  identifier := cStr cmdReq.identifier
  ownerGuid := cStr cmdReq.sourceProxyGuid
  methodGuid := cStr cmdReq.payload
  lastCheckTime := int32 now

/-- The method that a listed one without a NUL in its identifier files. -/
def RegistryEntry.method (now : ℤ) (entry : RegistryEntry) : InvokeMethod where
  identifier := entry.identifier
  ownerGuid := cStr entry.proxyGuid
  methodGuid := cStr entry.methodGuid
  lastCheckTime := int32 now

theorem Proxy.registerInvoke_eq_fileNew (now : ℤ) (cmdReq : Command) (s : Proxy) :
    (s.registerInvoke now cmdReq).1.localInvokeMethods =
      fileNew now s.localInvokeMethods (cmdReq.method now) := rfl

/-- An advertisement without a NUL in the identifiers files its methods one after the other. -/
theorem foldlM_updateEntry (now : ℤ) : ∀ {entries : List RegistryEntry} {registry : Registry},
    (∀ entry ∈ entries, 0 ∉ entry.identifier) →
      entries.foldlM (Proxy.updateEntry now) registry =
        .ok ((entries.map (RegistryEntry.method now)).foldl (fileNew now) registry)
  | [], registry, _ => rfl
  | entry :: entries, registry, hclean => by
      have hfirst : Proxy.updateEntry now registry entry =
          .ok (fileNew now registry (entry.method now)) :=
        Proxy.updateEntry_of_notMem (hclean entry List.mem_cons_self) now registry
      rw [List.foldlM_cons, hfirst]
      exact foldlM_updateEntry now fun entry' hentry' =>
        hclean entry' (List.mem_cons_of_mem _ hentry')

/-- The methods that an input advertises. -/
def Input.entries : Input → List RegistryEntry
  | command _ _ cmdReq _ => if cmdReq.cmd = .registryExchangeResponse then cmdReq.regEntry else []
  | _ => []

/-- The identifiers that are advertised in a run have no NUL. -/
def AdvertisesClean (h : List (Transition Proxy Input Output)) : Prop :=
  ∀ t ∈ h, ∀ entry ∈ t.action.entries, 0 ∉ entry.identifier

theorem Proxy.Step.remoteDistinct (hstep : Proxy.Step s i out s')
    (hclean : ∀ entry ∈ i.entries, 0 ∉ entry.identifier)
    (hs : s.remoteInvokeMethods.Keyed ∧ s.remoteInvokeMethods.Distinct) :
    s'.remoteInvokeMethods.Keyed ∧ s'.remoteInvokeMethods.Distinct := by
  cases hstep.registryEffect with
  | same _ remote => exact ⟨hs.1.congr remote, hs.2.congr remote⟩
  | registered _ _ remote => exact remote ▸ hs
  | checkedLocal _ remote => exact remote ▸ hs
  | checkedRemote _ remote => exact remote ▸ ⟨hs.1.sweep _, hs.2.sweep _⟩
  | advertised call _ remote =>
    simp only [Input.entries, if_pos call] at hclean
    rw [foldlM_updateEntry _ hclean] at remote
    rw [← Except.ok.inj remote]
    exact ⟨keyed_foldl hs.1 _, distinct_foldl hs.2 _⟩

/-- **The remote registry.** Its entries are filed under their identifiers, and no method is filed
twice. -/
theorem Proxy.Run.remoteDistinct (hrun : Proxy.Run config h s) (hclean : AdvertisesClean h) :
    s.remoteInvokeMethods.Keyed ∧ s.remoteInvokeMethods.Distinct :=
  Trace.invariant_of_forall
    (I := fun s : Proxy => s.remoteInvokeMethods.Keyed ∧ s.remoteInvokeMethods.Distinct)
    (P := fun t : Transition Proxy Input Output =>
      ∀ entry ∈ t.action.entries, 0 ∉ entry.identifier)
    ⟨Registry.keyed_empty, Registry.distinct_empty⟩
    (fun _ hstep hclean => hstep.remoteDistinct hclean) hrun hclean

theorem Proxy.remoteRegistryUpdate_of_clean {cmdReq : Command}
    (hclean : ∀ entry ∈ cmdReq.regEntry, 0 ∉ entry.identifier) (now : ℤ) (s : Proxy) :
    s.remoteRegistryUpdate now cmdReq = .ok { s with
      remoteInvokeMethods := (cmdReq.regEntry.map (RegistryEntry.method now)).foldl (fileNew now)
        s.remoteInvokeMethods } := by
  rw [remoteRegistryUpdate, foldlM_updateEntry now hclean]

/-- A registration that is repeated changes nothing. -/
theorem Proxy.lookup_registerInvoke_twice (hdistinct : s.localInvokeMethods.Distinct) (now : ℤ)
    (cmdReq : Command) (i : Bytes) :
    ((s.registerInvoke now cmdReq).1.registerInvoke now cmdReq).1.localInvokeMethods.lookup i =
      (s.registerInvoke now cmdReq).1.localInvokeMethods.lookup i := by
  rw [registerInvoke_eq_fileNew, registerInvoke_eq_fileNew]
  exact lookup_fileNew_of_settled (hdistinct.fileNew now _) (settled_fileNew rfl _) i

/-- An advertisement that is repeated changes nothing. -/
theorem Proxy.lookup_remoteRegistryUpdate_twice (hdistinct : s.remoteInvokeMethods.Distinct)
    (now : ℤ) {cmdReq : Command} (hclean : ∀ entry ∈ cmdReq.regEntry, 0 ∉ entry.identifier) :
    ∃ s₁ s₂, s.remoteRegistryUpdate now cmdReq = .ok s₁ ∧
      s₁.remoteRegistryUpdate now cmdReq = .ok s₂ ∧
      ∀ i, s₂.remoteInvokeMethods.lookup i = s₁.remoteInvokeMethods.lookup i := by
  have htime : ∀ e ∈ cmdReq.regEntry.map (RegistryEntry.method now),
      e.lastCheckTime = int32 now := by
    intro e he
    obtain ⟨entry, -, rfl⟩ := List.mem_map.mp he
    rfl
  exact ⟨_, _, remoteRegistryUpdate_of_clean hclean now s,
    remoteRegistryUpdate_of_clean hclean now _, fun i =>
    lookup_foldl_of_settled (distinct_foldl hdistinct _) (settled_foldl htime).2 i⟩

/-- The identifiers and method guids in the answer to a request for the registry. -/
theorem Proxy.map_regEntry_registryExchangeResponder {cmdReq : Command} {f : Frame}
    (hf : f ∈ s.registryExchangeResponder cmdReq) :
    (f.command.regEntry.map fun e => (e.identifier, e.methodGuid)) =
      s.localInvokeMethods.entries.flatMap fun it => it.2.map fun e => (it.1, e.methodGuid) := by
  obtain rfl := List.mem_singleton.mp hf
  change List.map _ (List.flatMap _ _) = _
  simp only [List.map_flatMap, List.map_map]
  rfl

/-- **The answer to a request for the registry** lists every local method once. -/
theorem Proxy.registryExchangeResponder_lists (hdistinct : s.localInvokeMethods.Distinct)
    {cmdReq : Command} {f : Frame} (hf : f ∈ s.registryExchangeResponder cmdReq) :
    (f.command.regEntry.map fun e => (e.identifier, e.methodGuid)).Nodup ∧
      ∀ i m, (i, m) ∈ (f.command.regEntry.map fun e => (e.identifier, e.methodGuid)) ↔
        ∃ e ∈ methodsOf s.localInvokeMethods i, e.methodGuid = m := by
  have hlist : ∀ {i : Bytes} {vec : List InvokeMethod},
      (⟨i, vec⟩ : Σ _ : Bytes, List InvokeMethod) ∈ s.localInvokeMethods.entries →
        methodsOf s.localInvokeMethods i = vec := by
    intro i vec hmem
    rw [methodsOf, AList.mem_lookup_iff.mpr hmem, Option.getD_some]
  rw [Proxy.map_regEntry_registryExchangeResponder hf]
  constructor
  · refine List.nodup_flatMap.mpr ⟨fun it hit => ?_, ?_⟩
    · have hnodup := hdistinct it.1
      rw [hlist hit] at hnodup
      have hpairs : (it.2.map fun e => (it.1, e.methodGuid)) =
          (it.2.map InvokeMethod.methodGuid).map fun m => (it.1, m) := by
        rw [List.map_map]
        rfl
      rw [hpairs]
      exact hnodup.map fun m m' hsame => congrArg Prod.snd hsame
    · refine (List.nodupKeys_iff_pairwise.mp s.localInvokeMethods.nodupKeys).imp ?_
      intro it it' hne pair hpair hpair'
      obtain ⟨e, -, rfl⟩ := List.mem_map.mp hpair
      obtain ⟨e', -, hsame⟩ := List.mem_map.mp hpair'
      exact hne (congrArg Prod.fst hsame).symm
  · intro i m
    rw [List.mem_flatMap]
    constructor
    · rintro ⟨⟨i', vec⟩, hit, hpair⟩
      obtain ⟨e, he, hsame⟩ := List.mem_map.mp hpair
      obtain ⟨rfl, rfl⟩ := Prod.mk.inj hsame
      exact ⟨e, (hlist hit).symm ▸ he, rfl⟩
    · rintro ⟨e, he, rfl⟩
      cases hlook : s.localInvokeMethods.lookup i with
      | none => simp [methodsOf, hlook] at he
      | some vec =>
        have hit := AList.mem_lookup_iff.mp hlook
        exact ⟨⟨i, vec⟩, hit, List.mem_map.mpr ⟨e, hlist hit ▸ he, rfl⟩⟩

/-- A node registers a method twice, and the only method of an advertisement is listed twice. -/
def repeatedMethods : List Input :=
  let entry : RegistryEntry :=
    { type? := some .invokeMethod
      identifier? := some (ascii "add")
      methodGuid? := some (List.replicate GUID_SIZE 77)
      proxyGuid? := some (List.replicate GUID_SIZE 66) }
  let registration : Command :=
    { cmd? := some .registerInvoke
      identifier? := some (ascii "add")
      payload? := some (List.replicate GUID_SIZE 77)
      sourceProxyGuid? := some (List.replicate GUID_SIZE 78) }
  [.command 1 0 registration (List.replicate GUID_SIZE 78),
   .command 1 0 registration (List.replicate GUID_SIZE 78),
   .command 2 0
    { cmd? := some .registryExchangeResponse
      payload? := some (ascii "here is my registry")
      regEntry := [entry, entry] } (List.replicate GUID_SIZE 66)]

end EsbProxy
