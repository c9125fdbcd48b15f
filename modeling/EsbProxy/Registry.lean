import EsbProxy.State

/-!
# The two registries

A node files a method by registering it, and keeps it alive by registering it again. Proxies ask
each other for their local registries; an answer files the listed methods in the remote registry,
and keeps them alive there. Health checks delete what was not confirmed for ten seconds locally,
or five seconds remotely.

Both registries file a method in the same way (`fileMethod`): if the identifier's list has an
entry with the same method guid, the first such entry gets the current time and nothing else
changes; otherwise a new entry is pushed.

## Main definitions

* `refresh`, `fileMethod`: filing a method.
* `Proxy.registerInvoke`, `Proxy.remoteRegistryUpdate`, `Proxy.registryExchangeResponder`,
  `Proxy.requestRegistryExchange`.
* `Proxy.remoteRegistryHealthCheck`, `Proxy.localRegistryHealthCheck` and the loops around them.

## Main results

* `mem_fileMethod`, `mem_fileMethod_of_ne`, `filed_or_refreshed`: what filing a method does to
  the entries.
* `updateEntry_of_notMem`: without NULs, one listed method is filed.
* `Registry.Keyed`, `Registry.Distinct`: invariants of a registry that filing keeps.
-/

namespace EsbProxy

open Foundation

/-! ### Filing a method -/

/-- Give the first entry with the method guid the current time; `none` when there is no such
entry. -/
def refresh (methodGuid : Bytes) (now : ℤ) : List InvokeMethod → Option (List InvokeMethod)
  | [] => none
  | e :: vec =>
    if e.methodGuid = methodGuid then some ({ e with lastCheckTime := int32 now } :: vec)
    else (refresh methodGuid now vec).map (e :: ·)

/-- Refresh the entry with the method guid of `e`, or push `e` when there is none. -/
def fileIn (now : ℤ) (e : InvokeMethod) (vec : List InvokeMethod) : List InvokeMethod :=
  (refresh e.methodGuid now vec).getD (vec ++ [e])

/-- File a method under its identifier. -/
def fileMethod (now : ℤ) (e : InvokeMethod) (registry : Registry) : Registry :=
  registry.insert e.identifier (fileIn now e (methodsOf registry e.identifier))

theorem refresh_eq_none_iff {m : Bytes} {now : ℤ} : ∀ {vec : List InvokeMethod},
    refresh m now vec = none ↔ ∀ y ∈ vec, y.methodGuid ≠ m
  | [] => by simp [refresh]
  | e :: vec => by
      rw [refresh]
      split_ifs with he
      · simp [he]
      · simp [he, @refresh_eq_none_iff m now vec]

/-- A refresh replaces one entry with the method guid by the same entry with the new time. -/
theorem refresh_eq_some {m : Bytes} {now : ℤ} : ∀ {vec vec' : List InvokeMethod},
    refresh m now vec = some vec' → ∃ before y after, vec = before ++ y :: after ∧
      y.methodGuid = m ∧ vec' = before ++ { y with lastCheckTime := int32 now } :: after
  | [], _, h => by simp [refresh] at h
  | e :: vec, vec', h => by
      rw [refresh] at h
      split_ifs at h with he
      · exact ⟨[], e, vec, rfl, he, (Option.some.inj h).symm⟩
      · obtain ⟨rest, hrest, rfl⟩ := Option.map_eq_some_iff.mp h
        obtain ⟨before, y, after, rfl, hy, rfl⟩ := refresh_eq_some hrest
        exact ⟨e :: before, y, after, rfl, hy, rfl⟩

/-- The two ways in which a method is filed in a list. -/
theorem fileIn_cases (now : ℤ) (e : InvokeMethod) (vec : List InvokeMethod) :
    (∃ before y after, vec = before ++ y :: after ∧ y.methodGuid = e.methodGuid ∧
        fileIn now e vec = before ++ { y with lastCheckTime := int32 now } :: after) ∨
      (∀ y ∈ vec, y.methodGuid ≠ e.methodGuid) ∧ fileIn now e vec = vec ++ [e] := by
  unfold fileIn
  cases hvec : refresh e.methodGuid now vec with
  | none => exact .inr ⟨refresh_eq_none_iff.mp hvec, rfl⟩
  | some vec' =>
    obtain ⟨before, y, after, hsplit, hy, rfl⟩ := refresh_eq_some hvec
    exact .inl ⟨before, y, after, hsplit, hy, rfl⟩

theorem methodsOf_fileMethod (now : ℤ) (e : InvokeMethod) (registry : Registry) (i : Bytes) :
    methodsOf (fileMethod now e registry) i =
      if i = e.identifier then fileIn now e (methodsOf registry e.identifier)
      else methodsOf registry i :=
  methodsOf_insert ..

/-- An entry after filing `e` was there before, or is a refreshed entry with the method guid of
`e`, or is `e` itself and no entry had its method guid. -/
theorem mem_fileMethod {now : ℤ} {e x : InvokeMethod} {registry : Registry} {i : Bytes}
    (h : x ∈ methodsOf (fileMethod now e registry) i) :
    x ∈ methodsOf registry i ∨
      i = e.identifier ∧
        ((∃ y ∈ methodsOf registry i, y.methodGuid = e.methodGuid ∧
            x = { y with lastCheckTime := int32 now }) ∨
          x = e ∧ ∀ y ∈ methodsOf registry i, y.methodGuid ≠ e.methodGuid) := by
  rw [methodsOf_fileMethod] at h
  split_ifs at h with hi
  · subst hi
    obtain ⟨before, y, after, hvec, hy, hfile⟩ | ⟨hnone, hfile⟩ :=
      fileIn_cases now e (methodsOf registry e.identifier)
    · rw [hfile] at h
      rcases List.mem_append.mp h with hx | hx
      · exact .inl (hvec ▸ List.mem_append_left _ hx)
      · rcases List.mem_cons.mp hx with rfl | hx
        · exact .inr ⟨rfl, .inl ⟨y, by simp [hvec], hy, rfl⟩⟩
        · exact .inl (by simp [hvec, hx])
    · rw [hfile] at h
      rcases List.mem_append.mp h with hx | hx
      · exact .inl hx
      · exact .inr ⟨rfl, .inr ⟨List.mem_singleton.mp hx, hnone⟩⟩
  · exact .inl h

/-- Filing `e` leaves the entries with other identifiers and other method guids alone. -/
theorem mem_fileMethod_of_ne {now : ℤ} {e x : InvokeMethod} {registry : Registry} {i : Bytes}
    (hx : x ∈ methodsOf registry i) (hne : i ≠ e.identifier ∨ x.methodGuid ≠ e.methodGuid) :
    x ∈ methodsOf (fileMethod now e registry) i := by
  rw [methodsOf_fileMethod]
  split_ifs with hi
  · subst hi
    have hxe : x.methodGuid ≠ e.methodGuid := hne.resolve_left (by simp)
    obtain ⟨before, y, after, hvec, hy, hfile⟩ | ⟨-, hfile⟩ :=
      fileIn_cases now e (methodsOf registry e.identifier)
    · rw [hvec] at hx
      rw [hfile]
      rcases List.mem_append.mp hx with hx | hx
      · exact List.mem_append_left _ hx
      · rcases List.mem_cons.mp hx with rfl | hx
        · exact absurd hy hxe
        · exact List.mem_append_right _ (List.mem_cons_of_mem _ hx)
    · rw [hfile]
      exact List.mem_append_left _ hx
  · exact hx

/-- Filing `e` refreshes an entry with its method guid, or leaves `e` in the list. -/
theorem filed_or_refreshed (now : ℤ) (e : InvokeMethod) (registry : Registry) :
    (∃ y ∈ methodsOf registry e.identifier, y.methodGuid = e.methodGuid ∧
        { y with lastCheckTime := int32 now } ∈
          methodsOf (fileMethod now e registry) e.identifier) ∨
      (∀ y ∈ methodsOf registry e.identifier, y.methodGuid ≠ e.methodGuid) ∧
        e ∈ methodsOf (fileMethod now e registry) e.identifier := by
  rw [methodsOf_fileMethod, if_pos rfl]
  obtain ⟨before, y, after, hvec, hy, hfile⟩ | ⟨hnone, hfile⟩ :=
    fileIn_cases now e (methodsOf registry e.identifier)
  · exact .inl ⟨y, by simp [hvec], hy, by simp [hfile]⟩
  · exact .inr ⟨hnone, by simp [hfile]⟩

/-! ### Invariants of a registry -/

/-- Every entry carries the identifier under which it is filed. -/
def Registry.Keyed (registry : Registry) : Prop :=
  ∀ i, ∀ e ∈ methodsOf registry i, e.identifier = i

/-- No two entries under one identifier have the same method guid. -/
def Registry.Distinct (registry : Registry) : Prop :=
  ∀ i, ((methodsOf registry i).map InvokeMethod.methodGuid).Nodup

theorem Registry.keyed_empty : Registry.Keyed ∅ := fun _ _ he => by simp [methodsOf] at he

theorem Registry.distinct_empty : Registry.Distinct ∅ := fun _ => by simp [methodsOf]

/-- The invariants depend on the lists only. -/
theorem Registry.Keyed.congr {registry registry' : Registry} (h : registry.Keyed)
    (heq : ∀ i, methodsOf registry' i = methodsOf registry i) : registry'.Keyed :=
  fun i e he => h i e (heq i ▸ he)

theorem Registry.Distinct.congr {registry registry' : Registry} (h : registry.Distinct)
    (heq : ∀ i, methodsOf registry' i = methodsOf registry i) : registry'.Distinct :=
  fun i => by rw [heq i]; exact h i

theorem Registry.Keyed.fileMethod {registry : Registry} (h : registry.Keyed) (now : ℤ)
    (e : InvokeMethod) : (fileMethod now e registry).Keyed := by
  intro i x hx
  obtain hx | ⟨rfl, ⟨y, hy, -, rfl⟩ | ⟨rfl, -⟩⟩ := mem_fileMethod hx
  · exact h i x hx
  · exact h _ y hy
  · rfl

theorem Registry.Distinct.fileMethod {registry : Registry} (h : registry.Distinct) (now : ℤ)
    (e : InvokeMethod) : (fileMethod now e registry).Distinct := by
  intro i
  rw [methodsOf_fileMethod]
  split_ifs with hi
  · subst hi
    have hnodup := h e.identifier
    obtain ⟨before, y, after, hvec, -, hfile⟩ | ⟨hnone, hfile⟩ :=
      fileIn_cases now e (methodsOf registry e.identifier)
    · rw [hvec] at hnodup
      simpa [hfile] using hnodup
    · rw [hfile, List.map_append, List.nodup_append]
      refine ⟨hnodup, by simp, fun m hm m' hm' => ?_⟩
      obtain ⟨y, hy, rfl⟩ := List.mem_map.mp hm
      rw [List.map_singleton, List.mem_singleton] at hm'
      exact hm' ▸ hnone y hy
  · exact h i

theorem Registry.Keyed.sweep {registry : Registry} (h : registry.Keyed)
    (stale : InvokeMethod → Bool) : Registry.Keyed (Dict.sweep stale registry) := by
  intro i e he
  rw [methodsOf_sweep] at he
  exact h i e (List.mem_of_mem_filter he)

theorem Registry.Distinct.sweep {registry : Registry} (h : registry.Distinct)
    (stale : InvokeMethod → Bool) : Registry.Distinct (Dict.sweep stale registry) := by
  intro i
  rw [methodsOf_sweep]
  exact (h i).sublist (List.filter_sublist.map _)

/-! ### Registration by nodes -/

namespace Proxy

/-- `Proxy::RegisterInvoke`. -/
def registerInvoke (now : ℤ) (cmdReq : Command) (s : Proxy) : Proxy × List Frame :=
  let entry : LocalInvokeMethod :=
    { identifier := cStr cmdReq.identifier
      ownerGuid := cStr cmdReq.sourceProxyGuid
      methodGuid := cStr cmdReq.payload
      lastCheckTime := int32 now }
  let methods := s.localInvokeMethods.emplace (cStr cmdReq.identifier) []
  -- the identifier of the entry found, or of the new one
  let pIdentifier :=
    match (methodsOf methods entry.identifier).find? (·.methodGuid = entry.methodGuid) with
    | some tEntry => tEntry.identifier
    | none => entry.identifier
  let cmdResp : Command :=
    { cmd? := some .registerInvokeOk
      guidTo? := some cmdReq.sourceProxyGuid
      sourceProxyGuid? := some s.guid
      payload? := some pIdentifier }
  ({ s with localInvokeMethods := fileMethod now entry methods },
    [publish cmdReq.sourceProxyGuid cmdResp])

/-! ### The exchange of registries -/

/-- `Proxy::RegistryExchangeResponder`. -/
def registryExchangeResponder (cmdReq : Command) (s : Proxy) : List Frame :=
  let cmdResp : Command :=
    { cmd? := some .registryExchangeResponse
      sourceProxyGuid? := some s.guid
      payload? := some (ascii "here is my registry")
      regEntry := s.localInvokeMethods.entries.flatMap fun it => it.2.map fun entry =>
        { type? := some .invokeMethod
          identifier? := some it.1
          methodGuid? := some entry.methodGuid
          proxyGuid? := some s.guid } }
  [publish cmdReq.sourceProxyGuid cmdResp]

/-- `Proxy::RequestRegistryExchange`: ask every known proxy, at most every three seconds. -/
def requestRegistryExchange (now : ℤ) (s : Proxy) : Proxy × List Frame :=
  if now - s.lastRegistryExchange < 3 then (s, [])
  else
    let cmdReq : Command :=
      { cmd? := some .registryExchangeRequest
        sourceProxyGuid? := some s.guid
        payload? := some (ascii "REGISTRY_EXCHANGE_REQUEST please :)") }
    ({ s with lastRegistryExchange := int32 now },
      s.proxiesGuids.entries.map fun it => publish it.2 cmdReq)

theorem requestRegistryExchange_eq (now : ℤ) (s : Proxy) :
    ∃ time, (s.requestRegistryExchange now).1 = { s with lastRegistryExchange := time } := by
  rw [requestRegistryExchange]
  split_ifs
  · exact ⟨s.lastRegistryExchange, rfl⟩
  · exact ⟨_, rfl⟩

/-- One turn of the loop of `Proxy::RemoteRegistryUpdate`. The list is looked up under the C
string of the identifier, but a new method is pushed through `at` with all bytes of it. -/
def updateEntry (now : ℤ) (methods : Registry) (entry : RegistryEntry) :
    Except Fault Registry :=
  if entry.type = .invokeMethod then
    let entryStruct : RemoteInvokeMethod :=
      { identifier := cStr entry.identifier
        ownerGuid := cStr entry.proxyGuid
        methodGuid := cStr entry.methodGuid
        lastCheckTime := int32 now }
    let methods := methods.emplace entryStruct.identifier []
    match refresh entryStruct.methodGuid now (methodsOf methods entryStruct.identifier) with
    | some vec => .ok (methods.insert entryStruct.identifier vec)
    | none =>
      match methods.lookup entry.identifier with
      | none => .error .outOfRange
      | some vec => .ok (methods.insert entry.identifier (vec ++ [entryStruct]))
  else .ok methods

/-- `Proxy::RemoteRegistryUpdate`. -/
def remoteRegistryUpdate (now : ℤ) (cmdReq : Command) (s : Proxy) : Except Fault Proxy :=
  match cmdReq.regEntry.foldlM (updateEntry now) s.remoteInvokeMethods with
  | .ok methods => .ok { s with remoteInvokeMethods := methods }
  | .error fault => .error fault

/-- `RemoteRegistryUpdate` changes the remote registry only. -/
theorem remoteRegistryUpdate_eq {now : ℤ} {cmdReq : Command} {s s' : Proxy}
    (hupd : s.remoteRegistryUpdate now cmdReq = .ok s') :
    ∃ methods, cmdReq.regEntry.foldlM (updateEntry now) s.remoteInvokeMethods = .ok methods ∧
      s' = { s with remoteInvokeMethods := methods } := by
  rw [remoteRegistryUpdate] at hupd
  split at hupd
  · rename_i methods hmethods
    exact ⟨methods, hmethods, (Except.ok.inj hupd).symm⟩
  · simp at hupd

/-! ### Health checks -/

/-- An entry is deleted by a health check when `now > lastCheckTime + ttl`, in `int`
arithmetic. -/
def isStale (ttl now : ℤ) (e : InvokeMethod) : Bool :=
  decide (int32 now > int32 (e.lastCheckTime + ttl))

/-- The age in seconds up to which a remote method is kept. -/
def remoteTtl : ℤ := 5

/-- The age in seconds up to which a local method is kept. -/
def localTtl : ℤ := 10

/-- `Proxy::RemoteRegistryHealthCheck`: delete one stale entry; `none` when there is none, and
the function returns `false`. -/
def remoteRegistryHealthCheck (now : ℤ) (s : Proxy) : Option Proxy :=
  (Dict.sweepOne (isStale remoteTtl now) s.remoteInvokeMethods).map fun methods =>
    { s with remoteInvokeMethods := methods }

/-- `Proxy::LocalRegistryHealthCheck`. -/
def localRegistryHealthCheck (now : ℤ) (s : Proxy) : Option Proxy :=
  (Dict.sweepOne (isStale localTtl now) s.localInvokeMethods).map fun methods =>
    { s with localInvokeMethods := methods }

/-- `while(RemoteRegistryHealthCheck());` of the main loop. -/
def remoteRegistryHealthChecks (now : ℤ) (s : Proxy) : Proxy :=
  { s with remoteInvokeMethods := Dict.sweep (isStale remoteTtl now) s.remoteInvokeMethods }

/-- `while(LocalRegistryHealthCheck());` of the main loop. -/
def localRegistryHealthChecks (now : ℤ) (s : Proxy) : Proxy :=
  { s with localInvokeMethods := Dict.sweep (isStale localTtl now) s.localInvokeMethods }

/-! ### One listed method -/

/-- Without a NUL in its identifier, a listed method is filed like a registered one. -/
theorem updateEntry_of_notMem {entry : RegistryEntry} (h : 0 ∉ entry.identifier) (now : ℤ)
    (methods : Registry) :
    updateEntry now methods entry = .ok (fileMethod now
      { identifier := entry.identifier
        ownerGuid := cStr entry.proxyGuid
        methodGuid := cStr entry.methodGuid
        lastCheckTime := int32 now } (methods.emplace entry.identifier [])) := by
  have htype : entry.type = .invokeMethod := by
    cases entry.type
    rfl
  have hlook : (methods.emplace entry.identifier []).lookup entry.identifier =
      some (methodsOf methods entry.identifier) := Dict.lookup_emplace_self ..
  rw [updateEntry, if_pos htype]
  simp only [cStr_eq_self h, fileMethod, fileIn, methodsOf_emplace, hlook]
  cases refresh (cStr entry.methodGuid) now (methodsOf methods entry.identifier) <;> rfl

end Proxy

end EsbProxy
