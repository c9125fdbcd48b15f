import EsbProxy.RegistryEffects

/-!
# How a call is routed

In every state that a run reaches, an `INVOKE` whose identifier has no NUL makes the proxy publish
one command. It goes to the node of a local method with the identifier, if there is one, else to
the proxy of a remote method, and with neither an `ERROR` goes back to where the call came from.
That a forwarded call carries the identifier it came with needs an invariant of the remote
registry: an advertised identifier with a NUL can be filed under a longer key, but then the key has
a NUL as well.

## Main definitions

* `Registry.KeyedWithoutNul`: the invariant.
* `IsCallTo`, `Routes`: what a proxy makes of an `INVOKE`.

## Main results

* `Proxy.Run.remoteKeyedWithoutNul`: the remote registry in every reachable state.
* `Proxy.Run.routes`: every `INVOKE` is routed, or refused.
-/

namespace EsbProxy

open Foundation

variable {config : Config} {h : List (Transition Proxy Input Output)} {s s' : Proxy} {i : Input}
  {out : Output} {now : ℤ} {rand : ℕ} {cmdReq : Command} {registry registry' : Registry}

/-! ### The identifiers of the remote registry -/

/-- Under a key without NUL, every entry carries the key as its identifier. -/
def Registry.KeyedWithoutNul (registry : Registry) : Prop :=
  ∀ i, 0 ∉ i → ∀ e ∈ methodsOf registry i, e.identifier = i

theorem Registry.Keyed.keyedWithoutNul (hkeyed : registry.Keyed) : registry.KeyedWithoutNul :=
  fun i _ e he => hkeyed i e he

theorem Registry.KeyedWithoutNul.congr (hkeyed : registry.KeyedWithoutNul)
    (heq : ∀ i, methodsOf registry' i = methodsOf registry i) : registry'.KeyedWithoutNul :=
  fun i hi e he => hkeyed i hi e (heq i ▸ he)

theorem Registry.KeyedWithoutNul.sweep (hkeyed : registry.KeyedWithoutNul)
    (stale : InvokeMethod → Bool) : Registry.KeyedWithoutNul (Dict.sweep stale registry) := by
  intro i hi e he
  rw [methodsOf_sweep] at he
  exact hkeyed i hi e (List.mem_of_mem_filter he)

/-- A list may be replaced by one that respects its key. -/
theorem Registry.KeyedWithoutNul.insert (hkeyed : registry.KeyedWithoutNul) {k : Bytes}
    {vec : List InvokeMethod} (hvec : 0 ∉ k → ∀ e ∈ vec, e.identifier = k) :
    Registry.KeyedWithoutNul (registry.insert k vec) := by
  intro i hi e he
  rw [methodsOf_insert] at he
  split_ifs at he with hik
  · subst hik
    exact hvec hi e he
  · exact hkeyed i hi e he

/-- A refresh keeps the identifiers of a list. -/
theorem identifier_of_refresh {m i : Bytes} {vec vec' : List InvokeMethod}
    (hrefresh : refresh m now vec = some vec') (hvec : ∀ e ∈ vec, e.identifier = i) :
    ∀ e ∈ vec', e.identifier = i := by
  obtain ⟨before, y, after, rfl, -, rfl⟩ := refresh_eq_some hrefresh
  intro e he
  have hy : y.identifier = i := hvec y (by simp)
  rcases List.mem_append.mp he with hbefore | he
  · exact hvec e (List.mem_append_left _ hbefore)
  · rcases List.mem_cons.mp he with rfl | hafter
    · exact hy
    · exact hvec e (List.mem_append_right _ (List.mem_cons_of_mem _ hafter))

/-- A listed method is filed under a key without NUL only if the key is its identifier. -/
theorem Registry.KeyedWithoutNul.updateEntry (hkeyed : registry.KeyedWithoutNul)
    {entry : RegistryEntry} (hupdate : Proxy.updateEntry now registry entry = .ok registry') :
    registry'.KeyedWithoutNul := by
  rw [Proxy.updateEntry] at hupdate
  split_ifs at hupdate with htype
  · have hopen : Registry.KeyedWithoutNul (registry.emplace (cStr entry.identifier) []) :=
      hkeyed.congr (methodsOf_emplace registry (cStr entry.identifier))
    simp only at hupdate
    split at hupdate
    · rename_i vec hrefresh
      obtain rfl := Except.ok.inj hupdate
      exact hopen.insert fun hclean => identifier_of_refresh hrefresh fun e he =>
        hopen _ hclean e he
    · split at hupdate
      · simp at hupdate
      · rename_i vec hlook
        obtain rfl := Except.ok.inj hupdate
        refine hopen.insert fun hclean e he => ?_
        rcases List.mem_append.mp he with hold | hnew
        · refine hopen entry.identifier hclean e ?_
          rw [methodsOf, hlook]
          exact hold
        · obtain rfl := List.mem_singleton.mp hnew
          exact cStr_eq_self hclean
  · obtain rfl := Except.ok.inj hupdate
    exact hkeyed

theorem Registry.KeyedWithoutNul.updateEntries {entries : List RegistryEntry}
    {registry registry' : Registry} (hkeyed : registry.KeyedWithoutNul)
    (hfold : entries.foldlM (Proxy.updateEntry now) registry = .ok registry') :
    registry'.KeyedWithoutNul :=
  invariant_of_foldlM (fun _ _ _ _ hkeyed hturn => hkeyed.updateEntry hturn) hkeyed hfold

theorem Proxy.Step.remoteKeyedWithoutNul (hstep : Proxy.Step s i out s')
    (hs : s.remoteInvokeMethods.KeyedWithoutNul) : s'.remoteInvokeMethods.KeyedWithoutNul := by
  cases hstep.registryEffect with
  | same _ remote => exact hs.congr remote
  | registered _ _ remote => exact remote ▸ hs
  | checkedLocal _ remote => exact remote ▸ hs
  | checkedRemote _ remote => exact remote ▸ hs.sweep _
  | advertised _ _ remote => exact hs.updateEntries remote

/-- **The remote registry.** In every state that a run reaches, the entries under a key without
NUL carry the key. -/
theorem Proxy.Run.remoteKeyedWithoutNul (hrun : Proxy.Run config h s) :
    s.remoteInvokeMethods.KeyedWithoutNul :=
  Trace.invariant (I := fun s : Proxy => s.remoteInvokeMethods.KeyedWithoutNul)
    Registry.keyed_empty.keyedWithoutNul
    (fun _ _ _ _ hstep => Proxy.Step.remoteKeyedWithoutNul hstep) hrun

/-! ### Routing -/

/-- A command hands a call on to the owner of a method. -/
structure IsCallTo (s : Proxy) (cmdReq : Command) (entry : InvokeMethod) (call : Command) :
    Prop where
  cmd : call.cmd = .invoke
  identifier : call.identifier = cmdReq.identifier
  payload : call.payload = cmdReq.payload
  guidFrom : call.guidFrom = cmdReq.guidFrom
  guidTo : call.guidTo = entry.methodGuid
  sourceProxyGuid : call.sourceProxyGuid = s.guid

theorem Proxy.isCallTo_routed {entry : InvokeMethod}
    (hentry : entry.identifier = cmdReq.identifier) :
    IsCallTo s cmdReq entry (s.routed cmdReq entry) :=
  ⟨rfl, hentry, rfl, rfl, rfl, rfl⟩

/-- The pending maps of `s'` hold what those of `s` hold, and the call `cmdReq`. -/
structure AwaitsCall (s : Proxy) (cmdReq : Command) (s' : Proxy) : Prop where
  pending : cmdReq.guidFrom ∈ s'.invokeResponses ∧ cmdReq.guidFrom ∈ s'.invokeResponsesCallTime
  kept : ∀ g, g ≠ cmdReq.guidFrom ∨ g ∈ s.invokeResponses →
    s'.invokeResponses.lookup g = s.invokeResponses.lookup g
  keptTime : ∀ g, g ≠ cmdReq.guidFrom ∨ g ∈ s.invokeResponsesCallTime →
    s'.invokeResponsesCallTime.lookup g = s.invokeResponsesCallTime.lookup g

/-- What an `INVOKE` must come to: the frames that are published, and the state left behind. -/
structure Routes (s : Proxy) (rand : ℕ) (cmdReq : Command) (frames : List Frame) (s' : Proxy) :
    Prop where
  /-- With a local method, the call goes to the node of one of them. -/
  toNode : ∀ vec : List LocalInvokeMethod, methodsOf s.localInvokeMethods cmdReq.identifier = vec →
    vec ≠ [] → ∃ entry : LocalInvokeMethod, ∃ call, rand % vec.length < vec.length ∧
      vec[rand % vec.length]? = some entry ∧ frames = [publish entry.nodeGuid call] ∧
      IsCallTo s cmdReq entry call ∧ AwaitsCall s cmdReq s'
  /-- Without a local method and with a remote one, it goes to the proxy of one of them. -/
  toProxy : ∀ vec : List RemoteInvokeMethod,
    methodsOf s.localInvokeMethods cmdReq.identifier = [] →
    methodsOf s.remoteInvokeMethods cmdReq.identifier = vec →
    vec ≠ [] → ∃ entry : RemoteInvokeMethod, ∃ call, rand % vec.length < vec.length ∧
      vec[rand % vec.length]? = some entry ∧ frames = [publish entry.proxyGuid call] ∧
      IsCallTo s cmdReq entry call ∧ AwaitsCall s cmdReq s'
  /-- Without any, an `ERROR` goes back. -/
  refused : methodsOf s.localInvokeMethods cmdReq.identifier = [] →
    methodsOf s.remoteInvokeMethods cmdReq.identifier = [] → ∃ refusal : Command,
      frames = [publish cmdReq.sourceProxyGuid refusal] ∧ refusal.cmd = .error ∧
      refusal.guidTo = cmdReq.guidFrom ∧
      ∀ g, s'.invokeResponses.lookup g = s.invokeResponses.lookup g ∧
        s'.invokeResponsesCallTime.lookup g = s.invokeResponsesCallTime.lookup g
  /-- The lists of both registries stay. -/
  localMethods : ∀ i, methodsOf s'.localInvokeMethods i = methodsOf s.localInvokeMethods i
  remoteMethods : ∀ i, methodsOf s'.remoteInvokeMethods i = methodsOf s.remoteInvokeMethods i

theorem Proxy.awaitsCall_await (now : ℤ) (cmdReq : Command) (s : Proxy) :
    AwaitsCall s cmdReq (s.await now cmdReq) where
  pending := by
    constructor
    · exact Dict.mem_iff_exists_lookup.mpr ⟨_, (lookup_await ..).trans (if_pos rfl)⟩
    · exact Dict.mem_iff_exists_lookup.mpr ⟨_, (lookup_await_callTime ..).trans (if_pos rfl)⟩
  kept g hg := by
    rw [lookup_await]
    split_ifs with hsame
    · subst hsame
      obtain ⟨source, hsource⟩ :=
        Dict.mem_iff_exists_lookup.mp (hg.resolve_left (by simp))
      rw [hsource, Option.getD_some]
    · rfl
  keptTime g hg := by
    rw [lookup_await_callTime]
    split_ifs with hsame
    · subst hsame
      obtain ⟨time, htime⟩ :=
        Dict.mem_iff_exists_lookup.mp (hg.resolve_left (by simp))
      rw [htime, Option.getD_some]
    · rfl

/-- What `Invoke` makes of a call, when the entries of both lists carry its identifier. The
connections play no part. -/
theorem Proxy.routes_invoke (now : ℤ) (rand : ℕ) (subs : Dict Bytes Subscriber)
    (hlocal : ∀ e ∈ methodsOf s.localInvokeMethods cmdReq.identifier,
      e.identifier = cmdReq.identifier)
    (hremote : ∀ e ∈ methodsOf s.remoteInvokeMethods cmdReq.identifier,
      e.identifier = cmdReq.identifier) :
    Routes s rand cmdReq (invoke now rand cmdReq { s with subscribers := subs }).2
      (invoke now rand cmdReq { s with subscribers := subs }).1 := by
  have hindex : ∀ {vec : List InvokeMethod}, vec ≠ [] → rand % vec.length < vec.length :=
    fun hvec => Nat.mod_lt rand (List.length_pos_of_ne_nil hvec)
  have hawaits : ∀ registryL registryR, AwaitsCall s cmdReq
      (await now cmdReq { s with
        subscribers := subs
        localInvokeMethods := registryL
        remoteInvokeMethods := registryR }) := fun _ _ =>
    let hs := s.awaitsCall_await now cmdReq
    ⟨hs.pending, hs.kept, hs.keptTime⟩
  obtain ⟨registryL, registryR, hl, hr, ⟨entry, hentry, hpick, hcall⟩ | ⟨hnone, hcases⟩⟩ :=
    invoke_cases now rand cmdReq { s with subscribers := subs }
  · have hsome := List.ne_nil_of_mem hentry
    rw [hcall]
    exact
      { toNode := fun vec hvec hne => ⟨entry, _, hindex hne, hvec ▸ hpick, rfl,
          isCallTo_routed (hlocal entry hentry), hawaits registryL registryR⟩
        toProxy := fun _ hempty => absurd hempty hsome
        refused := fun hempty => absurd hempty hsome
        localMethods := hl
        remoteMethods := hr }
  · obtain ⟨entry, hentry, hpick, hcall⟩ | ⟨hempty, hcall⟩ := hcases
    · have hsome := List.ne_nil_of_mem hentry
      rw [hcall]
      exact
        { toNode := fun _ hvec hne => absurd (hvec.symm.trans hnone) hne
          toProxy := fun vec _ hvec hne => ⟨entry, _, hindex hne, hvec ▸ hpick, rfl,
            isCallTo_routed (hremote entry hentry), hawaits registryL registryR⟩
          refused := fun _ hempty => absurd hempty hsome
          localMethods := hl
          remoteMethods := hr }
    · rw [hcall]
      exact
        { toNode := fun _ hvec hne => absurd (hvec.symm.trans hnone) hne
          toProxy := fun _ _ hvec hne => absurd (hvec.symm.trans hempty) hne
          refused := fun _ _ => ⟨_, rfl, rfl, rfl, fun _ => ⟨rfl, rfl⟩⟩
          localMethods := hl
          remoteMethods := hr }

/-- **Every call is routed or refused.** In every state that a run reaches, an `INVOKE` whose
identifier has no NUL is executed by `Invoke`, whatever the random number. One command is
published: the call, to the node of a local method with the identifier; or, when there is none, to
the proxy of a remote method; or, when there is none either, an `ERROR`, to the source. A routed
call is pending afterwards, nothing else pending changes, and both registries list what they
listed. -/
theorem Proxy.Run.routes (hrun : Proxy.Run config h s) (hcall : cmdReq.cmd = .invoke)
    (hclean : 0 ∉ cmdReq.identifier) (now : ℤ) (rand : ℕ) (key : Bytes) :
    ∃ frames s', (s.markActive now key).invoke now rand cmdReq = (s', frames) ∧
      Proxy.Step s (.command now rand cmdReq key) { frames := frames } s' ∧
      Routes s rand cmdReq frames s' := by
  obtain ⟨subs, hsubs⟩ := s.markActive_eq now key
  have hlocal := (Proxy.Run.localWellFormed hrun).keyed
  have hremote := Proxy.Run.remoteKeyedWithoutNul hrun
  have hroutes := Proxy.routes_invoke (s := s) now rand subs (hlocal _)
    (hremote _ hclean)
  rw [hsubs]
  refine ⟨_, _, rfl, ?_, hroutes⟩
  rw [Proxy.Step, Proxy.exec, Proxy.subscriberCallback, hcall, hsubs]
  rfl

/-- Two nodes serve one identifier. -/
def servedByTwo : List Input :=
  let registration (methodGuid nodeGuid : Bytes) : Command :=
    { cmd? := some .registerInvoke
      identifier? := some (ascii "add")
      payload? := some methodGuid
      sourceProxyGuid? := some nodeGuid }
  let nodeGuid := List.replicate GUID_SIZE 78
  let otherNode := List.replicate GUID_SIZE 79
  [.command 1 0 (registration (List.replicate GUID_SIZE 77) nodeGuid) nodeGuid,
   .command 2 0 (registration (List.replicate GUID_SIZE 76) otherNode) otherNode]

/-- After the run of `servedByTwo`, a call goes to one of the two nodes and is pending. -/
theorem routes_servedByTwo : ∃ h s frames s', Proxy.Run (Config.ofSite .first 7770 7780) h s ∧
    Proxy.Step s
      (.command 3 41 { cmd? := some .invoke, identifier? := some (ascii "add") } []) { frames } s' ∧
    ∃ entry ∈ methodsOf s.localInvokeMethods (ascii "add"), ∃ call,
      frames = [publish (LocalInvokeMethod.nodeGuid entry) call] ∧ [] ∈ s'.invokeResponses := by
  have hsome : (Proxy.execute (Config.ofSite .first 7770 7780) servedByTwo).isSome := by decide
  obtain ⟨h, s, hexec, hserved⟩ : ∃ h s,
      Proxy.execute (Config.ofSite .first 7770 7780) servedByTwo = some (h, s) ∧
      methodsOf s.localInvokeMethods (ascii "add") ≠ [] :=
    ⟨_, _, (Option.some_get hsome).symm, by decide⟩
  have hrun := Proxy.run_execute hexec
  let cmdReq : Command := { cmd? := some .invoke, identifier? := some (ascii "add") }
  have hclean : 0 ∉ cmdReq.identifier := by decide
  obtain ⟨frames, s', -, hstep, hroutes⟩ := Proxy.Run.routes hrun rfl hclean 3 41 []
  obtain ⟨entry, call, -, hentry, hframes, -, hawaits⟩ := hroutes.toNode _ rfl hserved
  exact ⟨h, s, frames, s', hrun, hstep, entry, List.mem_of_getElem? hentry, call, hframes,
    hawaits.pending.1⟩

end EsbProxy
