import EsbProxy.IdentifierKeys

/-!
# Empty lists in the registries

`Invoke` reads a registry through `operator[]`, which opens an empty list under an unknown
identifier, and the health checks leave the lists behind that they have emptied. Nothing deletes an
empty list, so the number of keys is not bounded by the number of methods.

## Main definitions

* `Registry.Populated`, `NoEmptyLists`: no list is empty.
* `KeepsPopulated`: when a step leaves no empty list behind.

## Main results

* `Proxy.Run.populated_iff`: no state of a run has an empty list exactly when every step is such
  a step.
-/

namespace EsbProxy

open Foundation

variable {config : Config} {h : List (Transition Proxy Input Output)} {s s' : Proxy} {i : Input}
  {out : Output} {now : ℤ} {registry registry' : Registry} {entry : RegistryEntry}
  {entries : List RegistryEntry} {k : Bytes}

/-! ### Registries without empty lists -/

/-- Every key has a method. -/
def Registry.Populated (registry : Registry) : Prop :=
  ∀ k ∈ registry, methodsOf registry k ≠ []

theorem Registry.populated_empty : Registry.Populated ∅ :=
  fun k hk => absurd hk (AList.notMem_empty k)

/-- The keys and lists of two registries that read alike. -/
theorem Registry.populated_congr (heq : ∀ k, registry'.lookup k = registry.lookup k) :
    registry'.Populated ↔ registry.Populated := by
  have hkeys : ∀ k, k ∈ registry' ↔ k ∈ registry := fun k => Dict.mem_congr (heq k)
  have hlists : ∀ k, methodsOf registry' k = methodsOf registry k := fun k => by
    rw [methodsOf, heq, methodsOf]
  simp only [Registry.Populated, hkeys, hlists]

/-- A populated registry has at most as many keys as methods. -/
theorem Registry.Populated.length_keys_le (hpop : registry.Populated) :
    registry.keys.length ≤ registry.size := by
  have hkeys : registry.keys.length = registry.entries.length := List.length_map ..
  rw [hkeys]
  refine Dict.length_entries_le_size fun e he hnil => ?_
  have hlook : registry.lookup e.1 = some e.2 := AList.mem_lookup_iff.mpr he
  refine hpop e.1 (Dict.mem_iff_exists_lookup.mpr ⟨e.2, hlook⟩) ?_
  rw [methodsOf, hlook, Option.getD_some, hnil]

/-- Opening a list spoils the registry unless there is a method in it. -/
theorem Registry.populated_emplace_iff (hpop : registry.Populated) :
    Registry.Populated (registry.emplace k []) ↔ methodsOf registry k ≠ [] := by
  constructor
  · intro hopened
    rw [← methodsOf_emplace registry k]
    exact hopened k (Dict.mem_emplace_iff.mpr (.inr rfl))
  · intro hsome j hj
    rw [methodsOf_emplace]
    obtain hj | rfl := Dict.mem_emplace_iff.mp hj
    · exact hpop j hj
    · exact hsome

theorem Registry.Populated.fileMethod {e : InvokeMethod} (hpop : registry.Populated) (now : ℤ) :
    Registry.Populated (fileMethod now e (registry.emplace e.identifier [])) := by
  intro j hj
  rw [methodsOf_fileMethod_ne_nil_iff, methodsOf_emplace]
  rw [EsbProxy.fileMethod, AList.mem_insert, Dict.mem_emplace_iff] at hj
  obtain rfl | hj | rfl := hj
  · exact .inr rfl
  · exact .inl (hpop j hj)
  · exact .inr rfl

/-- The keys of a remote registry in which no call has opened a list. -/
def Registry.CStringKeys (registry : Registry) : Prop := ∀ k ∈ registry, 0 ∉ k

/-- A turn of the loop of `RemoteRegistryUpdate` keeps a populated registry populated. -/
theorem Registry.Populated.updateEntry (hpop : registry.Populated) (hkeys : registry.CStringKeys)
    (hupdate : Proxy.updateEntry now registry entry = .ok registry') :
    registry'.Populated ∧ registry'.CStringKeys := by
  have hkeep : ∀ j, methodsOf registry j ≠ [] → methodsOf registry' j ≠ [] := fun j hj =>
    (Proxy.methodsOf_updateEntry_ne_nil_iff hupdate).mpr (.inl hj)
  -- the method is on file under the C string of its identifier afterwards
  have hown : methodsOf registry' (cStr entry.identifier) ≠ [] := by
    have heffect := Proxy.entryEffect now registry entry
    rw [hupdate] at heffect
    cases heffect with
    | refreshed listed =>
      obtain ⟨y, hy, -⟩ := listed
      exact hkeep _ (List.ne_nil_of_mem hy)
    | pushed unlisted found =>
      have hclean : 0 ∉ entry.identifier := found.elim (hkeys _) id
      exact (Proxy.methodsOf_updateEntry_ne_nil_iff hupdate).mpr
        (.inr ⟨(cStr_eq_self hclean).symm, unlisted⟩)
  constructor
  · intro j hj
    obtain hj | rfl := (Proxy.mem_updateEntry_iff hupdate).mp hj
    · exact hkeep j (hpop j hj)
    · exact hown
  · intro j hj
    obtain hj | rfl := (Proxy.mem_updateEntry_iff hupdate).mp hj
    · exact hkeys j hj
    · exact zero_notMem_cStr _

theorem Registry.Populated.updateEntries {entries : List RegistryEntry}
    {registry registry' : Registry} (hpop : registry.Populated) (hkeys : registry.CStringKeys)
    (hfold : entries.foldlM (Proxy.updateEntry now) registry = .ok registry') :
    registry'.Populated ∧ registry'.CStringKeys := by
  refine invariant_of_foldlM (P := fun registry => registry.Populated ∧ registry.CStringKeys)
    ?_ ⟨hpop, hkeys⟩ hfold
  rintro entry - before after ⟨hbefore, hcstrings⟩ hturn
  exact hbefore.updateEntry hcstrings hturn

/-- A sweep spoils the registry unless it leaves a method under every key. -/
theorem Registry.populated_sweep_iff {stale : InvokeMethod → Bool} :
    Registry.Populated (Dict.sweep stale registry) ↔
      ∀ k ∈ registry, ∃ e ∈ methodsOf registry k, stale e = false := by
  refine forall_congr' fun k => ?_
  rw [Dict.mem_sweep_iff, methodsOf_sweep]
  refine imp_congr_right fun _ => ?_
  rw [Ne, List.filter_eq_nil_iff]
  simp

/-! ### Steps -/

/-- No list of a proxy is empty, so neither registry has more keys than methods. -/
structure NoEmptyLists (s : Proxy) : Prop where
  loc : s.localInvokeMethods.Populated
  remote : s.remoteInvokeMethods.Populated
  localKeys : s.localInvokeMethods.keys.length ≤ s.localInvokeMethods.size
  remoteKeys : s.remoteInvokeMethods.keys.length ≤ s.remoteInvokeMethods.size

theorem noEmptyLists_iff :
    NoEmptyLists s ↔ s.localInvokeMethods.Populated ∧ s.remoteInvokeMethods.Populated :=
  ⟨fun hs => ⟨hs.loc, hs.remote⟩,
    fun hs => ⟨hs.1, hs.2, hs.1.length_keys_le, hs.2.length_keys_le⟩⟩

/-- When a step leaves no empty list behind: a call finds a local method, and a sweep leaves a
method under every key. -/
def KeepsPopulated (t : Transition Proxy Input Output) : Prop :=
  match t.action with
  | .command _ _ cmdReq _ =>
    cmdReq.cmd = .invoke → methodsOf t.pre.localInvokeMethods cmdReq.identifier ≠ []
  | .localRegistryHealthChecks now => ∀ k ∈ t.pre.localInvokeMethods,
      ∃ e ∈ methodsOf t.pre.localInvokeMethods k, Proxy.isStale Proxy.localTtl now e = false
  | .remoteRegistryHealthChecks now => ∀ k ∈ t.pre.remoteInvokeMethods,
      ∃ e ∈ methodsOf t.pre.remoteInvokeMethods k, Proxy.isStale Proxy.remoteTtl now e = false
  | _ => True

instance (registry : Registry) (p : Bytes → Prop) [DecidablePred p] :
    Decidable (∀ k ∈ registry, p k) :=
  inferInstanceAs (Decidable (∀ k ∈ registry.keys, p k))

instance (t : Transition Proxy Input Output) : Decidable (KeepsPopulated t) :=
  match t with
  | ⟨pre, .command _ _ cmdReq _, _, _⟩ => inferInstanceAs (Decidable
      (cmdReq.cmd = .invoke → methodsOf pre.localInvokeMethods cmdReq.identifier ≠ []))
  | ⟨pre, .localRegistryHealthChecks now, _, _⟩ => inferInstanceAs (Decidable
      (∀ k ∈ pre.localInvokeMethods, ∃ e ∈ methodsOf pre.localInvokeMethods k,
        Proxy.isStale Proxy.localTtl now e = false))
  | ⟨pre, .remoteRegistryHealthChecks now, _, _⟩ => inferInstanceAs (Decidable
      (∀ k ∈ pre.remoteInvokeMethods, ∃ e ∈ methodsOf pre.remoteInvokeMethods k,
        Proxy.isStale Proxy.remoteTtl now e = false))
  | ⟨_, .request .., _, _⟩ | ⟨_, .visitMember .., _, _⟩ | ⟨_, .pingedRedis _, _, _⟩
  | ⟨_, .killInactive .., _, _⟩ | ⟨_, .requestRegistryExchange _, _, _⟩
  | ⟨_, .cleanUpResponsesMap _, _, _⟩ | ⟨_, .rehash _, _, _⟩ => inferInstanceAs (Decidable True)

/-- The states of runs in which every step leaves no empty list behind. -/
structure Tidy (s : Proxy) : Prop where
  loc : s.localInvokeMethods.Populated
  remote : s.remoteInvokeMethods.Populated
  keys : s.remoteInvokeMethods.CStringKeys

theorem tidy_init (config : Config) : Tidy (Proxy.init config) :=
  ⟨Registry.populated_empty, Registry.populated_empty, fun k hk => absurd hk (AList.notMem_empty k)⟩

/-- Inputs that neither call a method nor sweep leave no empty list behind. -/
theorem keepsPopulated_of_other
    (hcommand : ∀ now rand cmdReq key, i = .command now rand cmdReq key → cmdReq.cmd ≠ .invoke)
    (hlocal : ∀ now, i ≠ .localRegistryHealthChecks now)
    (hremote : ∀ now, i ≠ .remoteRegistryHealthChecks now) : KeepsPopulated ⟨s, i, out, s'⟩ := by
  cases i with
  | command now rand cmdReq key => exact fun hcmd => absurd hcmd (hcommand now rand cmdReq key rfl)
  | localRegistryHealthChecks now => exact absurd rfl (hlocal now)
  | remoteRegistryHealthChecks now => exact absurd rfl (hremote now)
  | request | visitMember | pingedRedis | killInactive | requestRegistryExchange
  | cleanUpResponsesMap | rehash => exact trivial

/-- A step that leaves no empty list behind keeps a proxy tidy. -/
theorem Tidy.step (hs : Tidy s) (hstep : Proxy.Step s i out s')
    (hkeeps : KeepsPopulated ⟨s, i, out, s'⟩) : Tidy s' := by
  cases hstep.registryStep with
  | same loc remote =>
    refine ⟨(Registry.populated_congr loc).mpr hs.loc,
      (Registry.populated_congr remote).mpr hs.remote, fun k hk => hs.keys k ?_⟩
    exact (Dict.mem_congr (remote k)).mp hk
  | called call loc remote =>
    have hsome := hkeeps call
    rw [if_neg hsome] at remote
    exact ⟨loc ▸ (Registry.populated_emplace_iff hs.loc).mpr hsome, remote ▸ hs.remote,
      remote ▸ hs.keys⟩
  | registered _ loc remote =>
    exact ⟨loc ▸ hs.loc.fileMethod _, remote ▸ hs.remote, remote ▸ hs.keys⟩
  | advertised _ loc remote =>
    obtain ⟨hpop, hkeys⟩ := hs.remote.updateEntries hs.keys remote
    exact ⟨loc ▸ hs.loc, hpop, hkeys⟩
  | checkedLocal loc remote =>
    exact ⟨loc ▸ Registry.populated_sweep_iff.mpr hkeeps, remote ▸ hs.remote, remote ▸ hs.keys⟩
  | checkedRemote loc remote =>
    refine ⟨loc ▸ hs.loc, remote ▸ Registry.populated_sweep_iff.mpr hkeeps, fun k hk => ?_⟩
    rw [remote, Dict.mem_sweep_iff] at hk
    exact hs.keys k hk

/-- **One step.** From a tidy proxy, exactly these steps leave no empty list behind. -/
theorem Tidy.noEmptyLists_iff (hs : Tidy s) (hstep : Proxy.Step s i out s') :
    NoEmptyLists s' ↔ KeepsPopulated ⟨s, i, out, s'⟩ := by
  constructor
  · intro hlists
    cases hstep.registryStep with
    | same _ _ other notLocal notRemote =>
      exact keepsPopulated_of_other (fun _ _ _ _ heq => (other _ _ _ _ heq).1) notLocal notRemote
    | called _ loc _ =>
      intro _
      exact (Registry.populated_emplace_iff hs.loc).mp (loc ▸ hlists.loc)
    | registered call | advertised call =>
      intro hcmd
      simp [call] at hcmd
    | checkedLocal loc _ => exact Registry.populated_sweep_iff.mp (loc ▸ hlists.loc)
    | checkedRemote _ remote => exact Registry.populated_sweep_iff.mp (remote ▸ hlists.remote)
  · intro hkeeps
    have htidy := hs.step hstep hkeeps
    exact EsbProxy.noEmptyLists_iff.mpr ⟨htidy.loc, htidy.remote⟩

/-! ### Runs -/

/-- **No list is empty.** In every run, all states that are reached have no empty list, and so not
more keys than methods, exactly when every call found a local method and every sweep left a method
under every key. -/
theorem Proxy.Run.populated_iff (hrun : Proxy.Run config h s) :
    NoEmptyLists (Proxy.init config) ∧
      ((∀ t ∈ h, NoEmptyLists t.post) ↔ ∀ t ∈ h, KeepsPopulated t) := by
  have hinit := tidy_init config
  exact ⟨EsbProxy.noEmptyLists_iff.mpr ⟨hinit.loc, hinit.remote⟩,
    hrun.forall_post_iff hinit (fun _ hstep hs => hs.noEmptyLists_iff hstep)
      fun _ hstep hkeeps hs => hs.step hstep hkeeps⟩

/-- A node registers `"add"` and the method is called. -/
def calledAdd : List Input :=
  [.command 1 0
    { cmd? := some .registerInvoke
      identifier? := some (ascii "add")
      payload? := some (List.replicate GUID_SIZE 77)
      sourceProxyGuid? := some (List.replicate GUID_SIZE 78) } (List.replicate GUID_SIZE 78),
   .command 2 0 { cmd? := some .invoke, identifier? := some (ascii "add") } [],
   .localRegistryHealthChecks 3]

/-- The run of `calledAdd` has no empty lists. -/
theorem populated_calledAdd : ∃ h s, Proxy.Run (Config.ofSite .first 7770 7780) h s ∧
    h.length = 3 ∧ ∀ t ∈ h, NoEmptyLists t.post := by
  have hsome : (Proxy.execute (Config.ofSite .first 7770 7780) calledAdd).isSome := by decide
  obtain ⟨h, s, hexec, hlength, hkeeps⟩ : ∃ h s,
      Proxy.execute (Config.ofSite .first 7770 7780) calledAdd = some (h, s) ∧ h.length = 3 ∧
      ∀ t ∈ h, KeepsPopulated t :=
    ⟨_, _, (Option.some_get hsome).symm, by decide, by decide⟩
  have hrun := Proxy.run_execute hexec
  exact ⟨h, s, hrun, hlength, (Proxy.Run.populated_iff hrun).2.mpr hkeeps⟩

/-- **A call of an unknown identifier.** It leaves an empty list behind in the local registry. -/
theorem not_noEmptyLists : ¬ ∀ (config : Config) h s, Proxy.Run config h s → NoEmptyLists s := by
  intro claim
  let call : Input := .command 1 0 { cmd? := some .invoke, identifier? := some (ascii "add") } []
  have hsome : (Proxy.execute (Config.ofSite .first 7770 7780) [call]).isSome := by decide
  obtain ⟨h, s, hexec, hkey, hnil⟩ : ∃ h s,
      Proxy.execute (Config.ofSite .first 7770 7780) [call] = some (h, s) ∧
      ascii "add" ∈ s.localInvokeMethods ∧ methodsOf s.localInvokeMethods (ascii "add") = [] :=
    ⟨_, _, (Option.some_get hsome).symm, by decide, by decide⟩
  exact (claim _ h s (Proxy.run_execute hexec)).loc _ hkey hnil

end EsbProxy
