import EsbProxy.RoutedCalls

/-!
# The keys under which methods are filed

`Invoke` looks a method up under all bytes of the identifier. `RegisterInvoke` files it under the C
string of the identifier, so a method whose identifier has a NUL is never found. An advertised
method is looked up under the C string as well, and pushed to the list under all bytes, which must
be there already: only a call that failed can have created it.

## Main definitions

* `updateEntryDebug`: the loop of `RemoteRegistryUpdate` with the `at` of its debug output.
* `RegisterLaw`, `UpdateLaw`: what a registered or an advertised method is for.
* `Unlisted`, `FilesEach`: when an advertised method is pushed, and when all can be called.

## Main results

* `Proxy.Run.identifierKeys_iff`: when the two laws hold.
-/

namespace EsbProxy

open Foundation

variable {config : Config} {h : List (Transition Proxy Input Output)} {s s' : Proxy} {i : Input}
  {out : Output} {now : ℤ} {registry registry' : Registry} {entry : RegistryEntry}
  {entries : List RegistryEntry} {k : Bytes}

/-! ### Methods that are filed stay on file -/

theorem fileIn_ne_nil (now : ℤ) (e : InvokeMethod) (vec : List InvokeMethod) :
    fileIn now e vec ≠ [] := by
  obtain ⟨before, y, after, -, -, hfile⟩ | ⟨-, hfile⟩ := fileIn_cases now e vec
  · rw [hfile]
    simp
  · rw [hfile]
    simp

theorem methodsOf_fileMethod_ne_nil_iff (now : ℤ) (e : InvokeMethod) :
    methodsOf (fileMethod now e registry) k ≠ [] ↔
      methodsOf registry k ≠ [] ∨ k = e.identifier := by
  rw [methodsOf_fileMethod]
  split_ifs with hk
  · simp [hk, fileIn_ne_nil]
  · simp [hk]

/-- No local method under the identifier `k` expires in the transition. -/
def KeepsLocal (k : Bytes) (t : Transition Proxy Input Output) : Prop :=
  ∀ now, t.action = .localRegistryHealthChecks now →
    ∀ e ∈ methodsOf t.pre.localInvokeMethods k, Proxy.isStale Proxy.localTtl now e = false

/-- No remote method under the identifier `k` expires in the transition. -/
def KeepsRemote (k : Bytes) (t : Transition Proxy Input Output) : Prop :=
  ∀ now, t.action = .remoteRegistryHealthChecks now →
    ∀ e ∈ methodsOf t.pre.remoteInvokeMethods k, Proxy.isStale Proxy.remoteTtl now e = false

/-- A sweep that finds nothing stale under a key leaves the list there. -/
theorem methodsOf_sweep_of_fresh {stale : InvokeMethod → Bool}
    (hfresh : ∀ e ∈ methodsOf registry k, stale e = false) :
    methodsOf (Dict.sweep stale registry) k = methodsOf registry k := by
  rw [methodsOf_sweep, List.filter_eq_self]
  intro e he
  simp [hfresh e he]

/-! ### One listed method -/

/-- The method of a listed entry is on file neither in the registry nor by an earlier entry, under
the C string of its identifier. -/
def Unlisted (registry : Registry) (before : List RegistryEntry) (entry : RegistryEntry) : Prop :=
  (∀ y ∈ methodsOf registry (cStr entry.identifier), y.methodGuid ≠ cStr entry.methodGuid) ∧
    ∀ earlier ∈ before, earlier.identifier = cStr entry.identifier →
      cStr earlier.methodGuid ≠ cStr entry.methodGuid

/-- One turn of the loop of `Proxy::RemoteRegistryUpdate` when `dbg` is compiled in: the list that
was looked up with `operator[]` is looked up again with `at`. -/
def Proxy.updateEntryDebug (now : ℤ) (methods : Registry) (entry : RegistryEntry) :
    Except Fault Registry :=
  if entry.type = .invokeMethod then
    match (methods.emplace (cStr entry.identifier) []).lookup (cStr entry.identifier) with
    | none => .error .outOfRange
    | some _ => updateEntry now methods entry
  else .ok methods

theorem RegistryEntry.type_eq (entry : RegistryEntry) : entry.type = .invokeMethod := by
  cases entry.type
  rfl

/-- The first `at` never throws. -/
theorem Proxy.updateEntryDebug_eq (now : ℤ) : updateEntryDebug now = updateEntry now := by
  funext registry entry
  rw [updateEntryDebug, if_pos entry.type_eq, Dict.lookup_emplace_self]

/-- The ways in which a listed method is treated. -/
inductive EntryEffect (registry : Registry) (entry : RegistryEntry) :
    Except Fault Registry → Prop
  /-- The method is on file under the C string of its identifier, and refreshed. -/
  | refreshed {registry' : Registry}
      (listed : ∃ y ∈ methodsOf registry (cStr entry.identifier),
        y.methodGuid = cStr entry.methodGuid)
      (lists : ∀ k, (methodsOf registry' k).map InvokeMethod.methodGuid =
        (methodsOf registry k).map InvokeMethod.methodGuid)
      (keys : ∀ k, k ∈ registry' ↔ k ∈ registry ∨ k = cStr entry.identifier) :
      EntryEffect registry entry (.ok registry')
  /-- It is pushed to the list under all bytes of its identifier. -/
  | pushed {registry' : Registry} (unlisted : Unlisted registry [] entry)
      (found : entry.identifier ∈ registry ∨ 0 ∉ entry.identifier)
      (lists : ∀ k, (methodsOf registry' k).map InvokeMethod.methodGuid =
        (methodsOf registry k).map InvokeMethod.methodGuid ++
          if k = entry.identifier then [cStr entry.methodGuid] else [])
      (keys : ∀ k, k ∈ registry' ↔ k ∈ registry ∨ k = cStr entry.identifier) :
      EntryEffect registry entry (.ok registry')
  /-- There is no such list, and `at` throws. -/
  | threw (unlisted : Unlisted registry [] entry) (missing : entry.identifier ∉ registry)
      (nul : 0 ∈ entry.identifier) : EntryEffect registry entry (.error .outOfRange)

theorem map_methodGuid_refresh {m : Bytes} {vec vec' : List InvokeMethod}
    (hrefresh : refresh m now vec = some vec') :
    vec'.map InvokeMethod.methodGuid = vec.map InvokeMethod.methodGuid := by
  obtain ⟨before, y, after, rfl, -, rfl⟩ := refresh_eq_some hrefresh
  simp

/-- **One turn of the loop of `RemoteRegistryUpdate`.** -/
theorem Proxy.entryEffect (now : ℤ) (registry : Registry) (entry : RegistryEntry) :
    EntryEffect registry entry (updateEntry now registry entry) := by
  rw [updateEntry, if_pos entry.type_eq]
  simp only [methodsOf_emplace]
  cases hrefresh : refresh (cStr entry.methodGuid) now
      (methodsOf registry (cStr entry.identifier)) with
  | some vec =>
    obtain ⟨before, y, after, hvec, hguid, -⟩ := refresh_eq_some hrefresh
    refine .refreshed ⟨y, by simp [hvec], hguid⟩ (fun k => ?_) fun k => ?_
    · rw [methodsOf_insert]
      split_ifs with hk
      · rw [hk, map_methodGuid_refresh hrefresh]
      · rw [methodsOf_emplace]
    · rw [AList.mem_insert, Dict.mem_emplace_iff]
      tauto
  | none =>
    have hunlisted : Unlisted registry [] entry := ⟨refresh_eq_none_iff.mp hrefresh, by simp⟩
    cases hlook : (registry.emplace (cStr entry.identifier) []).lookup entry.identifier with
    | none =>
      have hmissing :
          ¬ (entry.identifier ∈ registry ∨ entry.identifier = cStr entry.identifier) := by
        rw [← Dict.mem_emplace_iff, ← AList.lookup_isSome, hlook]
        simp
      refine .threw hunlisted (fun hmem => hmissing (.inl hmem)) ?_
      by_contra hclean
      exact hmissing (.inr (cStr_eq_self hclean).symm)
    | some vec =>
      have hfound : entry.identifier ∈ registry ∨ entry.identifier = cStr entry.identifier := by
        rw [← Dict.mem_emplace_iff, ← AList.lookup_isSome, hlook]
        simp
      have hvec : vec = methodsOf registry entry.identifier := by
        rw [← methodsOf_emplace registry (cStr entry.identifier), methodsOf, hlook,
          Option.getD_some]
      refine .pushed hunlisted (hfound.imp_right fun heq => ?_) (fun k => ?_) fun k => ?_
      · rw [heq]
        exact zero_notMem_cStr _
      · rw [methodsOf_insert]
        split_ifs with hk
        · rw [hk, hvec, List.map_append]
          rfl
        · rw [methodsOf_emplace, List.append_nil]
      · rw [AList.mem_insert, Dict.mem_emplace_iff]
        constructor
        · rintro (rfl | hk)
          · exact hfound
          · exact hk
        · exact .inr

/-- A key after a turn was there before, or is the C string of the identifier. -/
theorem Proxy.mem_updateEntry_iff (hupdate : updateEntry now registry entry = .ok registry') :
    k ∈ registry' ↔ k ∈ registry ∨ k = cStr entry.identifier := by
  have heffect := entryEffect now registry entry
  rw [hupdate] at heffect
  cases heffect with
  | refreshed _ _ keys => exact keys k
  | pushed _ _ _ keys => exact keys k

/-- A list after a turn was not empty before, or the method was pushed to it. -/
theorem Proxy.methodsOf_updateEntry_ne_nil_iff
    (hupdate : updateEntry now registry entry = .ok registry') :
    methodsOf registry' k ≠ [] ↔
      methodsOf registry k ≠ [] ∨ entry.identifier = k ∧ Unlisted registry [] entry := by
  have hmap : ∀ {vec : List InvokeMethod}, vec ≠ [] ↔ vec.map InvokeMethod.methodGuid ≠ [] := by
    simp
  have heffect := entryEffect now registry entry
  rw [hupdate] at heffect
  cases heffect with
  | refreshed listed lists _ =>
    obtain ⟨y, hy, hguid⟩ := listed
    have hlisted : ¬ Unlisted registry [] entry := fun hunlisted => hunlisted.1 y hy hguid
    rw [hmap, lists, ← hmap]
    simp [hlisted]
  | pushed unlisted _ lists _ =>
    rw [hmap, lists, hmap]
    by_cases hk : k = entry.identifier
    · simp [hk, unlisted]
    · simp [hk, Ne.symm hk]

/-- Under a C string, a method is on file after a turn if it was before, or is the listed one. -/
theorem Proxy.listed_updateEntry_iff (hupdate : updateEntry now registry entry = .ok registry')
    (hk : 0 ∉ k) (m : Bytes) :
    m ∈ (methodsOf registry' k).map InvokeMethod.methodGuid ↔
      m ∈ (methodsOf registry k).map InvokeMethod.methodGuid ∨
        entry.identifier = k ∧ cStr entry.methodGuid = m := by
  have heffect := entryEffect now registry entry
  rw [hupdate] at heffect
  cases heffect with
  | refreshed listed lists _ =>
    rw [lists]
    refine ⟨.inl, ?_⟩
    rintro (hmem | ⟨rfl, rfl⟩)
    · exact hmem
    · obtain ⟨y, hy, hguid⟩ := listed
      rw [cStr_eq_self hk] at hy
      exact List.mem_map.mpr ⟨y, hy, hguid⟩
  | pushed _ _ lists _ =>
    rw [lists, List.mem_append]
    split_ifs with heq
    · simp [heq, eq_comm]
    · simp [Ne.symm heq]

/-- A turn does not throw when the list under all bytes of an identifier with a NUL is there. -/
theorem Proxy.exists_updateEntry (now : ℤ)
    (hfound : 0 ∈ entry.identifier → entry.identifier ∈ registry) :
    ∃ registry', updateEntry now registry entry = .ok registry' := by
  have heffect := entryEffect now registry entry
  cases hupdate : updateEntry now registry entry with
  | ok registry' => exact ⟨registry', rfl⟩
  | error fault =>
    rw [hupdate] at heffect
    cases heffect with
    | threw _ missing nul => exact absurd (hfound nul) missing

/-- What is not on file after the first entry, is on file neither before it nor by it. -/
theorem unlisted_cons_iff {first : RegistryEntry} {before : List RegistryEntry}
    (hupdate : Proxy.updateEntry now registry first = .ok registry') :
    Unlisted registry (first :: before) entry ↔ Unlisted registry' before entry := by
  have hforall : ∀ registry : Registry,
      (∀ y ∈ methodsOf registry (cStr entry.identifier), y.methodGuid ≠ cStr entry.methodGuid) ↔
        cStr entry.methodGuid ∉
          (methodsOf registry (cStr entry.identifier)).map InvokeMethod.methodGuid := by
    simp
  rw [Unlisted, Unlisted, hforall, hforall,
    Proxy.listed_updateEntry_iff hupdate (zero_notMem_cStr _), List.forall_mem_cons]
  tauto

/-! ### All listed methods -/

/-- The method of some entry with the identifier `k` is pushed. -/
def Pushes (registry : Registry) (entries : List RegistryEntry) (k : Bytes) : Prop :=
  ∃ before entry after, entries = before ++ entry :: after ∧ entry.identifier = k ∧
    Unlisted registry before entry

theorem pushes_nil : ¬ Pushes registry [] k := by
  rintro ⟨before, entry, after, hsplit, -⟩
  simp at hsplit

theorem pushes_cons_iff {first : RegistryEntry}
    (hupdate : Proxy.updateEntry now registry first = .ok registry') :
    Pushes registry (first :: entries) k ↔
      first.identifier = k ∧ Unlisted registry [] first ∨ Pushes registry' entries k := by
  constructor
  · rintro ⟨before, entry, after, hsplit, hk, hunlisted⟩
    rcases List.cons_eq_append_iff.mp hsplit with ⟨rfl, hrest⟩ | ⟨before', rfl, hrest⟩
    · obtain ⟨rfl, -⟩ := List.cons.inj hrest
      exact .inl ⟨hk, hunlisted⟩
    · exact .inr ⟨before', entry, after, hrest, hk, (unlisted_cons_iff hupdate).mp hunlisted⟩
  · rintro (⟨hk, hunlisted⟩ | ⟨before, entry, after, rfl, hk, hunlisted⟩)
    · exact ⟨[], first, entries, rfl, hk, hunlisted⟩
    · exact ⟨first :: before, entry, after, rfl, hk, (unlisted_cons_iff hupdate).mpr hunlisted⟩

/-- **The lists after an update.** -/
theorem Proxy.methodsOf_foldlM_ne_nil_iff : ∀ {entries : List RegistryEntry}
    {registry registry' : Registry},
    entries.foldlM (updateEntry now) registry = .ok registry' →
      (methodsOf registry' k ≠ [] ↔ methodsOf registry k ≠ [] ∨ Pushes registry entries k)
  | [], registry, registry', hfold => by
      obtain rfl : registry = registry' := by simpa [pure, Except.pure] using hfold
      simp [pushes_nil]
  | first :: entries, registry, registry', hfold => by
      obtain ⟨between, hfirst, hrest⟩ := foldlM_cons_eq_ok_iff.mp hfold
      rw [methodsOf_foldlM_ne_nil_iff hrest, methodsOf_updateEntry_ne_nil_iff hfirst,
        pushes_cons_iff hfirst, or_assoc]

/-- The keys after an update. -/
theorem Proxy.mem_foldlM_iff : ∀ {entries : List RegistryEntry} {registry registry' : Registry},
    entries.foldlM (updateEntry now) registry = .ok registry' →
      (k ∈ registry' ↔ k ∈ registry ∨ ∃ entry ∈ entries, k = cStr entry.identifier)
  | [], registry, registry', hfold => by
      obtain rfl : registry = registry' := by simpa [pure, Except.pure] using hfold
      simp
  | first :: entries, registry, registry', hfold => by
      obtain ⟨between, hfirst, hrest⟩ := foldlM_cons_eq_ok_iff.mp hfold
      rw [mem_foldlM_iff hrest, mem_updateEntry_iff hfirst, or_assoc, List.exists_mem_cons_iff]

/-- An update does not throw when the lists under identifiers with a NUL are there. -/
theorem Proxy.exists_foldlM (now : ℤ) : ∀ {entries : List RegistryEntry} {registry : Registry},
    (∀ entry ∈ entries, 0 ∈ entry.identifier → entry.identifier ∈ registry) →
      ∃ registry', entries.foldlM (updateEntry now) registry = .ok registry'
  | [], registry, _ => ⟨registry, rfl⟩
  | first :: entries, registry, hfound => by
      obtain ⟨between, hfirst⟩ := exists_updateEntry now (hfound first List.mem_cons_self)
      have hrest : ∀ entry ∈ entries, 0 ∈ entry.identifier → entry.identifier ∈ between :=
        fun entry hentry hnul => (mem_updateEntry_iff hfirst).mpr
          (.inl (hfound entry (List.mem_cons_of_mem _ hentry) hnul))
      obtain ⟨registry', hfold⟩ := exists_foldlM now hrest
      exact ⟨registry', foldlM_cons_eq_ok_iff.mpr ⟨between, hfirst, hfold⟩⟩

/-- A method whose identifier has no NUL can be found after an update that lists it. -/
theorem Proxy.methodsOf_foldlM_of_notMem : ∀ {entries : List RegistryEntry}
    {registry registry' : Registry},
    entries.foldlM (updateEntry now) registry = .ok registry' →
      ∀ entry ∈ entries, 0 ∉ entry.identifier → methodsOf registry' entry.identifier ≠ []
  | first :: entries, registry, registry', hfold, entry, hentry, hclean => by
      obtain ⟨between, hfirst, hrest⟩ := foldlM_cons_eq_ok_iff.mp hfold
      rcases List.mem_cons.mp hentry with rfl | hentry
      · have hlisted := (listed_updateEntry_iff hfirst hclean _).mpr (.inr ⟨rfl, rfl⟩)
        have hsome : methodsOf between entry.identifier ≠ [] := by
          intro hnil
          simp [hnil] at hlisted
        exact (methodsOf_foldlM_ne_nil_iff hrest).mpr (.inl hsome)
      · exact methodsOf_foldlM_of_notMem hrest entry hentry hclean

/-- Every entry with a NUL in its identifier finds the list under all bytes of it, and that list is
not empty or gets the method of an entry. -/
def FilesEach (registry : Registry) (entries : List RegistryEntry) : Prop :=
  ∀ entry ∈ entries, 0 ∈ entry.identifier → entry.identifier ∈ registry ∧
    (methodsOf registry entry.identifier ≠ [] ∨ Pushes registry entries entry.identifier)

theorem mem_of_methodsOf_ne_nil (hk : methodsOf registry k ≠ []) : k ∈ registry := by
  by_contra hmissing
  exact hk (by rw [methodsOf, AList.lookup_eq_none.mpr hmissing]; rfl)

/-- **The methods of an advertisement.** -/
theorem Proxy.filesEach_iff (now : ℤ) : FilesEach registry entries ↔
    ∃ registry', entries.foldlM (updateEntry now) registry = .ok registry' ∧
      ∀ entry ∈ entries, methodsOf registry' entry.identifier ≠ [] := by
  constructor
  · intro hfiles
    obtain ⟨registry', hfold⟩ :=
      exists_foldlM now fun entry hentry hnul => (hfiles entry hentry hnul).1
    refine ⟨registry', hfold, fun entry hentry => ?_⟩
    by_cases hnul : 0 ∈ entry.identifier
    · exact (methodsOf_foldlM_ne_nil_iff hfold).mpr (hfiles entry hentry hnul).2
    · exact methodsOf_foldlM_of_notMem hfold entry hentry hnul
  · rintro ⟨registry', hfold, hsome⟩ entry hentry hnul
    refine ⟨?_, (methodsOf_foldlM_ne_nil_iff hfold).mp (hsome entry hentry)⟩
    -- an update opens lists under C strings only
    obtain hmem | ⟨other, -, heq⟩ :=
      (mem_foldlM_iff hfold).mp (mem_of_methodsOf_ne_nil (hsome entry hentry))
    · exact hmem
    · exact absurd (heq ▸ hnul) (zero_notMem_cStr _)

/-! ### Steps -/

/-- A local method stays on file until the last one under its identifier expires. -/
theorem Proxy.Step.local_ne_nil (hstep : Proxy.Step s i out s')
    (hkeeps : KeepsLocal k ⟨s, i, out, s'⟩) (hs : methodsOf s.localInvokeMethods k ≠ []) :
    methodsOf s'.localInvokeMethods k ≠ [] := by
  cases hstep.registryEffect with
  | same loc => rwa [loc]
  | registered _ loc =>
    rw [loc]
    refine (methodsOf_fileMethod_ne_nil_iff _ _).mpr (.inl ?_)
    rwa [methodsOf_emplace]
  | advertised _ loc => rwa [loc]
  | checkedLocal loc => rwa [loc, methodsOf_sweep_of_fresh (hkeeps _ rfl)]
  | checkedRemote loc => rwa [loc]

/-- A remote method stays on file until the last one under its identifier expires. -/
theorem Proxy.Step.remote_ne_nil (hstep : Proxy.Step s i out s')
    (hkeeps : KeepsRemote k ⟨s, i, out, s'⟩) (hs : methodsOf s.remoteInvokeMethods k ≠ []) :
    methodsOf s'.remoteInvokeMethods k ≠ [] := by
  cases hstep.registryEffect with
  | same _ remote => rwa [remote]
  | registered _ _ remote => rwa [remote]
  | advertised _ _ remote => exact (methodsOf_foldlM_ne_nil_iff remote).mpr (.inl hs)
  | checkedLocal _ remote => rwa [remote]
  | checkedRemote _ remote => rwa [remote, methodsOf_sweep_of_fresh (hkeeps _ rfl)]

/-- A registration is executed. -/
theorem Proxy.step_registerInvoke {cmdReq : Command} (hcmd : cmdReq.cmd = .registerInvoke)
    (s : Proxy) (now : ℤ) (rand : ℕ) (key : Bytes) :
    ∃ out s', Proxy.Step s (.command now rand cmdReq key) out s' ∧
      s'.localInvokeMethods = (s.registerInvoke now cmdReq).1.localInvokeMethods := by
  obtain ⟨subs, hsubs⟩ := s.markActive_eq now key
  let result := registerInvoke now cmdReq { s with subscribers := subs }
  refine ⟨{ frames := result.2 }, result.1, ?_, rfl⟩
  rw [Proxy.Step, Proxy.exec, Proxy.subscriberCallback, hcmd, hsubs]

/-- An advertisement is executed if no turn of the loop throws. -/
theorem Proxy.step_remoteRegistryUpdate {cmdReq : Command}
    (hcmd : cmdReq.cmd = .registryExchangeResponse) {now : ℤ}
    (hfold : cmdReq.regEntry.foldlM (updateEntry now) s.remoteInvokeMethods = .ok registry)
    (rand : ℕ) (key : Bytes) :
    ∃ s', Proxy.Step s (.command now rand cmdReq key) {} s' ∧
      s'.remoteInvokeMethods = registry := by
  obtain ⟨subs, hsubs⟩ := s.markActive_eq now key
  refine ⟨{ s with subscribers := subs, remoteInvokeMethods := registry }, ?_, rfl⟩
  rw [Proxy.Step, Proxy.exec, Proxy.subscriberCallback, hcmd, hsubs]
  simp only [remoteRegistryUpdate, hfold]

/-! ### Calls -/

/-- Every `INVOKE` of the identifier is routed to a local method. -/
def CallsLocal (s : Proxy) (k : Bytes) : Prop :=
  ∀ now rand call key, call.cmd = .invoke → call.identifier = k →
    ∃ entry ∈ methodsOf s.localInvokeMethods k, ∃ s', Proxy.Step s (.command now rand call key)
      { frames := [publish (LocalInvokeMethod.nodeGuid entry) (s.routed call entry)] } s'

/-- Every `INVOKE` of the identifier is routed to a remote method. -/
def CallsRemote (s : Proxy) (k : Bytes) : Prop :=
  ∀ now rand call key, call.cmd = .invoke → call.identifier = k →
    ∃ entry ∈ methodsOf s.remoteInvokeMethods k, ∃ s', Proxy.Step s (.command now rand call key)
      { frames := [publish (RemoteInvokeMethod.proxyGuid entry) (s.routed call entry)] } s'

/-- What a registration is for: until a method under the identifier expires, calls of it are routed
to a local method. -/
def RegisterLaw (s : Proxy) (now : ℤ) (rand : ℕ) (cmdReq : Command) (key : Bytes) : Prop :=
  ∃ out s', Proxy.Step s (.command now rand cmdReq key) out s' ∧
    ∀ h s'', Trace Proxy.Step s' h s'' → (∀ t ∈ h, KeepsLocal cmdReq.identifier t) →
      CallsLocal s'' cmdReq.identifier

/-- What an advertisement is for: it is handled, and until a method under a listed identifier
expires, calls of it are routed to a remote method, unless there is a local one. -/
def UpdateLaw (s : Proxy) (now : ℤ) (rand : ℕ) (cmdReq : Command) (key : Bytes) : Prop :=
  ∃ out s', Proxy.Step s (.command now rand cmdReq key) out s' ∧
    ∀ entry ∈ cmdReq.regEntry, ∀ h s'', Trace Proxy.Step s' h s'' →
      (∀ t ∈ h, KeepsRemote entry.identifier t) →
      methodsOf s''.localInvokeMethods entry.identifier = [] → CallsRemote s'' entry.identifier

/-- A call is executed. -/
theorem Proxy.step_invoke {call : Command} (hcmd : call.cmd = .invoke) (s : Proxy) (now : ℤ)
    (rand : ℕ) (key : Bytes) :
    ∃ subs s' frames, invoke now rand call { s with subscribers := subs } = (s', frames) ∧
      Proxy.Step s (.command now rand call key) { frames := frames } s' := by
  obtain ⟨subs, hsubs⟩ := s.markActive_eq now key
  let result := invoke now rand call { s with subscribers := subs }
  refine ⟨subs, result.1, result.2, rfl, ?_⟩
  rw [Proxy.Step, Proxy.exec, Proxy.subscriberCallback, hcmd, hsubs]

/-- An identifier can be called. -/
theorem exists_call (k : Bytes) : ∃ call : Command, call.cmd = .invoke ∧ call.identifier = k :=
  ⟨{ cmd? := some .invoke, identifier? := some k }, rfl, rfl⟩

theorem callsLocal_iff : CallsLocal s k ↔ methodsOf s.localInvokeMethods k ≠ [] := by
  constructor
  · intro hcalls
    obtain ⟨call, hcmd, hk⟩ := exists_call k
    obtain ⟨entry, hentry, -⟩ := hcalls 0 0 call [] hcmd hk
    exact List.ne_nil_of_mem hentry
  · rintro hsome now rand call key hcmd rfl
    obtain ⟨subs, s', frames, hinvoke, hstep⟩ := Proxy.step_invoke hcmd s now rand key
    obtain ⟨_, _, -, -, ⟨entry, hentry, -, heq⟩ | ⟨hnone, -⟩⟩ :=
      Proxy.invoke_cases now rand call { s with subscribers := subs }
    · obtain ⟨-, rfl⟩ := Prod.mk.inj (hinvoke.symm.trans heq)
      exact ⟨entry, hentry, s', hstep⟩
    · exact absurd hnone hsome

theorem callsRemote_iff (hlocal : methodsOf s.localInvokeMethods k = []) :
    CallsRemote s k ↔ methodsOf s.remoteInvokeMethods k ≠ [] := by
  constructor
  · intro hcalls
    obtain ⟨call, hcmd, hk⟩ := exists_call k
    obtain ⟨entry, hentry, -⟩ := hcalls 0 0 call [] hcmd hk
    exact List.ne_nil_of_mem hentry
  · rintro hsome now rand call key hcmd rfl
    obtain ⟨subs, s', frames, hinvoke, hstep⟩ := Proxy.step_invoke hcmd s now rand key
    obtain ⟨_, _, -, -, ⟨entry, hentry, -⟩ | ⟨-, ⟨entry, hentry, -, heq⟩ | ⟨hnone, -⟩⟩⟩ :=
      Proxy.invoke_cases now rand call { s with subscribers := subs }
    · exact absurd hlocal (List.ne_nil_of_mem hentry)
    · obtain ⟨-, rfl⟩ := Prod.mk.inj (hinvoke.symm.trans heq)
      exact ⟨entry, hentry, s', hstep⟩
    · exact absurd hnone hsome

/-! ### The laws -/

/-- No local method is on file under a key with a NUL. -/
theorem Proxy.Run.methodsOf_of_nul (hrun : Proxy.Run config h s) (hk : 0 ∈ k) :
    methodsOf s.localInvokeMethods k = [] := by
  have hlocal := Proxy.Run.localWellFormed hrun
  rw [List.eq_nil_iff_forall_not_mem]
  intro e he
  have hclean := (hlocal.clean k e he).1
  rw [hlocal.keyed k e he] at hclean
  exact hclean hk

theorem Proxy.Run.registerLaw_iff (hrun : Proxy.Run config h s) {cmdReq : Command}
    (hcmd : cmdReq.cmd = .registerInvoke) (now : ℤ) (rand : ℕ) (key : Bytes) :
    RegisterLaw s now rand cmdReq key ↔ 0 ∉ cmdReq.identifier := by
  constructor
  · rintro ⟨out, s', hstep, hlaw⟩ hnul
    have hcalls := hlaw [] s' .nil (by simp)
    exact callsLocal_iff.mp hcalls (Proxy.Run.methodsOf_of_nul (hrun.snoc hstep) hnul)
  · intro hclean
    obtain ⟨out, s', hstep, hregistry⟩ := Proxy.step_registerInvoke hcmd s now rand key
    refine ⟨out, s', hstep, fun h s'' htrace hkeeps => callsLocal_iff.mpr ?_⟩
    refine htrace.invariant_of_forall
      (I := fun s : Proxy => methodsOf s.localInvokeMethods cmdReq.identifier ≠ []) ?_
      (fun t hstep hkeep => hstep.local_ne_nil hkeep) hkeeps
    rw [hregistry]
    exact (methodsOf_fileMethod_ne_nil_iff _ _).mpr (.inr (cStr_eq_self hclean).symm)

theorem Proxy.Run.updateLaw_iff (hrun : Proxy.Run config h s) {cmdReq : Command}
    (hcmd : cmdReq.cmd = .registryExchangeResponse) (now : ℤ) (rand : ℕ) (key : Bytes) :
    UpdateLaw s now rand cmdReq key ↔ FilesEach s.remoteInvokeMethods cmdReq.regEntry := by
  rw [Proxy.filesEach_iff now]
  constructor
  · rintro ⟨out, s', hstep, hlaw⟩
    cases hstep.registryEffect with
    | same _ _ other => exact absurd hcmd (other _ _ _ _ rfl).2
    | registered call => simp [hcmd] at call
    | advertised _ loc remote =>
      refine ⟨s'.remoteInvokeMethods, remote, fun entry hentry => ?_⟩
      by_cases hnul : 0 ∈ entry.identifier
      · have hlocal := Proxy.Run.methodsOf_of_nul (hrun.snoc hstep) hnul
        exact (callsRemote_iff hlocal).mp (hlaw entry hentry [] s' .nil (by simp) hlocal)
      · exact Proxy.methodsOf_foldlM_of_notMem remote entry hentry hnul
  · rintro ⟨registry', hfold, hsome⟩
    obtain ⟨s', hstep, rfl⟩ := Proxy.step_remoteRegistryUpdate hcmd hfold rand key
    refine ⟨{}, s', hstep, fun entry hentry h s'' htrace hkeeps hlocal => ?_⟩
    refine (callsRemote_iff hlocal).mpr (htrace.invariant_of_forall
      (I := fun s : Proxy => methodsOf s.remoteInvokeMethods entry.identifier ≠ [])
      (hsome entry hentry) (fun t hstep hkeep => hstep.remote_ne_nil hkeep) hkeeps)

/-- **The keys of the registries.** In every state that a run reaches: a registration is for what it
is for exactly when its identifier has no NUL; an advertisement is, exactly when every listed
identifier with a NUL is a key of the remote registry whose list is not empty, or gets a method
that is not on file under the C string of the identifier. The `at` of the debug output never
throws. -/
theorem Proxy.Run.identifierKeys_iff (hrun : Proxy.Run config h s) :
    (∀ now rand cmdReq key, cmdReq.cmd = .registerInvoke →
      (RegisterLaw s now rand cmdReq key ↔ 0 ∉ cmdReq.identifier)) ∧
    (∀ now rand cmdReq key, cmdReq.cmd = .registryExchangeResponse →
      (UpdateLaw s now rand cmdReq key ↔ FilesEach s.remoteInvokeMethods cmdReq.regEntry)) ∧
    ∀ now, Proxy.updateEntryDebug now = Proxy.updateEntry now :=
  ⟨fun now rand _ key hcmd => hrun.registerLaw_iff hcmd now rand key,
    fun now rand _ key hcmd => hrun.updateLaw_iff hcmd now rand key, Proxy.updateEntryDebug_eq⟩

/-- A new proxy routes calls of `"add"` to the node that has registered it. -/
theorem identifierKeys_add :
    RegisterLaw (Proxy.init (Config.ofSite .first 7770 7780)) 1 0
      { cmd? := some .registerInvoke
        identifier? := some (ascii "add")
        payload? := some (List.replicate GUID_SIZE 77)
        sourceProxyGuid? := some (List.replicate GUID_SIZE 78) } [] :=
  ((Proxy.Run.identifierKeys_iff .nil).1 1 0 _ [] rfl).mpr (by decide)

/-- The identifier `"a\0b"`. -/
def withNul : Bytes := [97, 0, 98]

/-- **An identifier with a NUL.** A new proxy does not route calls of it when a node has registered
it, and an advertisement of it ends the process. -/
theorem not_identifierKeys :
    (¬ ∀ (config : Config) h s, Proxy.Run config h s → ∀ now rand cmdReq key,
      cmdReq.cmd = .registerInvoke → RegisterLaw s now rand cmdReq key) ∧
    ¬ ∀ (config : Config) h s, Proxy.Run config h s → ∀ now rand cmdReq key,
      cmdReq.cmd = .registryExchangeResponse → UpdateLaw s now rand cmdReq key := by
  let config := Config.ofSite .first 7770 7780
  have hrun : Proxy.Run config [] (Proxy.init config) := .nil
  constructor
  · intro claim
    have hlaw := claim config [] _ hrun 1 0
      { cmd? := some .registerInvoke, identifier? := some withNul } [] rfl
    exact (hrun.registerLaw_iff rfl 1 0 []).mp hlaw (by decide)
  · intro claim
    let entry : RegistryEntry :=
      { type? := some .invokeMethod
        identifier? := some withNul
        methodGuid? := some (List.replicate GUID_SIZE 77)
        proxyGuid? := some (List.replicate GUID_SIZE 66) }
    have hlaw := claim config [] _ hrun 1 0
      { cmd? := some .registryExchangeResponse, regEntry := [entry] } [] rfl
    have hfiles := (hrun.updateLaw_iff rfl 1 0 []).mp hlaw
    have hfound := (hfiles entry (by simp) (by decide)).1
    exact absurd hfound (by decide)

end EsbProxy
