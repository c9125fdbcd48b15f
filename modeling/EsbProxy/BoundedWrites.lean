import EsbProxy.Foundation.Checked
import EsbProxy.IdentifierKeys

/-!
# Writes into bounded buffers

The handlers behind `SubscriberCallback` copy and format strings from the network into buffers of a
constant or a computed size, with `strcpy` and `sprintf`. Here each of them is run with checked
writes: it stops at a text that does not fit with its NUL.

## Main definitions

* `Proxy.subscriberCallbackChecked` and the handlers under it, with checked writes.
* `FitsCommand`: when all writes of a command fit.

## Main results

* `Proxy.boundedWrites_iff`: the checked callback does not overflow exactly when `FitsCommand`, and
  otherwise does what the callback does.
-/

namespace EsbProxy

open Foundation

variable {now : ℤ} {registry registry' : Registry} {entry : RegistryEntry}
  {entries : List RegistryEntry}

/-! ### The handlers with checked writes -/

/-- `Subscriber::Subscribe`: the filter is formatted into `chan`. -/
def Subscriber.subscribeChecked (channel : Bytes) (sub : Subscriber) :
    Checked Fault Subscriber := do
  write (channel.length + 1) (cStr channel ++ [tab])
  .ok (sub.subscribe channel)

namespace Proxy

/-- `Proxy::Invoke`: the refusal is formatted into `buf`. -/
def invokeChecked (now : ℤ) (rand : ℕ) (cmdReq : Command) (s : Proxy) :
    Checked Fault (Proxy × List Frame) :=
  let s₁ : Proxy :=
    { s with localInvokeMethods := s.localInvokeMethods.emplace cmdReq.identifier [] }
  match pick rand (methodsOf s₁.localInvokeMethods cmdReq.identifier) with
  | some entry => .ok (s₁.await now cmdReq, [publish entry.ownerGuid (s₁.routed cmdReq entry)])
  | none =>
    let s₂ : Proxy :=
      { s₁ with remoteInvokeMethods := s₁.remoteInvokeMethods.emplace cmdReq.identifier [] }
    match pick rand (methodsOf s₂.remoteInvokeMethods cmdReq.identifier) with
    | some entry => .ok (s₂.await now cmdReq, [publish entry.ownerGuid (s₂.routed cmdReq entry)])
    | none => do
      write 1024 (s₂.notFound cmdReq).payload
      .ok (s₂, [publish cmdReq.sourceProxyGuid (s₂.notFound cmdReq)])

/-- `Proxy::InvokeResponse`: the refusal is formatted into `buf`. -/
def invokeResponseChecked (cmdReq : Command) (sourceNodeGuid : Bytes) (s : Proxy) :
    Checked Fault (Proxy × List Frame) :=
  match s.invokeResponses.lookup cmdReq.guidTo with
  | none => do
    write 1024 (s.callbackNotFound cmdReq).payload
    .ok (s, [publish sourceNodeGuid (s.callbackNotFound cmdReq)])
  | some targetNode => .ok (s.settle cmdReq.guidTo, [publish targetNode (s.relayed cmdReq)])

/-- `Proxy::RegisterInvoke`: a method that is not on file is copied into a new entry. -/
def registerInvokeChecked (now : ℤ) (cmdReq : Command) (s : Proxy) :
    Checked Fault (Proxy × List Frame) :=
  match (methodsOf s.localInvokeMethods (cStr cmdReq.identifier)).find?
      (·.methodGuid = cStr cmdReq.payload) with
  | some _ => .ok (s.registerInvoke now cmdReq)
  | none => do
    write (GUID_SIZE + 1) (cStr cmdReq.sourceProxyGuid)
    write (GUID_SIZE + 1) (cStr cmdReq.payload)
    write (cmdReq.identifier.length + 1) (cStr cmdReq.identifier)
    .ok (s.registerInvoke now cmdReq)

/-- One turn of the loop of `Proxy::RemoteRegistryUpdate`: the identifier is copied into memory of
its length, and the guids of a method that is not on file into a new entry. -/
def updateEntryChecked (now : ℤ) (methods : Registry) (entry : RegistryEntry) :
    Checked Fault Registry :=
  if entry.type = .invokeMethod then do
    write entry.identifier.length (cStr entry.identifier)
    let entryStruct : RemoteInvokeMethod :=
      { identifier := cStr entry.identifier
        ownerGuid := cStr entry.proxyGuid
        methodGuid := cStr entry.methodGuid
        lastCheckTime := int32 now }
    let methods := methods.emplace entryStruct.identifier []
    match refresh entryStruct.methodGuid now (methodsOf methods entryStruct.identifier) with
    | some vec => .ok (methods.insert entryStruct.identifier vec)
    | none => do
      write (GUID_SIZE + 1) entryStruct.methodGuid
      write (GUID_SIZE + 1) entryStruct.proxyGuid
      match methods.lookup entry.identifier with
      | none => .error (.fault .outOfRange)
      | some vec => .ok (methods.insert entry.identifier (vec ++ [entryStruct]))
  else .ok methods

/-- `Proxy::RemoteRegistryUpdate`. -/
def remoteRegistryUpdateChecked (now : ℤ) (cmdReq : Command) (s : Proxy) :
    Checked Fault Proxy := do
  let methods ← cmdReq.regEntry.foldlM (updateEntryChecked now) s.remoteInvokeMethods
  .ok { s with remoteInvokeMethods := methods }

/-- `Proxy::SubscribeReq`: every subscriber formats its filter. -/
def subscribeReqChecked (cmdReq : Command) (s : Proxy) : Checked Fault Proxy := do
  s.subscribers.entries.forM fun it => do
    let _ ← it.2.subscribeChecked cmdReq.identifier
  .ok (s.subscribeReq cmdReq)

/-- `Proxy::SubscriberCallback`: the refusal is formatted into `errBuf`. -/
def subscriberCallbackChecked (now : ℤ) (rand : ℕ) (cmdReq : Command) (nodeGuid : Bytes)
    (s : Proxy) : Checked Fault (Proxy × List Frame) :=
  match cmdReq.cmd with
  | .errorResponse | .response => s.invokeResponseChecked cmdReq nodeGuid
  | .pong => .ok (s, [])
  | .registerInvoke => s.registerInvokeChecked now cmdReq
  | .invoke => s.invokeChecked now rand cmdReq
  | .registryExchangeRequest => .ok (s, s.registryExchangeResponder cmdReq)
  | .error => .ok (s, [])
  | .registryExchangeResponse => do
    let s' ← s.remoteRegistryUpdateChecked now cmdReq
    .ok (s', [])
  | .ping => .ok (s, s.pingRequest cmdReq)
  | .publish => .ok (s, s.publishReq cmdReq)
  | .subscribe => do
    let s' ← s.subscribeReqChecked cmdReq
    .ok (s', [])
  | .nodeHello | .proxyHello | .registerInvokeOk => do
    write 512 (s.unknownCommand cmdReq).payload
    .ok (s, [publish nodeGuid (s.unknownCommand cmdReq)])

end Proxy

/-! ### When the writes fit -/

/-- The method of a listed entry is on file under the C string of its identifier. -/
def OnFile (registry : Registry) (entry : RegistryEntry) : Prop :=
  ∃ y ∈ methodsOf registry (cStr entry.identifier), y.methodGuid = cStr entry.methodGuid

/-- The writes for a listed entry fit: its identifier has a NUL, and its method is on file, or its
guids are not longer than `GUID_SIZE`. -/
def FitsEntry (registry : Registry) (entry : RegistryEntry) : Prop :=
  0 ∈ entry.identifier ∧ (OnFile registry entry ∨
    (cStr entry.methodGuid).length ≤ GUID_SIZE ∧ (cStr entry.proxyGuid).length ≤ GUID_SIZE)

/-- The writes for all listed entries fit, up to the first one whose method is not on file and whose
identifier is no key. -/
def FitsEntries (registry : Registry) : List RegistryEntry → Prop
  | [] => True
  | entry :: entries => FitsEntry registry entry ∧
      (¬ OnFile registry entry ∧ entry.identifier ∉ registry ∨ FitsEntries registry entries)

/-- The writes for a command fit. -/
def FitsCommand (s : Proxy) (cmdReq : Command) : Prop :=
  match cmdReq.cmd with
  | .invoke => methodsOf s.localInvokeMethods cmdReq.identifier = [] →
      methodsOf s.remoteInvokeMethods cmdReq.identifier = [] →
      (cStr cmdReq.identifier).length ≤ 988
  | .errorResponse | .response =>
      cmdReq.guidTo ∈ s.invokeResponses ∨ (cStr cmdReq.guidTo).length ≤ 995
  | .registerInvoke =>
      (∃ y ∈ methodsOf s.localInvokeMethods (cStr cmdReq.identifier),
        y.methodGuid = cStr cmdReq.payload) ∨
      (cStr cmdReq.sourceProxyGuid).length ≤ GUID_SIZE ∧ (cStr cmdReq.payload).length ≤ GUID_SIZE
  | .registryExchangeResponse => FitsEntries s.remoteInvokeMethods cmdReq.regEntry
  | .subscribe => s.subscribers.entries = [] ∨ 0 ∈ cmdReq.identifier
  | .nodeHello | .proxyHello | .registerInvokeOk =>
      (decimal cmdReq.cmd.number).length + (cStr cmdReq.payload).length ≤ 468
  | .pong | .registryExchangeRequest | .error | .ping | .publish => True

theorem length_cStr_le (text : Bytes) : (cStr text).length ≤ text.length :=
  (List.takeWhile_prefix _).length_le

/-- A C string with its NUL fits into the memory of a string exactly when the string has a NUL. -/
theorem length_cStr_succ_le_iff {text : Bytes} :
    (cStr text).length + 1 ≤ text.length ↔ 0 ∈ text := by
  constructor
  · intro hlt
    by_contra hclean
    rw [cStr_eq_self hclean] at hlt
    omega
  · intro hnul
    refine Nat.lt_of_le_of_ne (length_cStr_le text) fun hsame => ?_
    have heq : cStr text = text := (List.takeWhile_prefix _).eq_of_length hsame
    rw [← heq] at hnul
    exact zero_notMem_cStr text hnul

namespace Proxy

variable (s : Proxy) (cmdReq : Command)

/-! ### One handler -/

theorem length_payload_notFound :
    (s.notFound cmdReq).payload.length = (cStr cmdReq.identifier).length + 35 := by
  have hbefore : (ascii "Identifier '").length = 12 := by decide
  have hafter : (ascii "' not found in registry").length = 23 := by decide
  change (ascii _ ++ cStr cmdReq.identifier ++ ascii _).length = _
  rw [List.length_append, List.length_append, hbefore, hafter]
  omega

theorem length_payload_callbackNotFound :
    (s.callbackNotFound cmdReq).payload.length = (cStr cmdReq.guidTo).length + 28 := by
  have hbefore : (ascii "Response callback ").length = 18 := by decide
  have hafter : (ascii " not found").length = 10 := by decide
  change (ascii _ ++ cStr cmdReq.guidTo ++ ascii _).length = _
  rw [List.length_append, List.length_append, hbefore, hafter]
  omega

theorem length_payload_unknownCommand :
    (s.unknownCommand cmdReq).payload.length =
      (decimal cmdReq.cmd.number).length + (cStr cmdReq.payload).length + 43 := by
  have hbefore : (ascii "Subscriber get unknown command: ").length = 32 := by decide
  have hbetween : (ascii ", payload: ").length = 11 := by decide
  change (ascii _ ++ decimal cmdReq.cmd.number ++ ascii _ ++ cStr cmdReq.payload).length = _
  rw [List.length_append, List.length_append, List.length_append, hbefore, hbetween]
  omega

theorem guards_invoke (now : ℤ) (rand : ℕ) :
    Guards (methodsOf s.localInvokeMethods cmdReq.identifier = [] →
        methodsOf s.remoteInvokeMethods cmdReq.identifier = [] →
        (cStr cmdReq.identifier).length ≤ 988)
      (.ok (s.invoke now rand cmdReq)) (s.invokeChecked now rand cmdReq) := by
  unfold invoke invokeChecked
  simp only [methodsOf_emplace]
  cases hlocal : pick rand (methodsOf s.localInvokeMethods cmdReq.identifier) with
  | some entry =>
    have hsome := List.ne_nil_of_mem (mem_of_pick hlocal)
    exact (Guards.of_eq rfl).congr (by simp [hsome])
  | none =>
    cases hremote : pick rand (methodsOf s.remoteInvokeMethods cmdReq.identifier) with
    | some entry =>
      have hsome := List.ne_nil_of_mem (mem_of_pick hremote)
      exact (Guards.of_eq rfl).congr (by simp [hsome])
    | none =>
      refine ((Guards.write 1024 _).andThen (.of_eq rfl)).congr ?_
      rw [pick_eq_none_iff.mp hlocal, pick_eq_none_iff.mp hremote, length_payload_notFound]
      simp only [forall_const, and_true]
      omega

theorem guards_invokeResponse (sourceNodeGuid : Bytes) :
    Guards (cmdReq.guidTo ∈ s.invokeResponses ∨ (cStr cmdReq.guidTo).length ≤ 995)
      (.ok (s.invokeResponse cmdReq sourceNodeGuid))
      (s.invokeResponseChecked cmdReq sourceNodeGuid) := by
  rw [← AList.lookup_isSome]
  unfold invokeResponse invokeResponseChecked
  cases s.invokeResponses.lookup cmdReq.guidTo with
  | some targetNode => exact (Guards.of_eq rfl).congr (by simp)
  | none =>
    refine ((Guards.write 1024 _).andThen (.of_eq rfl)).congr ?_
    rw [length_payload_callbackNotFound]
    simp only [Option.isSome_none, Bool.false_eq_true, false_or, and_true]
    omega

theorem guards_unknownCommand (nodeGuid : Bytes) :
    Guards ((decimal cmdReq.cmd.number).length + (cStr cmdReq.payload).length ≤ 468)
      (.ok (s, [publish nodeGuid (s.unknownCommand cmdReq)]) : Except Fault (Proxy × List Frame))
      (write 512 (s.unknownCommand cmdReq).payload >>= fun _ =>
        .ok (s, [publish nodeGuid (s.unknownCommand cmdReq)])) := by
  refine ((Guards.write 512 _).andThen (.of_eq rfl)).congr ?_
  rw [length_payload_unknownCommand, and_true]
  omega

theorem guards_registerInvoke (now : ℤ) :
    Guards ((∃ y ∈ methodsOf s.localInvokeMethods (cStr cmdReq.identifier),
          y.methodGuid = cStr cmdReq.payload) ∨
        (cStr cmdReq.sourceProxyGuid).length ≤ GUID_SIZE ∧
          (cStr cmdReq.payload).length ≤ GUID_SIZE)
      (.ok (s.registerInvoke now cmdReq)) (s.registerInvokeChecked now cmdReq) := by
  unfold registerInvokeChecked
  cases hfind : (methodsOf s.localInvokeMethods (cStr cmdReq.identifier)).find?
      (·.methodGuid = cStr cmdReq.payload) with
  | some y =>
    refine (Guards.of_eq rfl).congr (iff_of_true trivial (.inl ?_))
    exact ⟨y, List.mem_of_find?_eq_some hfind, by simpa using List.find?_some hfind⟩
  | none =>
    have hnone : ¬ ∃ y ∈ methodsOf s.localInvokeMethods (cStr cmdReq.identifier),
        y.methodGuid = cStr cmdReq.payload := by
      simpa using List.find?_eq_none.mp hfind
    have hidentifier := length_cStr_le cmdReq.identifier
    refine ((Guards.write _ _).andThen ((Guards.write _ _).andThen
      ((Guards.write _ _).andThen (.of_eq rfl)))).congr ?_
    simp only [hnone, false_or, Nat.add_le_add_iff_right, hidentifier, and_true]

theorem guards_subscribe (channel : Bytes) (sub : Subscriber) :
    Guards (0 ∈ channel) (.ok (sub.subscribe channel)) (sub.subscribeChecked channel) := by
  refine ((Guards.write _ _).andThen (.of_eq rfl)).congr ?_
  rw [← length_cStr_succ_le_iff, List.length_append, List.length_singleton, and_true]
  omega

/-- All subscribers format the same filter. -/
theorem guards_forM (channel : Bytes) : ∀ subscribers : List (Σ _ : Bytes, Subscriber),
    Guards (subscribers = [] ∨ 0 ∈ channel) (.ok ()) (subscribers.forM fun it => do
      let _ ← it.2.subscribeChecked channel)
  | [] => (Guards.of_eq rfl).congr (by simp)
  | it :: rest =>
      (((guards_subscribe channel it.2).map fun _ => ()).andThen
        (guards_forM channel rest)).congr (by simpa using fun hnul => .inr hnul)

theorem guards_subscribeReq :
    Guards (s.subscribers.entries = [] ∨ 0 ∈ cmdReq.identifier)
      (.ok (s.subscribeReq cmdReq)) (s.subscribeReqChecked cmdReq) :=
  (guards_forM cmdReq.identifier s.subscribers.entries).map fun _ => s.subscribeReq cmdReq

/-! ### The loop over listed methods -/

theorem guards_updateEntry (now : ℤ) (registry : Registry) (entry : RegistryEntry) :
    Guards (FitsEntry registry entry) (updateEntry now registry entry)
      (updateEntryChecked now registry entry) := by
  rw [updateEntry, updateEntryChecked, if_pos entry.type_eq, if_pos entry.type_eq]
  simp only [methodsOf_emplace]
  cases hrefresh : refresh (cStr entry.methodGuid) now
      (methodsOf registry (cStr entry.identifier)) with
  | some vec =>
    obtain ⟨before, y, after, hvec, hguid, -⟩ := refresh_eq_some hrefresh
    have honFile : OnFile registry entry := ⟨y, by simp [hvec], hguid⟩
    refine ((Guards.write _ _).andThen (.of_eq rfl)).congr ?_
    simp only [length_cStr_succ_le_iff, FitsEntry, honFile, true_or]
  | none =>
    have hnone : ¬ OnFile registry entry := by
      rintro ⟨y, hy, hguid⟩
      exact refresh_eq_none_iff.mp hrefresh y hy hguid
    refine ((Guards.write _ _).andThen ((Guards.write _ _).andThen
      ((Guards.write _ _).andThen (.of_eq ?_)))).congr ?_
    · cases (registry.emplace (cStr entry.identifier) []).lookup entry.identifier <;> rfl
    · simp only [length_cStr_succ_le_iff, FitsEntry, hnone, false_or, Nat.add_le_add_iff_right,
        and_true]

end Proxy

/-- What is on file under C strings is not changed by an entry with a NUL in its identifier. -/
theorem onFile_updateEntry_iff {other : RegistryEntry} (hnul : 0 ∈ entry.identifier)
    (hupdate : Proxy.updateEntry now registry entry = .ok registry') :
    OnFile registry' other ↔ OnFile registry other := by
  have hmap : ∀ registry : Registry, OnFile registry other ↔ cStr other.methodGuid ∈
      (methodsOf registry (cStr other.identifier)).map InvokeMethod.methodGuid := by
    simp [OnFile]
  have hclean := zero_notMem_cStr other.identifier
  have hne : entry.identifier ≠ cStr other.identifier := fun heq => hclean (heq ▸ hnul)
  rw [hmap, hmap, Proxy.listed_updateEntry_iff hupdate hclean]
  simp [hne]

/-- The condition depends on what is on file under C strings and on the keys with a NUL only. -/
theorem fitsEntries_congr (hfile : ∀ e, OnFile registry' e ↔ OnFile registry e)
    (hkeys : ∀ k, 0 ∈ k → (k ∈ registry' ↔ k ∈ registry)) : ∀ entries : List RegistryEntry,
    FitsEntries registry' entries ↔ FitsEntries registry entries
  | [] => Iff.rfl
  | entry :: entries => by
      rw [FitsEntries, FitsEntries, fitsEntries_congr hfile hkeys entries, FitsEntry, FitsEntry,
        hfile]
      refine and_congr_right fun hentry => ?_
      rw [hkeys _ hentry.1]

/-- An entry with a NUL in its identifier throws when it is not on file and is no key. -/
theorem Proxy.exists_updateEntry_iff (now : ℤ) (hnul : 0 ∈ entry.identifier) :
    (∃ registry', updateEntry now registry entry = .ok registry') ↔
      ¬ (¬ OnFile registry entry ∧ entry.identifier ∉ registry) := by
  have heffect := entryEffect now registry entry
  cases hupdate : updateEntry now registry entry with
  | ok registry' =>
    rw [hupdate] at heffect
    refine iff_of_true ⟨registry', rfl⟩ ?_
    rintro ⟨hfile, hkey⟩
    cases heffect with
    | refreshed listed => exact hfile listed
    | pushed _ found => exact found.elim hkey fun hclean => hclean hnul
  | error fault =>
    rw [hupdate] at heffect
    cases heffect with
    | threw unlisted missing _ =>
      refine iff_of_false (by simp) (not_not.mpr ⟨?_, missing⟩)
      rintro ⟨y, hy, hguid⟩
      exact unlisted.1 y hy hguid

/-- The writes of the loop, read off the registry before it. -/
theorem foldFits_iff (now : ℤ) : ∀ (entries : List RegistryEntry) (registry : Registry),
    FoldFits FitsEntry (Proxy.updateEntry now) registry entries ↔ FitsEntries registry entries
  | [], registry => Iff.rfl
  | entry :: entries, registry => by
      rw [FoldFits, FitsEntries]
      refine and_congr_right fun hentry => ?_
      have hthrows : (∃ registry', Proxy.updateEntry now registry entry = .ok registry') ↔
          ¬ (¬ OnFile registry entry ∧ entry.identifier ∉ registry) :=
        Proxy.exists_updateEntry_iff now hentry.1
      have hrest : ∀ registry', Proxy.updateEntry now registry entry = .ok registry' →
          (FoldFits FitsEntry (Proxy.updateEntry now) registry' entries ↔
            FitsEntries registry entries) := by
        intro registry' hupdate
        rw [foldFits_iff now entries registry']
        refine fitsEntries_congr (fun e => onFile_updateEntry_iff hentry.1 hupdate) ?_ entries
        intro k hk
        rw [Proxy.mem_updateEntry_iff hupdate]
        refine or_iff_left ?_
        rintro rfl
        exact zero_notMem_cStr _ hk
      cases hupdate : Proxy.updateEntry now registry entry with
      | ok registry' =>
        rw [or_iff_right (hthrows.mp ⟨registry', hupdate⟩), ← hrest registry' hupdate]
        simp
      | error fault =>
        refine iff_of_true (by simp) (.inl ?_)
        rw [← not_not (a := ¬ OnFile registry entry ∧ entry.identifier ∉ registry), ← hthrows,
          hupdate]
        simp

/-! ### Every command -/

theorem Proxy.guards_remoteRegistryUpdate (now : ℤ) (cmdReq : Command) (s : Proxy) :
    Guards (FitsEntries s.remoteInvokeMethods cmdReq.regEntry) (s.remoteRegistryUpdate now cmdReq)
      (s.remoteRegistryUpdateChecked now cmdReq) := by
  have hfold := Guards.foldlM (guards_updateEntry now) cmdReq.regEntry s.remoteInvokeMethods
  have hresult : s.remoteRegistryUpdate now cmdReq =
      (cmdReq.regEntry.foldlM (updateEntry now) s.remoteInvokeMethods).map fun methods =>
        { s with remoteInvokeMethods := methods } := by
    rw [remoteRegistryUpdate]
    cases cmdReq.regEntry.foldlM (updateEntry now) s.remoteInvokeMethods <;> rfl
  rw [hresult, ← foldFits_iff now]
  exact hfold.map _

theorem Proxy.subscriberCallback_of_registryExchangeResponse {cmdReq : Command}
    (hcmd : cmdReq.cmd = .registryExchangeResponse) (now : ℤ) (rand : ℕ) (nodeGuid : Bytes)
    (s : Proxy) :
    s.subscriberCallback now rand cmdReq nodeGuid =
      (s.remoteRegistryUpdate now cmdReq).map fun s' => (s', []) := by
  rw [subscriberCallback, hcmd]
  cases s.remoteRegistryUpdate now cmdReq <;> rfl

/-- **One command.** -/
theorem Proxy.guards_subscriberCallback (now : ℤ) (rand : ℕ) (cmdReq : Command) (nodeGuid : Bytes)
    (s : Proxy) :
    Guards (FitsCommand s cmdReq) (s.subscriberCallback now rand cmdReq nodeGuid)
      (s.subscriberCallbackChecked now rand cmdReq nodeGuid) := by
  cases hcmd : cmdReq.cmd with
  | registryExchangeResponse =>
    rw [subscriberCallback_of_registryExchangeResponse hcmd, FitsCommand,
      subscriberCallbackChecked, hcmd]
    exact (guards_remoteRegistryUpdate now cmdReq s).map fun s' => (s', [])
  | invoke =>
    rw [FitsCommand, subscriberCallback, subscriberCallbackChecked, hcmd]
    exact guards_invoke s cmdReq now rand
  | response | errorResponse =>
    rw [FitsCommand, subscriberCallback, subscriberCallbackChecked, hcmd]
    exact guards_invokeResponse s cmdReq nodeGuid
  | registerInvoke =>
    rw [FitsCommand, subscriberCallback, subscriberCallbackChecked, hcmd]
    exact guards_registerInvoke s cmdReq now
  | subscribe =>
    rw [FitsCommand, subscriberCallback, subscriberCallbackChecked, hcmd]
    exact (guards_subscribeReq s cmdReq).map fun s' => (s', [])
  | nodeHello | proxyHello | registerInvokeOk =>
    have hunknown := guards_unknownCommand s cmdReq nodeGuid
    rw [hcmd] at hunknown
    rw [FitsCommand, subscriberCallback, subscriberCallbackChecked, hcmd]
    exact hunknown
  | pong | registryExchangeRequest | error | ping | publish =>
    rw [FitsCommand, subscriberCallback, subscriberCallbackChecked, hcmd]
    exact .of_eq rfl

/-- **Bounded writes.** In every state and for every command, the checked callback does not overflow
exactly when the writes fit, and otherwise it does what the callback does. -/
theorem Proxy.boundedWrites_iff (now : ℤ) (rand : ℕ) (cmdReq : Command) (nodeGuid : Bytes)
    (s : Proxy) :
    (s.subscriberCallbackChecked now rand cmdReq nodeGuid ≠ .error .overflow ↔
      FitsCommand s cmdReq) ∧
    (s.subscriberCallbackChecked now rand cmdReq nodeGuid = .error .overflow ∨
      s.subscriberCallbackChecked now rand cmdReq nodeGuid =
        (s.subscriberCallback now rand cmdReq nodeGuid).mapError Stop.fault) :=
  have hguards := guards_subscriberCallback now rand cmdReq nodeGuid s
  ⟨hguards.ne_overflow_iff, hguards.eq_or_eq⟩

/-- **An advertised method.** The copy of its identifier is one byte too short for every identifier
without a NUL, here `"add"`. -/
theorem not_boundedWrites : ¬ ∀ now rand cmdReq nodeGuid (s : Proxy),
    s.subscriberCallbackChecked now rand cmdReq nodeGuid ≠ .error .overflow := by
  intro claim
  let entry : RegistryEntry :=
    { type? := some .invokeMethod
      identifier? := some (ascii "add")
      methodGuid? := some (List.replicate GUID_SIZE 77)
      proxyGuid? := some (List.replicate GUID_SIZE 66) }
  let cmdReq : Command := { cmd? := some .registryExchangeResponse, regEntry := [entry] }
  let s := Proxy.init (Config.ofSite .first 7770 7780)
  have hfits : FitsCommand s cmdReq :=
    (Proxy.guards_subscriberCallback 1 0 cmdReq [] s).ne_overflow_iff.mp (claim 1 0 cmdReq [] s)
  have hnul : 0 ∈ ascii "add" := hfits.1.1
  exact absurd hnul (by decide)

end EsbProxy
