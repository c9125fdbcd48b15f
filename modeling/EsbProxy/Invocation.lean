import EsbProxy.State

/-!
# Calls: `Invoke`, `InvokeResponse`, `CleanUpResponsesMap`

A proxy routes an `INVOKE` to one of the nodes that registered the identifier, else to one of the
proxies that advertised it, and remembers in the two pending maps who asked and when; with
neither it answers with an `ERROR`. A reply is relayed to the remembered caller and forgotten. A
clean-up forgets calls that have waited for more than three seconds.

## Main definitions

* `Proxy.invoke`, `Proxy.invokeResponse`, `Proxy.cleanUpResponsesMap`.

## Main results

* `Proxy.invoke_cases`: the three ways in which an `INVOKE` is handled.
* `Proxy.invokeResponse_of_some`, `Proxy.invokeResponse_of_none`.
* `Proxy.lookup_cleanUpResponsesMap`: a clean-up keeps a pending call, or removes it from both
  maps when it is older than three seconds.
-/

namespace EsbProxy

open Foundation

/-- The random element of a vector: `vec.at(std::rand() % vec.size())`. -/
def pick (rand : ℕ) (vec : List InvokeMethod) : Option InvokeMethod := vec[rand % vec.length]?

theorem mem_of_pick {rand : ℕ} {vec : List InvokeMethod} {entry : InvokeMethod}
    (h : pick rand vec = some entry) : entry ∈ vec :=
  List.mem_of_getElem? h

theorem pick_eq_none_iff {rand : ℕ} {vec : List InvokeMethod} :
    pick rand vec = none ↔ vec = [] := by
  rw [pick, List.getElem?_eq_none_iff]
  constructor
  · intro hle
    by_contra hne
    exact absurd (Nat.mod_lt rand (List.length_pos_of_ne_nil hne)) (by omega)
  · rintro rfl
    simp

/-- Any element of a vector can be picked. -/
theorem exists_pick {vec : List InvokeMethod} {entry : InvokeMethod} (h : entry ∈ vec) :
    ∃ rand, pick rand vec = some entry := by
  obtain ⟨n, hn, rfl⟩ := List.getElem_of_mem h
  exact ⟨n, by rw [pick, Nat.mod_eq_of_lt hn, List.getElem?_eq_getElem hn]⟩

namespace Proxy

/-- Remember the caller and the time of a call in the two pending maps, unless the call is
pending already: `insert` does not overwrite. -/
def await (now : ℤ) (cmdReq : Command) (s : Proxy) : Proxy :=
  { s with
    invokeResponses := s.invokeResponses.emplace cmdReq.guidFrom cmdReq.sourceProxyGuid
    invokeResponsesCallTime := s.invokeResponsesCallTime.emplace cmdReq.guidFrom (int32 now) }

/-- The command with which a call is routed to the owner of a method. -/
def routed (s : Proxy) (cmdReq : Command) (entry : InvokeMethod) : Command where
  cmd? := some .invoke
  guidTo? := some entry.methodGuid
  sourceProxyGuid? := some s.guid
  identifier? := some entry.identifier
  payload? := some cmdReq.payload
  guidFrom? := some cmdReq.guidFrom

/-- The command with which a call is refused whose identifier nobody serves. -/
def notFound (s : Proxy) (cmdReq : Command) : Command where
  cmd? := some .error
  payload? := some (ascii "Identifier '" ++ cStr cmdReq.identifier ++
    ascii "' not found in registry")
  guidTo? := some cmdReq.guidFrom
  sourceProxyGuid? := some s.guid
  guidFrom? := some s.guid

/-- `Proxy::Invoke`. Reading a registry through `operator[]` files an empty list under a missing
identifier. -/
def invoke (now : ℤ) (rand : ℕ) (cmdReq : Command) (s : Proxy) : Proxy × List Frame :=
  let s₁ : Proxy :=
    { s with localInvokeMethods := s.localInvokeMethods.emplace cmdReq.identifier [] }
  match pick rand (methodsOf s₁.localInvokeMethods cmdReq.identifier) with
  | some entry => (s₁.await now cmdReq, [publish entry.ownerGuid (s₁.routed cmdReq entry)])
  | none =>
    let s₂ : Proxy :=
      { s₁ with remoteInvokeMethods := s₁.remoteInvokeMethods.emplace cmdReq.identifier [] }
    match pick rand (methodsOf s₂.remoteInvokeMethods cmdReq.identifier) with
    | some entry => (s₂.await now cmdReq, [publish entry.ownerGuid (s₂.routed cmdReq entry)])
    | none => (s₂, [publish cmdReq.sourceProxyGuid (s₂.notFound cmdReq)])

/-- The command with which a reply is refused that no pending call matches. -/
def callbackNotFound (s : Proxy) (cmdReq : Command) : Command where
  cmd? := some .error
  payload? := some (ascii "Response callback " ++ cStr cmdReq.guidTo ++ ascii " not found")
  guidFrom? := some s.guid
  guidTo? := some cmdReq.guidFrom
  sourceProxyGuid? := some s.guid

/-- The command with which a reply is relayed to the caller. -/
def relayed (s : Proxy) (cmdReq : Command) : Command where
  cmd? := some cmdReq.cmd
  payload? := some cmdReq.payload
  guidFrom? := some cmdReq.guidFrom
  guidTo? := some cmdReq.guidTo
  sourceProxyGuid? := some s.guid

/-- Forget a pending call. -/
def settle (g : Bytes) (s : Proxy) : Proxy :=
  { s with
    invokeResponses := s.invokeResponses.erase g
    invokeResponsesCallTime := s.invokeResponsesCallTime.erase g }

/-- `Proxy::InvokeResponse`. -/
def invokeResponse (cmdReq : Command) (sourceNodeGuid : Bytes) (s : Proxy) : Proxy × List Frame :=
  match s.invokeResponses.lookup cmdReq.guidTo with
  | none => (s, [publish sourceNodeGuid (s.callbackNotFound cmdReq)])
  | some targetNode => (s.settle cmdReq.guidTo, [publish targetNode (s.relayed cmdReq)])

/-- The most calls that one clean-up removes. -/
def cleanUpBatch : ℕ := 100000

/-- The loop of `Proxy::CleanUpResponsesMap` over the rest of `invokeResponsesCallTime`, after
`found` removals. -/
def cleanUpLoop (now : ℤ) : (found : ℕ) → List (Σ _ : Bytes, ℤ) → Proxy → Proxy
  | _, [], s => s
  | found, it :: rest, s =>
    if int32 (now - it.2) > 3 then
      if rest = [] ∨ found + 1 ≥ cleanUpBatch then s.settle it.1
      else cleanUpLoop now (found + 1) rest (s.settle it.1)
    else cleanUpLoop now found rest s

/-- `Proxy::CleanUpResponsesMap`. -/
def cleanUpResponsesMap (time : ℤ) (s : Proxy) : Proxy :=
  let now := int32 time
  if int32 (now - s.lastResponsesCleanUp) < 60 then s
  else cleanUpLoop now 0 s.invokeResponsesCallTime.entries { s with lastResponsesCleanUp := now }

/-! ### What a call leaves pending -/

@[simp] theorem lookup_await (now : ℤ) (cmdReq : Command) (s : Proxy) (g : Bytes) :
    (s.await now cmdReq).invokeResponses.lookup g =
      if g = cmdReq.guidFrom then
        some ((s.invokeResponses.lookup cmdReq.guidFrom).getD cmdReq.sourceProxyGuid)
      else s.invokeResponses.lookup g :=
  Dict.lookup_emplace ..

@[simp] theorem lookup_await_callTime (now : ℤ) (cmdReq : Command) (s : Proxy) (g : Bytes) :
    (s.await now cmdReq).invokeResponsesCallTime.lookup g =
      if g = cmdReq.guidFrom then
        some ((s.invokeResponsesCallTime.lookup cmdReq.guidFrom).getD (int32 now))
      else s.invokeResponsesCallTime.lookup g :=
  Dict.lookup_emplace ..

@[simp] theorem lookup_settle (g g' : Bytes) (s : Proxy) :
    (s.settle g).invokeResponses.lookup g' =
      if g' = g then none else s.invokeResponses.lookup g' :=
  Dict.lookup_erase ..

@[simp] theorem lookup_settle_callTime (g g' : Bytes) (s : Proxy) :
    (s.settle g).invokeResponsesCallTime.lookup g' =
      if g' = g then none else s.invokeResponsesCallTime.lookup g' :=
  Dict.lookup_erase ..

/-! ### The ways a call and a reply are handled -/

/-- **What `Invoke` does.** The call is routed to a local method and awaited; or no method is
local, and it is routed to a remote method and awaited; or there is none, and it is refused.
The lists of both registries stay what they are. -/
theorem invoke_cases (now : ℤ) (rand : ℕ) (cmdReq : Command) (s : Proxy) :
    ∃ registryL registryR : Registry,
      (∀ i, methodsOf registryL i = methodsOf s.localInvokeMethods i) ∧
      (∀ i, methodsOf registryR i = methodsOf s.remoteInvokeMethods i) ∧
      let s' : Proxy :=
        { s with localInvokeMethods := registryL, remoteInvokeMethods := registryR }
      (∃ entry ∈ methodsOf s.localInvokeMethods cmdReq.identifier,
          pick rand (methodsOf s.localInvokeMethods cmdReq.identifier) = some entry ∧
          s.invoke now rand cmdReq =
            (s'.await now cmdReq, [publish entry.ownerGuid (s.routed cmdReq entry)])) ∨
        methodsOf s.localInvokeMethods cmdReq.identifier = [] ∧
          ((∃ entry ∈ methodsOf s.remoteInvokeMethods cmdReq.identifier,
              pick rand (methodsOf s.remoteInvokeMethods cmdReq.identifier) = some entry ∧
              s.invoke now rand cmdReq =
                (s'.await now cmdReq, [publish entry.ownerGuid (s.routed cmdReq entry)])) ∨
            methodsOf s.remoteInvokeMethods cmdReq.identifier = [] ∧
              s.invoke now rand cmdReq =
                (s', [publish cmdReq.sourceProxyGuid (s.notFound cmdReq)])) := by
  unfold invoke
  simp only [methodsOf_emplace]
  cases hl : pick rand (methodsOf s.localInvokeMethods cmdReq.identifier) with
  | some entry =>
    refine ⟨s.localInvokeMethods.emplace cmdReq.identifier [], s.remoteInvokeMethods,
      fun i => methodsOf_emplace .., fun i => rfl, .inl ⟨entry, mem_of_pick hl, rfl, rfl⟩⟩
  | none =>
    refine ⟨s.localInvokeMethods.emplace cmdReq.identifier [],
      s.remoteInvokeMethods.emplace cmdReq.identifier [], fun i => methodsOf_emplace ..,
      fun i => methodsOf_emplace .., .inr ⟨pick_eq_none_iff.mp hl, ?_⟩⟩
    cases hr : pick rand (methodsOf s.remoteInvokeMethods cmdReq.identifier) with
    | some entry => exact .inl ⟨entry, mem_of_pick hr, rfl, rfl⟩
    | none => exact .inr ⟨pick_eq_none_iff.mp hr, rfl⟩

/-- A reply to a call that is not pending is refused. -/
theorem invokeResponse_of_none {cmdReq : Command} {s : Proxy}
    (h : s.invokeResponses.lookup cmdReq.guidTo = none) (sourceNodeGuid : Bytes) :
    s.invokeResponse cmdReq sourceNodeGuid =
      (s, [publish sourceNodeGuid (s.callbackNotFound cmdReq)]) := by
  rw [invokeResponse, h]

/-- A reply to a pending call is relayed to the caller, and the call is forgotten. -/
theorem invokeResponse_of_some {cmdReq : Command} {s : Proxy} {targetNode : Bytes}
    (h : s.invokeResponses.lookup cmdReq.guidTo = some targetNode) (sourceNodeGuid : Bytes) :
    s.invokeResponse cmdReq sourceNodeGuid =
      (s.settle cmdReq.guidTo, [publish targetNode (s.relayed cmdReq)]) := by
  rw [invokeResponse, h]

/-- A reply changes the pending maps only. -/
theorem invokeResponse_eq {cmdReq : Command} {sourceNodeGuid : Bytes} {s s' : Proxy}
    {frames : List Frame} (hcall : s.invokeResponse cmdReq sourceNodeGuid = (s', frames)) :
    ∃ responses times,
      s' = { s with invokeResponses := responses, invokeResponsesCallTime := times } := by
  rw [invokeResponse] at hcall
  split at hcall
  · cases hcall
    exact ⟨s.invokeResponses, s.invokeResponsesCallTime, rfl⟩
  · cases hcall
    exact ⟨_, _, rfl⟩

/-! ### Clean-ups -/

/-- Two proxies with the same state outside the pending maps. -/
def SameButPending (s s' : Proxy) : Prop :=
  s' = { s with
    invokeResponses := s'.invokeResponses
    invokeResponsesCallTime := s'.invokeResponsesCallTime
    lastResponsesCleanUp := s'.lastResponsesCleanUp }

theorem sameButPending_cleanUpLoop (now : ℤ) : ∀ (found : ℕ) (its : List (Σ _ : Bytes, ℤ))
    (s : Proxy), SameButPending s (cleanUpLoop now found its s)
  | _, [], s => rfl
  | found, it :: rest, s => by
      rw [cleanUpLoop]
      split_ifs
      · rfl
      · exact sameButPending_cleanUpLoop now (found + 1) rest (s.settle it.1)
      · exact sameButPending_cleanUpLoop now found rest s

theorem sameButPending_cleanUpResponsesMap (time : ℤ) (s : Proxy) :
    SameButPending s (s.cleanUpResponsesMap time) := by
  simp only [cleanUpResponsesMap]
  split_ifs
  · rfl
  · exact sameButPending_cleanUpLoop ..

/-- The loop keeps what both maps hold of a call, or removes it from both because the rest of
the traversal lists it as older than three seconds. -/
theorem lookup_cleanUpLoop (now : ℤ) (g : Bytes) : ∀ (found : ℕ) (its : List (Σ _ : Bytes, ℤ))
    (s : Proxy),
    (cleanUpLoop now found its s).invokeResponses.lookup g = s.invokeResponses.lookup g ∧
        (cleanUpLoop now found its s).invokeResponsesCallTime.lookup g =
          s.invokeResponsesCallTime.lookup g ∨
      (cleanUpLoop now found its s).invokeResponses.lookup g = none ∧
        (cleanUpLoop now found its s).invokeResponsesCallTime.lookup g = none ∧
        ∃ t, ⟨g, t⟩ ∈ its ∧ int32 (now - t) > 3
  | _, [], s => .inl ⟨rfl, rfl⟩
  | found, it :: rest, s => by
      have settled : ∀ s' : Proxy,
          (s'.invokeResponses.lookup g = (s.settle it.1).invokeResponses.lookup g ∧
            s'.invokeResponsesCallTime.lookup g =
              (s.settle it.1).invokeResponsesCallTime.lookup g) → int32 (now - it.2) > 3 →
          s'.invokeResponses.lookup g = s.invokeResponses.lookup g ∧
              s'.invokeResponsesCallTime.lookup g = s.invokeResponsesCallTime.lookup g ∨
            s'.invokeResponses.lookup g = none ∧ s'.invokeResponsesCallTime.lookup g = none ∧
              ∃ t, ⟨g, t⟩ ∈ it :: rest ∧ int32 (now - t) > 3 := by
        rintro s' ⟨hr, ht⟩ hold
        by_cases hg : g = it.1
        · subst hg
          exact .inr ⟨by simpa using hr, by simpa using ht, it.2, List.mem_cons_self, hold⟩
        · exact .inl ⟨by simpa [hg] using hr, by simpa [hg] using ht⟩
      rw [cleanUpLoop]
      split_ifs with hold hend
      · exact settled _ ⟨rfl, rfl⟩ hold
      · obtain hsame | ⟨hr, ht, t, hmem, hgt⟩ := lookup_cleanUpLoop now g (found + 1) rest
          (s.settle it.1)
        · exact settled _ hsame hold
        · exact .inr ⟨hr, ht, t, List.mem_cons_of_mem _ hmem, hgt⟩
      · obtain hsame | ⟨hr, ht, t, hmem, hgt⟩ := lookup_cleanUpLoop now g found rest s
        · exact .inl hsame
        · exact .inr ⟨hr, ht, t, List.mem_cons_of_mem _ hmem, hgt⟩

/-- **What a clean-up does to a call.** Both maps keep what they hold of it, or both lose it,
and then it was older than three seconds. -/
theorem lookup_cleanUpResponsesMap (time : ℤ) (g : Bytes) (s : Proxy) :
    (s.cleanUpResponsesMap time).invokeResponses.lookup g = s.invokeResponses.lookup g ∧
        (s.cleanUpResponsesMap time).invokeResponsesCallTime.lookup g =
          s.invokeResponsesCallTime.lookup g ∨
      (s.cleanUpResponsesMap time).invokeResponses.lookup g = none ∧
        (s.cleanUpResponsesMap time).invokeResponsesCallTime.lookup g = none ∧
        ∃ t, s.invokeResponsesCallTime.lookup g = some t ∧ int32 (int32 time - t) > 3 := by
  simp only [cleanUpResponsesMap]
  split_ifs
  · exact .inl ⟨rfl, rfl⟩
  · obtain hsame | ⟨hr, ht, t, hmem, hgt⟩ := lookup_cleanUpLoop (int32 time) g 0
      s.invokeResponsesCallTime.entries { s with lastResponsesCleanUp := int32 time }
    · exact .inl hsame
    · exact .inr ⟨hr, ht, t, AList.mem_lookup_iff.mpr hmem, hgt⟩

end Proxy

end EsbProxy
