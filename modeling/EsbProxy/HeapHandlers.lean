import EsbProxy.HeapCells

/-!
# Handlers on the heap

What an input does on the heap, handler by handler. Most inputs leave the registries alone, and do
the same with any registries. The handlers that use the registries reach through the pointers the
methods that are in the cells, and take the cells to those of the registries that the handlers of a
proxy leave.

## Main definitions

* `Proxy.withRegistries`, `Input.usesRegistries`.

## Main results

* `Proxy.exec_withRegistries`: an input that does not use the registries.
* `HeapProxy.registerInvoke_eq`, `updateEntries_cases`, `HeapProxy.registryExchangeResponder_eq`,
  `HeapProxy.invoke_eq`: the handlers that do.
-/

namespace EsbProxy

open Foundation

/-! ### Inputs that do not use the registries -/

/-- A proxy with other registries. -/
def Proxy.withRegistries (registryL registryR : Registry) (s : Proxy) : Proxy :=
  { s with localInvokeMethods := registryL, remoteInvokeMethods := registryR }

/-- The inputs that read or write a registry. -/
def Input.usesRegistries : Input → Bool
  | command _ _ cmdReq _ =>
    match cmdReq.cmd with
    | .registerInvoke | .invoke | .registryExchangeRequest | .registryExchangeResponse => true
    | _ => false
  | remoteRegistryHealthChecks _ | localRegistryHealthChecks _ | rehash _ => true
  | _ => false

namespace Proxy

variable (registryL registryR : Registry) (s : Proxy)

theorem markActive_withRegistries (now : ℤ) (key : Bytes) :
    (s.withRegistries registryL registryR).markActive now key =
      (s.markActive now key).withRegistries registryL registryR := by
  simp only [markActive, withRegistries]
  cases s.subscribers.lookup key <;> rfl

theorem killInactive_withRegistries (now : ℤ) (key : Bytes) :
    (s.withRegistries registryL registryR).killInactive now key =
      (s.killInactive now key).withRegistries registryL registryR := by
  simp only [killInactive, withRegistries]
  split
  · split_ifs <;> rfl
  · rfl

theorem invokeResponse_withRegistries (cmdReq : Command) (key : Bytes) :
    (s.withRegistries registryL registryR).invokeResponse cmdReq key =
      ((s.invokeResponse cmdReq key).1.withRegistries registryL registryR,
        (s.invokeResponse cmdReq key).2) := by
  simp only [invokeResponse, withRegistries]
  cases s.invokeResponses.lookup cmdReq.guidTo <;> rfl

theorem cleanUpLoop_withRegistries (now : ℤ) : ∀ (found : ℕ) (its : List (Σ _ : Bytes, ℤ))
    (s : Proxy), cleanUpLoop now found its (s.withRegistries registryL registryR) =
      (cleanUpLoop now found its s).withRegistries registryL registryR
  | _, [], _ => rfl
  | found, it :: rest, s => by
      have hsettle : (s.withRegistries registryL registryR).settle it.1 =
          (s.settle it.1).withRegistries registryL registryR := rfl
      simp only [cleanUpLoop, hsettle]
      split_ifs
      · rfl
      · exact cleanUpLoop_withRegistries now (found + 1) rest (s.settle it.1)
      · exact cleanUpLoop_withRegistries now found rest s

theorem cleanUpResponsesMap_withRegistries (now : ℤ) :
    (s.withRegistries registryL registryR).cleanUpResponsesMap now =
      (s.cleanUpResponsesMap now).withRegistries registryL registryR := by
  have hloop := cleanUpLoop_withRegistries registryL registryR (int32 now) 0
    s.invokeResponsesCallTime.entries { s with lastResponsesCleanUp := int32 now }
  simp only [cleanUpResponsesMap]
  split_ifs with hdue hdue'
  · rfl
  · exact absurd hdue hdue'
  · exact absurd ‹_› hdue
  · exact hloop

theorem requestRegistryExchange_withRegistries (now : ℤ) :
    (s.withRegistries registryL registryR).requestRegistryExchange now =
      ((s.requestRegistryExchange now).1.withRegistries registryL registryR,
        (s.requestRegistryExchange now).2) := by
  by_cases hdue : now - s.lastRegistryExchange < 3
  · have hdue' : now - (s.withRegistries registryL registryR).lastRegistryExchange < 3 := hdue
    simp only [requestRegistryExchange, if_pos hdue, if_pos hdue']
  · have hdue' : ¬ now - (s.withRegistries registryL registryR).lastRegistryExchange < 3 := hdue
    simp only [requestRegistryExchange, if_neg hdue, if_neg hdue']
    rfl

theorem responderCallback_withRegistries (now : ℤ) (connects : Bool) (cmdReq : Command) :
    (s.withRegistries registryL registryR).responderCallback now connects cmdReq =
      (s.responderCallback now connects cmdReq).map fun r =>
        (r.1.withRegistries registryL registryR, r.2) := by
  have hhello : (s.withRegistries registryL registryR).nodeHello now connects cmdReq =
      (s.nodeHello now connects cmdReq).map fun r =>
        (r.1.withRegistries registryL registryR, r.2) := by
    simp only [nodeHello]
    cases split (cStr cmdReq.payload) hash with
    | nil => rfl
    | cons guid rest =>
      cases rest with
      | nil => rfl
      | cons connectionString rest => cases connects <;> rfl
  simp only [responderCallback]
  cases cmdReq.cmd
  case nodeHello =>
    simp only [hhello]
    cases s.nodeHello now connects cmdReq <;> rfl
  all_goals rfl

theorem visitMember_withRegistries (now : ℤ) (proxy : Bytes) (peer : PeerOutcome) :
    (s.withRegistries registryL registryR).visitMember now proxy peer =
      (s.visitMember now proxy peer).map fun r =>
        (r.1.withRegistries registryL registryR, r.2) := by
  have hconnect : ∀ guid2 connectionString,
      (s.withRegistries registryL registryR).connectToAnotherProxy now guid2 connectionString peer =
        ((s.connectToAnotherProxy now guid2 connectionString peer).1.withRegistries registryL
            registryR, (s.connectToAnotherProxy now guid2 connectionString peer).2) := by
    intro guid2 connectionString
    by_cases haddress : address s.host s.responderPort = connectionString
    · have haddress' : address (s.withRegistries registryL registryR).host
          (s.withRegistries registryL registryR).responderPort = connectionString := haddress
      simp only [connectToAnotherProxy, if_pos haddress, if_pos haddress']
    · have haddress' : ¬ address (s.withRegistries registryL registryR).host
          (s.withRegistries registryL registryR).responderPort = connectionString := haddress
      simp only [connectToAnotherProxy, if_neg haddress, if_neg haddress']
      cases peer.responderConnects with
      | false => rfl
      | true =>
        cases peer.reply with
        | none => rfl
        | some cmdResp => cases peer.publisherConnects <;> rfl
  simp only [visitMember, hconnect]
  cases split (cStr proxy) hash with
  | nil => rfl
  | cons guid2 rest =>
    cases rest with
    | nil => rfl
    | cons connectionString rest =>
      by_cases hself : guid2 = s.guid
      · have hself' : guid2 = (s.withRegistries registryL registryR).guid := hself
        simp only [if_pos hself, if_pos hself']
        rfl
      · have hself' : ¬ guid2 = (s.withRegistries registryL registryR).guid := hself
        simp only [if_neg hself, if_neg hself']
        by_cases hknown : guid2 ∈ s.subscribers
        · have hknown' : guid2 ∈ (s.withRegistries registryL registryR).subscribers := hknown
          simp only [if_pos hknown, if_pos hknown']
          rfl
        · have hknown' : ¬ guid2 ∈ (s.withRegistries registryL registryR).subscribers := hknown
          simp only [if_neg hknown, if_neg hknown']
          rfl

/-- **Frame.** Such an input leaves the registries alone, and does the same with any registries. -/
theorem exec_withRegistries {i : Input} (hi : i.usesRegistries = false) :
    (s.withRegistries registryL registryR).exec i =
      (s.exec i).map fun r => (r.1.withRegistries registryL registryR, r.2) := by
  cases i with
  | command now rand cmdReq key =>
    simp only [exec, markActive_withRegistries]
    simp only [subscriberCallback]
    simp only [Input.usesRegistries] at hi
    cases hcmd : cmdReq.cmd <;> simp only [hcmd] at hi ⊢
    case response | errorResponse =>
      rw [invokeResponse_withRegistries]
      rfl
    case registerInvoke | invoke | registryExchangeRequest | registryExchangeResponse =>
      simp at hi
    all_goals rfl
  | request now connects cmdReq =>
    simp only [exec, responderCallback_withRegistries]
    cases s.responderCallback now connects cmdReq <;> rfl
  | visitMember now proxy peer =>
    simp only [exec, visitMember_withRegistries]
    cases s.visitMember now proxy peer <;> rfl
  | killInactive now key =>
    simp only [exec, killInactive_withRegistries]
    rfl
  | requestRegistryExchange now =>
    simp only [exec, requestRegistryExchange_withRegistries]
    rfl
  | cleanUpResponsesMap now =>
    simp only [exec, cleanUpResponsesMap_withRegistries]
    rfl
  | pingedRedis => rfl
  | remoteRegistryHealthChecks | localRegistryHealthChecks | rehash =>
    simp [Input.usesRegistries] at hi

end Proxy

section

variable {memory : Heap Block} {methods : Pointers} {cells cellsL cellsR : Cells}
  {registry : Registry} {others : List (Σ _ : ℕ, Block)} {i : Bytes}
  {vec before after : List Cell} {c : Cell} {s : HeapProxy} {v : Proxy}

/-! ### Methods and cells -/

namespace Shows

theorem methodsOf_eq (hshows : Shows cells registry) (i : Bytes) :
    methodsOf registry i = ((cells.lookup i).getD []).map Cell.method := by
  rw [methodsOf, hshows]
  cases cells.lookup i <;> rfl

theorem emplace (hshows : Shows cells registry) (i : Bytes) :
    Shows (cells.emplace i []) (registry.emplace i []) := by
  intro i'
  rw [Dict.lookup_emplace, Dict.lookup_emplace, hshows, hshows]
  split_ifs
  · cases cells.lookup i <;> rfl
  · rfl

theorem insert (hshows : Shows cells registry) (i : Bytes) (vec : List Cell) :
    Shows (cells.insert i vec) (registry.insert i (vec.map Cell.method)) := by
  intro i'
  rw [Dict.lookup_insert, Dict.lookup_insert, hshows]
  split_ifs <;> rfl

/-- The cells of fresh methods hold the fresh methods. -/
theorem sweep {cells' : Cells} {ttl now : ℤ} (hshows : Shows cells registry)
    (hlook : ∀ i, cells'.lookup i =
      (cells.lookup i).map (List.filter fun c => !Proxy.isStale ttl now c.method)) :
    Shows cells' (registry.sweep (Proxy.isStale ttl now)) := by
  intro i
  rw [Dict.lookup_sweep, hshows, hlook]
  cases cells.lookup i with
  | none => rfl
  | some vec =>
    simp only [Option.map_some, List.filter_map]
    rfl

end Shows

/-- A refresh in a list of methods is a refresh of their cells. -/
theorem refresh_map (now : ℤ) : ∀ {before : List Cell},
    (∀ c' ∈ before, c'.method.methodGuid ≠ c.method.methodGuid) →
      refresh c.method.methodGuid now ((before ++ c :: after).map Cell.method) =
        some ((before ++ c.touch (int32 now) :: after).map Cell.method)
  | [], _ => by
      rw [List.nil_append, List.map_cons, refresh, if_pos rfl]
      rfl
  | c' :: before, hbefore => by
      obtain ⟨hc', hrest⟩ := List.forall_mem_cons.mp hbefore
      rw [List.cons_append, List.map_cons, refresh, if_neg hc', refresh_map now hrest]
      rfl

/-- **Search by guid.** The loop over a vector finds the method that `refresh` finds. -/
theorem Holds.findMethod_refresh (h : Holds memory methods cells others) (m : Bytes) (now : ℤ)
    (hvec : cells.lookup i = some vec) :
    (findMethod (fun entry => entry.methodGuid = m) memory (pointersOf methods i) = some none ∧
        refresh m now (vec.map Cell.method) = none) ∨
      ∃ before c after, vec = before ++ c :: after ∧ c.method.methodGuid = m ∧
        (∀ c' ∈ before, c'.method.methodGuid ≠ m) ∧
        findMethod (fun entry => entry.methodGuid = m) memory (pointersOf methods i) =
          some (some ⟨before.map Cell.ptr, c.ptr, after.map Cell.ptr⟩) ∧
        refresh m now (vec.map Cell.method) =
          some ((before ++ c.touch (int32 now) :: after).map Cell.method) := by
  rw [h.pointersOf_eq, hvec, Option.getD_some]
  obtain ⟨hfind, hnone⟩ | ⟨before, c, after, rfl, hbefore, hc, hfind⟩ :=
    findMethod_cases (fun entry => decide (entry.methodGuid = m))
      (fun e => decide (e.methodGuid = m)) (fun _ => rfl) fun c hc => h.methodAt_eq hvec hc
  · refine .inl ⟨hfind, refresh_eq_none_iff.mpr fun e he => ?_⟩
    obtain ⟨c, hc, rfl⟩ := List.mem_map.mp he
    exact of_decide_eq_false (hnone c hc)
  · obtain rfl := of_decide_eq_true hc
    have hbefore' : ∀ c' ∈ before, c'.method.methodGuid ≠ c.method.methodGuid := fun c' hc' =>
      of_decide_eq_false (hbefore c' hc')
    exact .inr ⟨before, c, after, rfl, rfl, hbefore', hfind, refresh_map now hbefore'⟩

/-- The blocks of a new cell may be listed behind those of a registry. -/
theorem Holds.of_owns (hlookup : ∀ i, methods.lookup i = (cells.lookup i).map (List.map Cell.ptr))
    (howns : memory.Owns (c.blocks ++ (blocksOf cells ++ others))) :
    Holds memory methods cells (c.blocks ++ others) :=
  ⟨hlookup, howns.perm (List.perm_append_comm_assoc ..)⟩

/-! ### Handlers -/

/-- **`RegisterInvoke` on the heap.** -/
theorem HeapProxy.registerInvoke_eq
    (h : Holds s.memory s.localInvokeMethods cells others)
    (hshows : Shows cells v.localInvokeMethods) (hguid : v.guid = s.rest.guid) (A : Allocator Block)
    (now : ℤ) (cmdReq : Command) :
    ∃ methods memory cells', s.registerInvoke A now cmdReq =
        some ({ s with localInvokeMethods := methods, memory := memory },
          (v.registerInvoke now cmdReq).2) ∧
      Holds memory methods cells' others ∧
      Shows cells' (v.registerInvoke now cmdReq).1.localInvokeMethods := by
  have h₁ := h.emplace (cStr cmdReq.identifier)
  have hshows₁ := hshows.emplace (cStr cmdReq.identifier)
  obtain ⟨vec, hvec⟩ : ∃ vec,
      (cells.emplace (cStr cmdReq.identifier) []).lookup (cStr cmdReq.identifier) = some vec :=
    ⟨_, Dict.lookup_emplace_self ..⟩
  have hmethods := hshows₁.methodsOf_eq (cStr cmdReq.identifier)
  rw [hvec, Option.getD_some] at hmethods
  obtain ⟨hfind, hrefresh⟩ | ⟨before, c, after, rfl, hc, hbefore, hfind, hrefresh⟩ :=
    h₁.findMethod_refresh (cStr cmdReq.payload) now hvec
  · -- a new method: two blocks are allocated, and the first one is overwritten
    have hfresh := refresh_eq_none_iff.mp hrefresh
    have hnone : (vec.map Cell.method).find? (·.methodGuid = cStr cmdReq.payload) = none := by
      simpa using hfresh
    obtain ⟨entry, memory₁, halloc₁, howns₁⟩ := h₁.owns.alloc A (.method
      { identifier := 0
        ownerGuid := cStr cmdReq.sourceProxyGuid
        methodGuid := cStr cmdReq.payload
        lastCheckTime := 0 })
    obtain ⟨identifier, memory₂, halloc₂, howns₂⟩ :=
      howns₁.alloc A (.chars (cStr cmdReq.identifier))
    obtain ⟨memory₃, hstore, howns₃⟩ := Heap.Owns.store (howns₂.perm (List.Perm.swap ..)) (.method
      { identifier := identifier
        ownerGuid := cStr cmdReq.sourceProxyGuid
        methodGuid := cStr cmdReq.payload
        lastCheckTime := int32 now })
    let c : Cell :=
      { ptr := entry
        identifier := identifier
        method :=
          { identifier := cStr cmdReq.identifier
            ownerGuid := cStr cmdReq.sourceProxyGuid
            methodGuid := cStr cmdReq.payload
            lastCheckTime := int32 now } }
    have h₃ := (Holds.of_owns (c := c) h₁.lookup howns₃).push hvec
    have hmem : c ∈ vec ++ [c] := by simp
    have hchars : charsAt memory₃ identifier = some (cStr cmdReq.identifier) :=
      h₃.charsAt_eq (AList.lookup_insert _) hmem
    have hptrs := h₁.pointersOf_eq (cStr cmdReq.identifier)
    rw [hvec, Option.getD_some] at hptrs
    rw [hptrs] at hfind
    refine ⟨_, memory₃, _, ?_, h₃, ?_⟩
    · simp only [HeapProxy.registerInvoke, hptrs, hfind, halloc₁, halloc₂, hstore, hchars,
        Option.bind_eq_bind, Option.bind_some, Proxy.registerInvoke, hmethods, hnone, hguid]
      rfl
    · have hshows' := hshows₁.insert (cStr cmdReq.identifier) (vec ++ [c])
      simp only [Proxy.registerInvoke, fileMethod, fileIn, hmethods, hrefresh, Option.getD_none]
      rw [List.map_append] at hshows'
      exact hshows'
  · obtain ⟨memory', hstore, h'⟩ := h₁.touch hvec (int32 now)
    have hmem : c ∈ before ++ c :: after := by simp
    have htouched : c.touch (int32 now) ∈ before ++ c.touch (int32 now) :: after := by simp
    have hread := h'.charsAt_eq (AList.lookup_insert _) htouched
    have hchars : charsAt memory' c.entry.identifier = some c.method.identifier := hread
    have hsome : ((before ++ c :: after).map Cell.method).find?
        (·.methodGuid = cStr cmdReq.payload) = some c.method := by
      have hskip : (before.map Cell.method).find? (·.methodGuid = cStr cmdReq.payload) = none := by
        simpa using hbefore
      rw [List.map_append, List.find?_append, hskip, List.map_cons, List.find?_cons_of_pos]
      · rfl
      · simpa using hc
    refine ⟨_, memory', _, ?_, h', ?_⟩
    · simp only [HeapProxy.registerInvoke, hfind, h₁.methodAt_eq hvec hmem, hstore, hchars,
        Option.bind_eq_bind, Option.bind_some, Proxy.registerInvoke, hmethods, hsome, hguid]
    · have hshows' := hshows₁.insert (cStr cmdReq.identifier)
        (before ++ c.touch (int32 now) :: after)
      simp only [Proxy.registerInvoke, fileMethod, fileIn, hmethods, hrefresh, Option.getD_some]
      exact hshows'

/-- **One listed method on the heap.** -/
theorem updateEntry_cases (h : Holds memory methods cells others) (hshows : Shows cells registry)
    (A : Allocator Block) (now : ℤ) (entry : RegistryEntry) :
    (∃ fault, HeapProxy.updateEntry A now entry methods memory = some (.error fault) ∧
        Proxy.updateEntry now registry entry = .error fault) ∨
      ∃ methods' memory' registry' cells',
        HeapProxy.updateEntry A now entry methods memory = some (.ok (methods', memory')) ∧
        Proxy.updateEntry now registry entry = .ok registry' ∧
        Holds memory' methods' cells' others ∧ Shows cells' registry' := by
  have htype : entry.type = .invokeMethod := by
    cases entry.type
    rfl
  unfold HeapProxy.updateEntry Proxy.updateEntry
  rw [if_pos htype, if_pos htype]
  obtain ⟨identifier, memory₁, halloc₁, howns₁⟩ := h.owns.alloc A (.chars (cStr entry.identifier))
  have hchars₁ : charsAt memory₁ identifier = some (cStr entry.identifier) := by
    rw [charsAt, howns₁.load]
  -- the copy of the identifier is not in the registry yet
  have h₁ : Holds memory₁ methods cells (⟨identifier, .chars (cStr entry.identifier)⟩ :: others) :=
    ⟨h.lookup, howns₁.perm List.perm_middle.symm⟩
  have h₂ := h₁.emplace (cStr entry.identifier)
  have hshows₂ := hshows.emplace (cStr entry.identifier)
  obtain ⟨vec, hvec⟩ : ∃ vec,
      (cells.emplace (cStr entry.identifier) []).lookup (cStr entry.identifier) = some vec :=
    ⟨_, Dict.lookup_emplace_self ..⟩
  have hmethods := hshows₂.methodsOf_eq (cStr entry.identifier)
  rw [hvec, Option.getD_some] at hmethods
  obtain ⟨hfind, hrefresh⟩ | ⟨before, c, after, rfl, hc, hbefore, hfind, hrefresh⟩ :=
    h₂.findMethod_refresh (cStr entry.methodGuid) now hvec
  · obtain ⟨entryStruct, memory₂, halloc₂, howns₂⟩ := h₂.owns.alloc A (.method
      { identifier := identifier
        ownerGuid := cStr entry.proxyGuid
        methodGuid := cStr entry.methodGuid
        lastCheckTime := int32 now })
    simp only [halloc₁, hchars₁, hfind, halloc₂, hmethods, hrefresh, Option.bind_eq_bind,
      Option.bind_some, h₂.lookup entry.identifier, hshows₂ entry.identifier]
    cases hfull : (cells.emplace (cStr entry.identifier) []).lookup entry.identifier with
    | none => exact .inl ⟨.outOfRange, rfl, rfl⟩
    | some vec' =>
      let c : Cell :=
        { ptr := entryStruct
          identifier := identifier
          method :=
            { identifier := cStr entry.identifier
              ownerGuid := cStr entry.proxyGuid
              methodGuid := cStr entry.methodGuid
              lastCheckTime := int32 now } }
      have h₃ := (Holds.of_owns (c := c) h₂.lookup (howns₂.perm (List.perm_middle.cons _))).push hfull
      have hshows₃ := hshows₂.insert entry.identifier (vec' ++ [c])
      rw [List.map_append] at hshows₃
      exact .inr ⟨_, memory₂, _, _, rfl, rfl, h₃, hshows₃⟩
  · obtain ⟨memory₂, hstore, h₃⟩ := h₂.touch hvec (int32 now)
    -- the method is known: its identifier is not needed
    obtain ⟨memory₃, hfree, howns₃⟩ := Heap.Owns.free (h₃.owns.perm List.perm_middle)
    have hmem : c ∈ before ++ c :: after := by simp
    have hshows₃ := hshows₂.insert (cStr entry.identifier)
      (before ++ c.touch (int32 now) :: after)
    refine .inr ⟨_, memory₃, _, _, ?_, ?_, ⟨h₃.lookup, howns₃⟩, hshows₃⟩
    · simp only [halloc₁, hchars₁, hfind, h₂.methodAt_eq hvec hmem, hstore, hfree,
        Option.bind_eq_bind, Option.bind_some]
    · simp only [hmethods, hrefresh]

/-- **All listed methods on the heap.** -/
theorem updateEntries_cases (A : Allocator Block) (now : ℤ) : ∀ (regEntry : List RegistryEntry)
    {methods : Pointers} {memory : Heap Block} {cells : Cells} {registry : Registry},
    Holds memory methods cells others → Shows cells registry →
    (∃ fault, HeapProxy.updateEntries A now regEntry methods memory = some (.error fault) ∧
        regEntry.foldlM (Proxy.updateEntry now) registry = .error fault) ∨
      ∃ methods' memory' registry' cells',
        HeapProxy.updateEntries A now regEntry methods memory = some (.ok (methods', memory')) ∧
        regEntry.foldlM (Proxy.updateEntry now) registry = .ok registry' ∧
        Holds memory' methods' cells' others ∧ Shows cells' registry'
  | [], _, _, _, _, h, hshows => .inr ⟨_, _, _, _, rfl, rfl, h, hshows⟩
  | entry :: regEntry, _, _, _, _, h, hshows => by
      simp only [HeapProxy.updateEntries, List.foldlM_cons]
      obtain ⟨fault, hheap, hvalue⟩ | ⟨methods₁, memory₁, registry₁, cells₁, hheap, hvalue, h₁,
        hshows₁⟩ := updateEntry_cases h hshows A now entry
      · exact .inl ⟨fault, by rw [hheap]; rfl, by rw [hvalue]; rfl⟩
      · rw [hheap, hvalue]
        exact updateEntries_cases A now regEntry h₁ hshows₁

/-- **`RegistryExchangeResponder` on the heap.** It lists the methods in the order of the
registry. -/
theorem HeapProxy.registryExchangeResponder_eq
    (h : Holds s.memory s.localInvokeMethods cells others)
    (hptrs : s.localInvokeMethods = cells.mapTo (List.map Cell.ptr))
    (hshows : v.localInvokeMethods = cells.mapTo (List.map Cell.method))
    (hguid : v.guid = s.rest.guid) (cmdReq : Command) :
    s.registryExchangeResponder cmdReq = some (v.registryExchangeResponder cmdReq) := by
  have hentries : (s.localInvokeMethods.entries.mapM fun it => it.2.mapM fun p => do
      let entry ← methodAt s.memory p
      some
        { type? := some .invokeMethod
          identifier? := some it.1
          methodGuid? := some entry.methodGuid
          proxyGuid? := some s.rest.guid : RegistryEntry }) =
      some (v.localInvokeMethods.entries.map fun it => it.2.map fun entry =>
        { type? := some .invokeMethod
          identifier? := some it.1
          methodGuid? := some entry.methodGuid
          proxyGuid? := some v.guid : RegistryEntry }) := by
    have hlists : s.localInvokeMethods.entries =
        cells.entries.map fun e => (⟨e.1, e.2.map Cell.ptr⟩ : Σ _ : Bytes, List ℕ) := by
      rw [hptrs]
      rfl
    have hlists' : v.localInvokeMethods.entries =
        cells.entries.map fun e => (⟨e.1, e.2.map Cell.method⟩ : Σ _ : Bytes, List InvokeMethod) := by
      rw [hshows]
      rfl
    rw [hlists, hlists', List.mapM_map, List.map_map]
    refine mapM_eq_some_map fun e he => ?_
    have hvec : cells.lookup e.1 = some e.2 := AList.mem_lookup_iff.mpr he
    simp only [Function.comp_apply, List.mapM_map, List.map_map]
    refine mapM_eq_some_map fun c hc => ?_
    simp only [Function.comp_apply, h.methodAt_eq hvec hc, hguid]
    rfl
  simp only [HeapProxy.registryExchangeResponder]
  rw [hentries]
  simp only [Option.bind_eq_bind, Option.bind_some, Proxy.registryExchangeResponder, hguid,
    List.flatMap]

/-- A random pointer points to the random method. -/
theorem pick_cases (rand : ℕ) (vec : List Cell) :
    (HeapProxy.pick rand (vec.map Cell.ptr) = none ∧ pick rand (vec.map Cell.method) = none) ∨
      ∃ c ∈ vec, HeapProxy.pick rand (vec.map Cell.ptr) = some c.ptr ∧
        pick rand (vec.map Cell.method) = some c.method := by
  simp only [HeapProxy.pick, pick, List.length_map, List.getElem?_map]
  cases hc : vec[rand % vec.length]? with
  | none => exact .inl ⟨rfl, rfl⟩
  | some c => exact .inr ⟨c, List.mem_of_getElem? hc, rfl, rfl⟩

/-- **`Invoke` on the heap.** -/
theorem HeapProxy.invoke_eq {registryL registryR : Registry}
    {othersL othersR : List (Σ _ : ℕ, Block)}
    (hL : Holds s.memory s.localInvokeMethods cellsL othersL)
    (hR : Holds s.memory s.remoteInvokeMethods cellsR othersR)
    (hshowsL : Shows cellsL registryL) (hshowsR : Shows cellsR registryR) (now : ℤ) (rand : ℕ)
    (cmdReq : Command) :
    ∃ s' cellsL' cellsR' registryL' registryR', s.invoke now rand cmdReq =
        some (s', ((s.rest.withRegistries registryL registryR).invoke now rand cmdReq).2) ∧
      ((s.rest.withRegistries registryL registryR).invoke now rand cmdReq).1 =
        s'.rest.withRegistries registryL' registryR' ∧
      s'.memory = s.memory ∧ blocksOf cellsR' = blocksOf cellsR ∧
      Holds s.memory s'.localInvokeMethods cellsL' othersL ∧
      Holds s.memory s'.remoteInvokeMethods cellsR' othersR ∧
      Shows cellsL' registryL' ∧ Shows cellsR' registryR' := by
  have hblocks : blocksOf (cellsR.emplace cmdReq.identifier []) = blocksOf cellsR := by
    rw [blocksOf, Dict.elements_emplace, blocksOf]
  have hL₁ := hL.emplace cmdReq.identifier
  have hR₁ := hR.emplace cmdReq.identifier
  have hshowsL₁ := hshowsL.emplace cmdReq.identifier
  have hshowsR₁ := hshowsR.emplace cmdReq.identifier
  obtain ⟨vecL, hvecL⟩ : ∃ vec,
      (cellsL.emplace cmdReq.identifier []).lookup cmdReq.identifier = some vec :=
    ⟨_, Dict.lookup_emplace_self ..⟩
  obtain ⟨vecR, hvecR⟩ : ∃ vec,
      (cellsR.emplace cmdReq.identifier []).lookup cmdReq.identifier = some vec :=
    ⟨_, Dict.lookup_emplace_self ..⟩
  have hptrsL := hL₁.pointersOf_eq cmdReq.identifier
  have hptrsR := hR₁.pointersOf_eq cmdReq.identifier
  have hmethodsL := hshowsL₁.methodsOf_eq cmdReq.identifier
  have hmethodsR := hshowsR₁.methodsOf_eq cmdReq.identifier
  rw [hvecL, Option.getD_some] at hptrsL hmethodsL
  rw [hvecR, Option.getD_some] at hptrsR hmethodsR
  simp only [HeapProxy.invoke, Proxy.invoke, Proxy.withRegistries, hptrsL, hmethodsL, hptrsR,
    hmethodsR]
  obtain ⟨hp, hm⟩ | ⟨c, hc, hp, hm⟩ := pick_cases rand vecL
  · obtain ⟨hpR, hmR⟩ | ⟨c, hc, hpR, hmR⟩ := pick_cases rand vecR
    · simp only [hp, hm, hpR, hmR]
      exact ⟨_, _, _, _, _, rfl, rfl, rfl, hblocks, hL₁, hR₁, hshowsL₁, hshowsR₁⟩
    · simp only [hp, hm, hpR, hmR, hR₁.readMethod_eq hvecR hc, Option.bind_eq_bind,
        Option.bind_some]
      exact ⟨_, _, _, _, _, rfl, rfl, rfl, hblocks, hL₁, hR₁, hshowsL₁, hshowsR₁⟩
  · simp only [hp, hm, hL₁.readMethod_eq hvecL hc, Option.bind_eq_bind, Option.bind_some]
    exact ⟨_, _, _, _, _, rfl, rfl, rfl, rfl, hL₁, hR, hshowsL₁, hshowsR⟩

end

end EsbProxy
