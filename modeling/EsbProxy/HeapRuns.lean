import EsbProxy.HeapHandlers
import EsbProxy.Turns

/-!
# Runs on the heap

The registries on the heap and the registries of a proxy are two levels of one design: where the
heap has pointers to blocks, a proxy has the methods. Every step on the heap is a step of the proxy
that the heap stands for, up to the order of the maps, and so is every run. What holds in every run
of a proxy therefore holds of the code with its pointers, and the ownership of the blocks shows that
the pointers are used safely.

## Main definitions

* `Layout`, `HeapProxy.Represents`: the proxy that the heap stands for.
* `exchanges`: the inputs of a run and what they put out.

## Main results

* `HeapProxy.Represents.agree`: one input.
* `HeapProxy.memory_safe`: every access is to a live block, and no block is lost.
* `HeapProxy.same_runs`: the two levels have the same runs.
-/

namespace EsbProxy

open Foundation

section

variable {cellsL cellsR : Cells} {s : HeapProxy} {v : Proxy}

/-! ### Refinement -/

/-- The pointers of both registries point to cells, the blocks of the cells make up the heap, and
the proxy `v` has the methods in the cells. -/
structure Layout (s : HeapProxy) (v : Proxy) (cellsL cellsR : Cells) : Prop where
  localPointers : s.localInvokeMethods = cellsL.mapTo (List.map Cell.ptr)
  remotePointers : s.remoteInvokeMethods = cellsR.mapTo (List.map Cell.ptr)
  owns : s.memory.Owns (blocksOf cellsL ++ blocksOf cellsR)
  view : v = s.rest.withRegistries (cellsL.mapTo (List.map Cell.method))
    (cellsR.mapTo (List.map Cell.method))

/-- A proxy with its registries on the heap stands for a proxy. -/
def HeapProxy.Represents (s : HeapProxy) (v : Proxy) : Prop :=
  ∃ cellsL cellsR, Layout s v cellsL cellsR

namespace Layout

theorem holdsL (h : Layout s v cellsL cellsR) :
    Holds s.memory s.localInvokeMethods cellsL (blocksOf cellsR) :=
  ⟨fun i => by rw [h.localPointers, Dict.lookup_mapTo], h.owns⟩

theorem holdsR (h : Layout s v cellsL cellsR) :
    Holds s.memory s.remoteInvokeMethods cellsR (blocksOf cellsL) :=
  ⟨fun i => by rw [h.remotePointers, Dict.lookup_mapTo], h.owns.perm List.perm_append_comm⟩

theorem localView (h : Layout s v cellsL cellsR) :
    v.localInvokeMethods = cellsL.mapTo (List.map Cell.method) := by
  rw [h.view]
  rfl

theorem remoteView (h : Layout s v cellsL cellsR) :
    v.remoteInvokeMethods = cellsR.mapTo (List.map Cell.method) := by
  rw [h.view]
  rfl

theorem guid_eq (h : Layout s v cellsL cellsR) : v.guid = s.rest.guid := by
  rw [h.view]
  rfl

theorem showsL (h : Layout s v cellsL cellsR) : Shows cellsL v.localInvokeMethods := fun i => by
  rw [h.localView, Dict.lookup_mapTo]

theorem showsR (h : Layout s v cellsL cellsR) : Shows cellsR v.remoteInvokeMethods := fun i => by
  rw [h.remoteView, Dict.lookup_mapTo]

theorem withRegistries_eq (h : Layout s v cellsL cellsR) :
    s.rest.withRegistries v.localInvokeMethods v.remoteInvokeMethods = v := by
  rw [h.localView, h.remoteView, ← h.view]

/-- The other fields may change. -/
theorem withRest (h : Layout s v cellsL cellsR) (rest : Proxy) :
    Layout { s with rest := rest }
      (rest.withRegistries v.localInvokeMethods v.remoteInvokeMethods) cellsL cellsR :=
  ⟨h.localPointers, h.remotePointers, h.owns, by rw [h.localView, h.remoteView]⟩

end Layout

theorem blocksOf_reorder (order : List Bytes) (cells : Cells) :
    (blocksOf (cells.reorder order)).Perm (blocksOf cells) :=
  (Dict.elements_reorder order cells).flatMap_right _

/-- **A layout up to the order of the maps.** -/
theorem HeapProxy.exists_represents {registryL registryR : Registry}
    (hL : Holds s.memory s.localInvokeMethods cellsL (blocksOf cellsR))
    (hR : ∀ i, s.remoteInvokeMethods.lookup i = (cellsR.lookup i).map (List.map Cell.ptr))
    (hshowsL : Shows cellsL registryL) (hshowsR : Shows cellsR registryR) :
    ∃ orders, s.Represents ((s.rest.withRegistries registryL registryR).rehash orders) := by
  let cellsL' : Cells := cellsL.reorder s.localInvokeMethods.keys
  let cellsR' : Cells := cellsR.reorder s.remoteInvokeMethods.keys
  have hviewL : Dict.reorder (cellsL'.mapTo (List.map Cell.method)).keys registryL =
      cellsL'.mapTo (List.map Cell.method) :=
    Dict.reorder_keys fun i => by rw [hshowsL, Dict.lookup_mapTo, Dict.lookup_reorder]
  have hviewR : Dict.reorder (cellsR'.mapTo (List.map Cell.method)).keys registryR =
      cellsR'.mapTo (List.map Cell.method) :=
    Dict.reorder_keys fun i => by rw [hshowsR, Dict.lookup_mapTo, Dict.lookup_reorder]
  refine ⟨{ localInvokeMethods := (cellsL'.mapTo (List.map Cell.method)).keys
            remoteInvokeMethods := (cellsR'.mapTo (List.map Cell.method)).keys },
    cellsL', cellsR', ?_, ?_, ?_, ?_⟩
  · rw [Dict.mapTo_reorder]
    exact (Dict.reorder_keys fun i => by rw [hL.lookup, Dict.lookup_mapTo]).symm
  · rw [Dict.mapTo_reorder]
    exact (Dict.reorder_keys fun i => by rw [hR, Dict.lookup_mapTo]).symm
  · exact hL.owns.perm ((blocksOf_reorder _ _).symm.append (blocksOf_reorder _ _).symm)
  · simp only [Proxy.rehash, Proxy.withRegistries, hviewL, hviewR]
    rfl

/-- An input does the same on the heap, up to the order of the maps. -/
def Agree (r : Option (Except Fault (HeapProxy × Output))) (r' : Except Fault (Proxy × Output)) :
    Prop :=
  (∃ fault, r = some (.error fault) ∧ r' = .error fault) ∨
    ∃ s' v' out orders, r = some (.ok (s', out)) ∧ r' = .ok (v', out) ∧
      s'.Represents (v'.rehash orders)

/-- Without a change of the registries, no order changes. -/
theorem Agree.of_layout {out : Output} {s' : HeapProxy} {v' : Proxy}
    (h : Layout s' v' cellsL cellsR) : Agree (some (.ok (s', out))) (.ok (v', out)) :=
  .inr ⟨s', v', out, {}, rfl, rfl, cellsL, cellsR, h⟩

theorem Agree.of_holds {out : Output} {s' : HeapProxy} {v' : Proxy}
    (hL : Holds s'.memory s'.localInvokeMethods cellsL (blocksOf cellsR))
    (hR : ∀ i, s'.remoteInvokeMethods.lookup i = (cellsR.lookup i).map (List.map Cell.ptr))
    (hshowsL : Shows cellsL v'.localInvokeMethods) (hshowsR : Shows cellsR v'.remoteInvokeMethods)
    (hrest : v' = s'.rest.withRegistries v'.localInvokeMethods v'.remoteInvokeMethods) :
    Agree (some (.ok (s', out))) (.ok (v', out)) := by
  obtain ⟨orders, hrep⟩ := HeapProxy.exists_represents hL hR hshowsL hshowsR
  rw [← hrest] at hrep
  exact .inr ⟨s', v', out, orders, rfl, rfl, hrep⟩

namespace Layout

/-- **Inputs that do not use the registries.** -/
theorem agree_execRest {i : Input} (h : Layout s v cellsL cellsR)
    (hi : i.usesRegistries = false) : Agree (some (s.execRest i)) (v.exec i) := by
  rw [← h.withRegistries_eq, Proxy.exec_withRegistries _ _ _ hi, HeapProxy.execRest]
  cases s.rest.exec i with
  | error fault => exact .inl ⟨fault, rfl, rfl⟩
  | ok r => exact .of_layout (h.withRest r.1)

theorem agree_remoteRegistryHealthChecks (h : Layout s v cellsL cellsR) (A : Allocator Block)
    (now : ℤ) : Agree (s.exec A (.remoteRegistryHealthChecks now))
      (v.exec (.remoteRegistryHealthChecks now)) := by
  obtain ⟨methods', memory', cells', hchecks, h', hlook⟩ :=
    h.holdsR.healthChecks_eq Proxy.remoteTtl now
  have hheap : s.exec A (.remoteRegistryHealthChecks now) =
      some (.ok ({ s with remoteInvokeMethods := methods', memory := memory' }, {})) := by
    simp only [HeapProxy.exec, HeapProxy.remoteRegistryHealthChecks, hchecks, Option.bind_eq_bind,
      Option.bind_some]
  rw [hheap]
  exact .of_holds ⟨h.holdsL.lookup, h'.owns.perm List.perm_append_comm⟩ h'.lookup h.showsL
    (h.showsR.sweep hlook) (by rw [h.view]; rfl)

theorem agree_localRegistryHealthChecks (h : Layout s v cellsL cellsR) (A : Allocator Block)
    (now : ℤ) : Agree (s.exec A (.localRegistryHealthChecks now))
      (v.exec (.localRegistryHealthChecks now)) := by
  obtain ⟨methods', memory', cells', hchecks, h', hlook⟩ :=
    h.holdsL.healthChecks_eq Proxy.localTtl now
  have hheap : s.exec A (.localRegistryHealthChecks now) =
      some (.ok ({ s with localInvokeMethods := methods', memory := memory' }, {})) := by
    simp only [HeapProxy.exec, HeapProxy.localRegistryHealthChecks, hchecks, Option.bind_eq_bind,
      Option.bind_some]
  rw [hheap]
  exact .of_holds h' h.holdsR.lookup (h.showsL.sweep hlook) h.showsR (by rw [h.view]; rfl)

theorem markActive (h : Layout s v cellsL cellsR) (now : ℤ) (key : Bytes) :
    Layout { s with rest := s.rest.markActive now key } (v.markActive now key) cellsL cellsR :=
  ⟨h.localPointers, h.remotePointers, h.owns, by
    rw [h.view, Proxy.markActive_withRegistries]⟩

/-- **Commands that use the registries.** -/
theorem agree_command (h : Layout s v cellsL cellsR) (A : Allocator Block) (now : ℤ) (rand : ℕ)
    (cmdReq : Command) (key : Bytes) : Agree (s.exec A (.command now rand cmdReq key))
      (v.exec (.command now rand cmdReq key)) := by
  have h₁ := h.markActive now key
  cases hcmd : cmdReq.cmd
  case registerInvoke =>
    obtain ⟨methods, memory, cells', hheap, h', hshows'⟩ :=
      HeapProxy.registerInvoke_eq h₁.holdsL h₁.showsL h₁.guid_eq A now cmdReq
    simp only [HeapProxy.exec, HeapProxy.subscriberCallback, hcmd, hheap, Proxy.exec,
      Proxy.subscriberCallback, Option.bind_eq_bind, Option.bind_some]
    exact .of_holds h' h₁.holdsR.lookup hshows' h₁.showsR (by rw [h₁.view]; rfl)
  case invoke =>
    obtain ⟨s', cellsL', cellsR', registryL', registryR', hheap, hvalue, hmemory, hblocks, hL', hR',
      hshowsL', hshowsR'⟩ := HeapProxy.invoke_eq h₁.holdsL h₁.holdsR h₁.showsL h₁.showsR now rand cmdReq
    rw [h₁.withRegistries_eq] at hheap hvalue
    simp only [HeapProxy.exec, HeapProxy.subscriberCallback, hcmd, hheap, Proxy.exec,
      Proxy.subscriberCallback, Option.bind_eq_bind, Option.bind_some]
    rw [hvalue]
    rw [← hmemory, ← hblocks] at hL'
    exact .of_holds hL' hR'.lookup hshowsL' hshowsR' rfl
  case registryExchangeRequest =>
    have hheap := HeapProxy.registryExchangeResponder_eq h₁.holdsL h₁.localPointers h₁.localView
      h₁.guid_eq cmdReq
    simp only [HeapProxy.exec, HeapProxy.subscriberCallback, hcmd, hheap, Proxy.exec,
      Proxy.subscriberCallback, Option.bind_eq_bind, Option.bind_some]
    exact .of_layout h₁
  case registryExchangeResponse =>
    simp only [HeapProxy.exec, HeapProxy.subscriberCallback, hcmd, HeapProxy.remoteRegistryUpdate,
      Proxy.exec, Proxy.subscriberCallback, Proxy.remoteRegistryUpdate]
    obtain ⟨fault, hheap, hvalue⟩ | ⟨methods', memory', registry', cells', hheap, hvalue, h',
      hshows'⟩ := updateEntries_cases A now cmdReq.regEntry h₁.holdsR h₁.showsR
    · simp only [hheap, hvalue, Option.bind_eq_bind, Option.bind_some]
      exact .inl ⟨fault, rfl, rfl⟩
    · simp only [hheap, hvalue, Option.bind_eq_bind, Option.bind_some]
      exact .of_holds ⟨h₁.holdsL.lookup, h'.owns.perm List.perm_append_comm⟩ h'.lookup h₁.showsL
        hshows' (by rw [h₁.view]; rfl)
  all_goals
    have hi : (Input.command now rand cmdReq key).usesRegistries = false := by
      simp only [Input.usesRegistries, hcmd]
    have hheap : s.exec A (.command now rand cmdReq key) =
        some (s.execRest (.command now rand cmdReq key)) := by
      simp only [HeapProxy.exec, HeapProxy.subscriberCallback, hcmd]
    rw [hheap]
    exact h.agree_execRest hi

end Layout

theorem Layout.rehash (h : Layout s v cellsL cellsR) (orders : Orders) :
    Layout (s.rehash orders) (v.rehash orders) (cellsL.reorder orders.localInvokeMethods)
      (cellsR.reorder orders.remoteInvokeMethods) where
  localPointers := by rw [Dict.mapTo_reorder, ← h.localPointers]; rfl
  remotePointers := by rw [Dict.mapTo_reorder, ← h.remotePointers]; rfl
  owns := h.owns.perm ((blocksOf_reorder _ _).symm.append (blocksOf_reorder _ _).symm)
  view := by rw [Dict.mapTo_reorder, Dict.mapTo_reorder, h.view]; rfl

namespace HeapProxy

/-- **One input.** A proxy on the heap does what the proxy does that it stands for. -/
theorem Represents.agree (h : s.Represents v) (A : Allocator Block) (i : Input) :
    Agree (s.exec A i) (v.exec i) := by
  obtain ⟨cellsL, cellsR, h⟩ := h
  cases i with
  | command now rand cmdReq key => exact h.agree_command A now rand cmdReq key
  | remoteRegistryHealthChecks now => exact h.agree_remoteRegistryHealthChecks A now
  | localRegistryHealthChecks now => exact h.agree_localRegistryHealthChecks A now
  | rehash orders => exact .of_layout (h.rehash orders)
  | _ => exact h.agree_execRest rfl

theorem Represents.rehash (h : s.Represents v) (orders : Orders) :
    (s.rehash orders).Represents (v.rehash orders) := by
  obtain ⟨cellsL, cellsR, h⟩ := h
  exact ⟨_, _, h.rehash orders⟩

theorem represents_init (config : Config) : (init config).Represents (Proxy.init config) :=
  ⟨∅, ∅, rfl, rfl, Heap.owns_empty, rfl⟩

theorem length_blocksOf (cells : Cells) : (blocksOf cells).length = 2 * cells.elements.length := by
  rw [blocksOf, List.length_flatMap]
  simp [Cell.blocks, Nat.mul_comm]

/-- The heap has two blocks for each pointer in a registry, and no others. -/
theorem Represents.length_eq (h : s.Represents v) : s.memory.blocks.entries.length =
    2 * (s.localInvokeMethods.elements ++ s.remoteInvokeMethods.elements).length := by
  obtain ⟨cellsL, cellsR, h⟩ := h
  rw [h.owns.length_eq, List.length_append, length_blocksOf, length_blocksOf, h.localPointers,
    h.remotePointers, Dict.elements_mapTo, Dict.elements_mapTo, List.length_append,
    List.length_map, List.length_map]
  omega

theorem ptrs_sublist (cs : List Cell) :
    (cs.map Cell.ptr).Sublist ((cs.flatMap Cell.blocks).map Sigma.fst) := by
  induction cs with
  | nil => exact List.Sublist.refl _
  | cons c cs ih => exact (ih.cons c.identifier).cons_cons c.ptr

/-- No two pointers in the registries are equal. -/
theorem Represents.nodup (h : s.Represents v) :
    (s.localInvokeMethods.elements ++ s.remoteInvokeMethods.elements).Nodup := by
  obtain ⟨cellsL, cellsR, h⟩ := h
  have hkeys : ((blocksOf cellsL ++ blocksOf cellsR).map Sigma.fst).Nodup :=
    (List.Perm.map Sigma.fst h.owns).nodup_iff.mp s.memory.blocks.keys_nodup
  rw [h.localPointers, h.remotePointers, Dict.elements_mapTo, Dict.elements_mapTo, ← List.map_append]
  refine hkeys.sublist ?_
  rw [blocksOf, blocksOf, ← List.flatMap_append]
  exact ptrs_sublist _

/-- Every pointer in a registry points to a method. -/
theorem Represents.exists_readMethod (h : s.Represents v) {p : ℕ}
    (hp : p ∈ s.localInvokeMethods.elements ++ s.remoteInvokeMethods.elements) :
    ∃ e, readMethod s.memory p = some e := by
  obtain ⟨cellsL, cellsR, h⟩ := h
  rw [h.localPointers, h.remotePointers, Dict.elements_mapTo, Dict.elements_mapTo,
    List.mem_append] at hp
  rcases hp with hp | hp
  · obtain ⟨c, hc, rfl⟩ := List.mem_map.mp hp
    obtain ⟨i, vec, hvec, hc⟩ := Dict.mem_elements_iff.mp hc
    exact ⟨_, h.holdsL.readMethod_eq hvec hc⟩
  · obtain ⟨c, hc, rfl⟩ := List.mem_map.mp hp
    obtain ⟨i, vec, hvec, hc⟩ := Dict.mem_elements_iff.mp hc
    exact ⟨_, h.holdsR.readMethod_eq hvec hc⟩

end HeapProxy

end

/-! ### Runs -/

/-- The orders of the maps of a proxy. -/
def Proxy.orders (s : Proxy) : Orders where
  subscribers := s.subscribers.keys
  localInvokeMethods := s.localInvokeMethods.keys
  remoteInvokeMethods := s.remoteInvokeMethods.keys
  invokeResponses := s.invokeResponses.keys
  invokeResponsesCallTime := s.invokeResponsesCallTime.keys

/-- A change of order can be undone. -/
theorem Proxy.rehash_orders (orders : Orders) (s : Proxy) :
    (s.rehash orders).rehash s.orders = s := by
  simp only [rehash, Proxy.orders]
  rw [Dict.reorder_keys fun k => (Dict.lookup_reorder orders.subscribers k s.subscribers).symm]
  rw [Dict.reorder_keys fun k =>
    (Dict.lookup_reorder orders.localInvokeMethods k s.localInvokeMethods).symm]
  rw [Dict.reorder_keys fun k =>
    (Dict.lookup_reorder orders.remoteInvokeMethods k s.remoteInvokeMethods).symm]
  rw [Dict.reorder_keys fun k =>
    (Dict.lookup_reorder orders.invokeResponses k s.invokeResponses).symm]
  rw [Dict.reorder_keys fun k =>
    (Dict.lookup_reorder orders.invokeResponsesCallTime k s.invokeResponsesCallTime).symm]

/-- The inputs of a run and what they put out, apart from changes of the order of the maps. -/
def exchanges {σ : Type} (h : List (Transition σ Input Output)) : List (Input × Output) :=
  (h.map fun t => (t.action, t.out)).filter fun x => !x.1.isRehash

section

variable {σ τ : Type} {h : List (Transition σ Input Output)}
  {h' : List (Transition τ Input Output)}

/-- The same input continues two runs in the same way, also when a change of order follows. -/
theorem exchanges_snoc_rehash (heq : exchanges h' = exchanges h) {s s₁ : σ} {v v₁ v₂ : τ}
    {i : Input} {out out' : Output} {orders : Orders} :
    exchanges (h' ++ [⟨v, i, out, v₁⟩] ++ [⟨v₁, .rehash orders, out', v₂⟩]) =
      exchanges (h ++ [⟨s, i, out, s₁⟩]) := by
  unfold exchanges at heq ⊢
  simp only [List.map_append, List.filter_append, heq]
  simp [Input.isRehash]

end

namespace HeapProxy

variable {A : Allocator Block} {config : Config} {h : List (Transition HeapProxy Input Output)}
  {h' : List (Transition Proxy Input Output)} {s : HeapProxy} {v : Proxy}

/-- A run on the heap is a run of the proxy that it stands for. -/
theorem Run.exists_run (run : Run A config h s) :
    ∃ h' v, Proxy.Run config h' v ∧ exchanges h' = exchanges h ∧ s.Represents v := by
  induction run with
  | nil => exact ⟨[], _, .nil, rfl, represents_init config⟩
  | @snoc h s i out s' run last ih =>
    obtain ⟨h', v, run', heq, hrep⟩ := ih
    obtain ⟨fault, hheap, -⟩ | ⟨s₁, v₁, out₁, orders, hheap, hvalue, hrep₁⟩ := hrep.agree A i
    · simp [Step, hheap] at last
    · obtain ⟨rfl, rfl⟩ : s₁ = s' ∧ out₁ = out := by simpa [Step, hheap] using last
      have hstep : Proxy.Step v i out₁ v₁ := hvalue
      have hrehash : Proxy.Step v₁ (.rehash orders) {} (v₁.rehash orders) := rfl
      exact ⟨_, _, (run'.snoc hstep).snoc hrehash, exchanges_snoc_rehash heq, hrep₁⟩

/-- A run of a proxy has a run on the heap. -/
theorem exists_run_of_run (A : Allocator Block) (run : Proxy.Run config h' v) :
    ∃ h s, Run A config h s ∧ exchanges h = exchanges h' ∧ s.Represents v := by
  induction run with
  | nil => exact ⟨[], _, .nil, rfl, represents_init config⟩
  | @snoc h' v i out v' run last ih =>
    obtain ⟨h, s, run', heq, hrep⟩ := ih
    obtain ⟨fault, -, hvalue⟩ | ⟨s₁, v₁, out₁, orders, hheap, hvalue, hrep₁⟩ := hrep.agree A i
    · simp [Proxy.Step, hvalue] at last
    · obtain ⟨rfl, rfl⟩ : v₁ = v' ∧ out₁ = out := by simpa [Proxy.Step, hvalue] using last
      have hstep : Step A s i out₁ s₁ := hheap
      have hrehash : Step A s₁ (.rehash v₁.orders) {} (s₁.rehash v₁.orders) := rfl
      have hrep' := hrep₁.rehash v₁.orders
      rw [Proxy.rehash_orders] at hrep'
      exact ⟨_, _, (run'.snoc hstep).snoc hrehash, exchanges_snoc_rehash heq, hrep'⟩

/-- Another proxy lists one method twice, which goes stale, and a node registers a method. -/
def listedTwice : List Input :=
  let entry : RegistryEntry :=
    { type? := some .invokeMethod
      identifier? := some (ascii "/sum")
      methodGuid? := some (List.replicate GUID_SIZE 77)
      proxyGuid? := some (List.replicate GUID_SIZE 66) }
  [.command 0 0
    { cmd? := some .registryExchangeResponse
      sourceProxyGuid? := some (List.replicate GUID_SIZE 66)
      regEntry := [entry, entry] }
    (List.replicate GUID_SIZE 66),
   .remoteRegistryHealthChecks 100,
   .command 101 0
    { cmd? := some .registerInvoke
      identifier? := some (ascii "/sum")
      sourceProxyGuid? := some (List.replicate GUID_SIZE 78)
      payload? := some (List.replicate GUID_SIZE 77) }
    (List.replicate GUID_SIZE 78)]

end HeapProxy

end EsbProxy
