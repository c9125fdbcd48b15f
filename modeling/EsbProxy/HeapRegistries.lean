import EsbProxy.Dispatch
import EsbProxy.Foundation.Heap

/-!
# The registries on the heap

The registries of a proxy are maps to vectors of pointers. A registered method is a block on the
heap that points to another block, the text of its identifier. Both are allocated when the method is
filed, and freed when a health check deletes it; an entry that another proxy lists has its
identifier copied first, and the copy is freed when the method is known already. Here the handlers
are modelled on the heap, as the code runs them: an access through a pointer to no block, or a
second `free`, has no result (`none`).

A block stands for the memory that its content needs. Whether the code allocates as much as it
writes is not the subject here, and memory does not run out.

## Main definitions

* `MethodEntry`, `Block`: what lies on the heap.
* `HeapProxy`: a proxy with its registries on the heap, with the handlers of `Proxy` that use them.
* `HeapProxy.exec`, `HeapProxy.Step`, `HeapProxy.Run`: the main loop on such proxies.
-/

namespace EsbProxy

open Foundation

/-! ### Blocks -/

/-- `LocalInvokeMethod` and `RemoteInvokeMethod` as they lie in memory: `identifier` is a pointer. -/
structure MethodEntry where
  identifier : ℕ
  ownerGuid : Bytes
  methodGuid : Bytes
  lastCheckTime : ℤ
  deriving DecidableEq

/-- A block on the heap: a C string, or a method. -/
inductive Block
  | chars (text : Bytes)
  | method (entry : MethodEntry)
  deriving DecidableEq

/-- The C string at a pointer. -/
def charsAt (memory : Heap Block) (p : ℕ) : Option Bytes :=
  match memory.load p with
  | some (.chars text) => some text
  | _ => none

/-- The method at a pointer. -/
def methodAt (memory : Heap Block) (p : ℕ) : Option MethodEntry :=
  match memory.load p with
  | some (.method entry) => some entry
  | _ => none

/-- The method at a pointer, with the text of its identifier. -/
def readMethod (memory : Heap Block) (p : ℕ) : Option InvokeMethod := do
  let entry ← methodAt memory p
  let identifier ← charsAt memory entry.identifier
  some
    { identifier := identifier
      ownerGuid := entry.ownerGuid
      methodGuid := entry.methodGuid
      lastCheckTime := entry.lastCheckTime }

/-! ### Vectors of pointers -/

/-- A registry of pointers. -/
abbrev Pointers := Dict Bytes (List ℕ)

/-- The pointers filed under an identifier. -/
def pointersOf (methods : Pointers) (identifier : Bytes) : List ℕ :=
  (methods.lookup identifier).getD []

/-- An iterator into a vector of pointers: the pointer it stands at, and those around it. -/
structure Iterator where
  before : List ℕ
  tEntry : ℕ
  after : List ℕ

/-- `vec.erase(it)`. -/
def Iterator.erase (it : Iterator) : List ℕ := it.before ++ it.after

/-- The loop over a vector that stops at the first method that is selected. -/
def findMethod (selects : MethodEntry → Bool) (memory : Heap Block) :
    List ℕ → Option (Option Iterator)
  | [] => some none
  | tEntry :: vec => do
    let entry ← methodAt memory tEntry
    if selects entry then some (some ⟨[], tEntry, vec⟩)
    else
      let it? ← findMethod selects memory vec
      some (it?.map fun it => { it with before := tEntry :: it.before })

/-! ### Health checks -/

/-- The test of the health checks: `now > lastCheckTime + ttl`, in `int` arithmetic. -/
def MethodEntry.isStale (ttl now : ℤ) (entry : MethodEntry) : Bool :=
  decide (int32 now > int32 (entry.lastCheckTime + ttl))

/-- The loop over a registry that stops at the first stale method, with its key. -/
def findStale (ttl now : ℤ) (memory : Heap Block) :
    List (Σ _ : Bytes, List ℕ) → Option (Option (Bytes × Iterator))
  | [] => some none
  | pair :: rest => do
    match ← findMethod (MethodEntry.isStale ttl now) memory pair.2 with
    | some it => some (some (pair.1, it))
    | none => findStale ttl now memory rest

/-- One call of a health check: free the blocks of one stale method and take it out; `some none`
when there is none, and the function returns `false`. -/
def healthCheck (ttl now : ℤ) (methods : Pointers) (memory : Heap Block) :
    Option (Option (Pointers × Heap Block)) := do
  match ← findStale ttl now memory methods.entries with
  | none => some none
  | some (identifier, it) =>
    let tEntry ← methodAt memory it.tEntry
    -- the warning prints the identifier
    let _ ← charsAt memory tEntry.identifier
    let memory ← memory.free tEntry.identifier
    let memory ← memory.free it.tEntry
    some (some (methods.insert identifier it.erase, memory))

/-- `while(HealthCheck());`, at most `n` times. -/
def healthChecksUpTo (ttl now : ℤ) : ℕ → Pointers → Heap Block → Option (Pointers × Heap Block)
  | 0, methods, memory => some (methods, memory)
  | n + 1, methods, memory => do
    match ← healthCheck ttl now methods memory with
    | none => some (methods, memory)
    | some (methods, memory) => healthChecksUpTo ttl now n methods memory

/-- `while(HealthCheck());`. Every call takes out one pointer, so their number bounds the calls. -/
def healthChecks (ttl now : ℤ) (methods : Pointers) (memory : Heap Block) :
    Option (Pointers × Heap Block) :=
  healthChecksUpTo ttl now methods.size methods memory

/-! ### Proxies -/

/-- A proxy with its registries on the heap. The registries of `rest` stay empty. -/
structure HeapProxy where
  rest : Proxy
  localInvokeMethods : Pointers
  remoteInvokeMethods : Pointers
  memory : Heap Block

namespace HeapProxy

/-- The proxy that the constructor leaves behind. -/
def init (config : Config) : HeapProxy where
  rest := Proxy.init config
  localInvokeMethods := ∅
  remoteInvokeMethods := ∅
  memory := .empty

variable (A : Allocator Block)

/-- `Proxy::RegisterInvoke`. -/
def registerInvoke (now : ℤ) (cmdReq : Command) (s : HeapProxy) :
    Option (HeapProxy × List Frame) := do
  let methods := s.localInvokeMethods.emplace (cStr cmdReq.identifier) []
  let vec := pointersOf methods (cStr cmdReq.identifier)
  let cmdResp (pIdentifier : Bytes) : Command :=
    { cmd? := some .registerInvokeOk
      guidTo? := some cmdReq.sourceProxyGuid
      sourceProxyGuid? := some s.rest.guid
      payload? := some pIdentifier }
  match ← findMethod (fun entry => entry.methodGuid = cStr cmdReq.payload) s.memory vec with
  | some it =>
    let tEntry ← methodAt s.memory it.tEntry
    let memory ← s.memory.store it.tEntry (.method { tEntry with lastCheckTime := int32 now })
    let pIdentifier ← charsAt memory tEntry.identifier
    some ({ s with localInvokeMethods := methods, memory := memory },
      [publish cmdReq.sourceProxyGuid (cmdResp pIdentifier)])
  | none =>
    -- `calloc` clears the block
    let (entry, memory) := s.memory.alloc A (.method
      { identifier := 0
        ownerGuid := cStr cmdReq.sourceProxyGuid
        methodGuid := cStr cmdReq.payload
        lastCheckTime := 0 })
    let (identifier, memory) := memory.alloc A (.chars (cStr cmdReq.identifier))
    let memory ← memory.store entry (.method
      { identifier := identifier
        ownerGuid := cStr cmdReq.sourceProxyGuid
        methodGuid := cStr cmdReq.payload
        lastCheckTime := int32 now })
    let key ← charsAt memory identifier
    some
      ({ s with
          localInvokeMethods := methods.insert key (pointersOf methods key ++ [entry])
          memory := memory },
        [publish cmdReq.sourceProxyGuid (cmdResp key)])

/-- The random element of a vector. -/
def pick (rand : ℕ) (vec : List ℕ) : Option ℕ := vec[rand % vec.length]?

/-- `Proxy::Invoke`. -/
def invoke (now : ℤ) (rand : ℕ) (cmdReq : Command) (s : HeapProxy) :
    Option (HeapProxy × List Frame) :=
  let s₁ : HeapProxy :=
    { s with localInvokeMethods := s.localInvokeMethods.emplace cmdReq.identifier [] }
  match pick rand (pointersOf s₁.localInvokeMethods cmdReq.identifier) with
  | some p => do
    let entry ← readMethod s₁.memory p
    some ({ s₁ with rest := s₁.rest.await now cmdReq },
      [publish entry.ownerGuid (s₁.rest.routed cmdReq entry)])
  | none =>
    let s₂ : HeapProxy :=
      { s₁ with remoteInvokeMethods := s₁.remoteInvokeMethods.emplace cmdReq.identifier [] }
    match pick rand (pointersOf s₂.remoteInvokeMethods cmdReq.identifier) with
    | some p => do
      let entry ← readMethod s₂.memory p
      some ({ s₂ with rest := s₂.rest.await now cmdReq },
        [publish entry.ownerGuid (s₂.rest.routed cmdReq entry)])
    | none => some (s₂, [publish cmdReq.sourceProxyGuid (s₂.rest.notFound cmdReq)])

/-- `Proxy::RegistryExchangeResponder`. -/
def registryExchangeResponder (cmdReq : Command) (s : HeapProxy) : Option (List Frame) := do
  let entries ← s.localInvokeMethods.entries.mapM fun it => it.2.mapM fun p => do
    let entry ← methodAt s.memory p
    some
      { type? := some .invokeMethod
        identifier? := some it.1
        methodGuid? := some entry.methodGuid
        proxyGuid? := some s.rest.guid : RegistryEntry }
  let cmdResp : Command :=
    { cmd? := some .registryExchangeResponse
      sourceProxyGuid? := some s.rest.guid
      payload? := some (ascii "here is my registry")
      regEntry := entries.flatten }
  some [publish cmdReq.sourceProxyGuid cmdResp]

/-- One turn of the loop of `Proxy::RemoteRegistryUpdate`. -/
def updateEntry (now : ℤ) (entry : RegistryEntry) (methods : Pointers) (memory : Heap Block) :
    Option (Except Fault (Pointers × Heap Block)) :=
  if entry.type = .invokeMethod then do
    let (identifier, memory) := memory.alloc A (.chars (cStr entry.identifier))
    let key ← charsAt memory identifier
    let methods := methods.emplace key []
    match ← findMethod (fun tEntry => tEntry.methodGuid = cStr entry.methodGuid) memory
        (pointersOf methods key) with
    | some it =>
      let tEntry ← methodAt memory it.tEntry
      let memory ← memory.store it.tEntry (.method { tEntry with lastCheckTime := int32 now })
      let memory ← memory.free identifier
      some (.ok (methods, memory))
    | none =>
      let (entryStruct, memory) := memory.alloc A (.method
        { identifier := identifier
          ownerGuid := cStr entry.proxyGuid
          methodGuid := cStr entry.methodGuid
          lastCheckTime := int32 now })
      match methods.lookup entry.identifier with
      | none => some (.error .outOfRange)
      | some vec => some (.ok (methods.insert entry.identifier (vec ++ [entryStruct]), memory))
  else some (.ok (methods, memory))

/-- The loop of `Proxy::RemoteRegistryUpdate`. -/
def updateEntries (now : ℤ) : List RegistryEntry → Pointers → Heap Block →
    Option (Except Fault (Pointers × Heap Block))
  | [], methods, memory => some (.ok (methods, memory))
  | entry :: regEntry, methods, memory => do
    match ← updateEntry A now entry methods memory with
    | .error fault => some (.error fault)
    | .ok (methods, memory) => updateEntries now regEntry methods memory

/-- `Proxy::RemoteRegistryUpdate`. -/
def remoteRegistryUpdate (now : ℤ) (cmdReq : Command) (s : HeapProxy) :
    Option (Except Fault HeapProxy) := do
  match ← updateEntries A now cmdReq.regEntry s.remoteInvokeMethods s.memory with
  | .error fault => some (.error fault)
  | .ok (methods, memory) =>
    some (.ok { s with remoteInvokeMethods := methods, memory := memory })

/-- `while(RemoteRegistryHealthCheck());` of the main loop. -/
def remoteRegistryHealthChecks (now : ℤ) (s : HeapProxy) : Option HeapProxy := do
  let (methods, memory) ← healthChecks Proxy.remoteTtl now s.remoteInvokeMethods s.memory
  some { s with remoteInvokeMethods := methods, memory := memory }

/-- `while(LocalRegistryHealthCheck());` of the main loop. -/
def localRegistryHealthChecks (now : ℤ) (s : HeapProxy) : Option HeapProxy := do
  let (methods, memory) ← healthChecks Proxy.localTtl now s.localInvokeMethods s.memory
  some { s with localInvokeMethods := methods, memory := memory }

/-- Change the iteration order of the hash maps. -/
def rehash (orders : Orders) (s : HeapProxy) : HeapProxy where
  rest := s.rest.rehash orders
  localInvokeMethods := s.localInvokeMethods.reorder orders.localInvokeMethods
  remoteInvokeMethods := s.remoteInvokeMethods.reorder orders.remoteInvokeMethods
  memory := s.memory

/-- An input that does not use the registries. -/
def execRest (i : Input) (s : HeapProxy) : Except Fault (HeapProxy × Output) :=
  match s.rest.exec i with
  | .ok (rest, out) => .ok ({ s with rest := rest }, out)
  | .error fault => .error fault

/-- `Proxy::SubscriberCallback`, for the commands that use the registries. -/
def subscriberCallback (now : ℤ) (rand : ℕ) (cmdReq : Command) (key : Bytes) (s : HeapProxy) :
    Option (Except Fault (HeapProxy × Output)) :=
  let s₁ : HeapProxy := { s with rest := s.rest.markActive now key }
  match cmdReq.cmd with
  | .registerInvoke => do
    let (s', frames) ← s₁.registerInvoke A now cmdReq
    some (.ok (s', { frames := frames }))
  | .invoke => do
    let (s', frames) ← s₁.invoke now rand cmdReq
    some (.ok (s', { frames := frames }))
  | .registryExchangeRequest => do
    let frames ← s₁.registryExchangeResponder cmdReq
    some (.ok (s₁, { frames := frames }))
  | .registryExchangeResponse => do
    match ← s₁.remoteRegistryUpdate A now cmdReq with
    | .ok s' => some (.ok (s', {}))
    | .error fault => some (.error fault)
  | _ => some (s.execRest (.command now rand cmdReq key))

/-- Execute one call of the main loop; `none` when it uses a pointer to no block. -/
def exec (s : HeapProxy) : Input → Option (Except Fault (HeapProxy × Output))
  | .command now rand cmdReq key => s.subscriberCallback A now rand cmdReq key
  | .remoteRegistryHealthChecks now => do
    let s' ← s.remoteRegistryHealthChecks now
    some (.ok (s', {}))
  | .localRegistryHealthChecks now => do
    let s' ← s.localRegistryHealthChecks now
    some (.ok (s', {}))
  | .rehash orders => some (.ok (s.rehash orders, {}))
  | i => some (s.execRest i)

/-- A step of a proxy on the heap. -/
def Step (s : HeapProxy) (i : Input) (out : Output) (s' : HeapProxy) : Prop :=
  s.exec A i = some (.ok (s', out))

/-- A run of a proxy on the heap, from its construction. -/
abbrev Run (config : Config) (h : List (Transition HeapProxy Input Output)) (s : HeapProxy) :
    Prop :=
  Trace (Step A) (init config) h s

/-- Execute a list of inputs on a new proxy. -/
def execute (config : Config) (inputs : List Input) :
    Option (List (Transition HeapProxy Input Output) × HeapProxy) :=
  Foundation.execute (fun s i => (s.exec A i).bind Except.toOption) (init config) inputs

theorem run_execute {config : Config} {inputs : List Input}
    {h : List (Transition HeapProxy Input Output)} {s : HeapProxy}
    (hrun : execute A config inputs = some (h, s)) : Run A config h s := by
  refine trace_execute (fun s i out s' hexec => ?_) hrun
  obtain ⟨r, hr, hok⟩ := Option.bind_eq_some_iff.mp hexec
  cases r with
  | error fault => simp [Except.toOption] at hok
  | ok result =>
    obtain rfl : result = (s', out) := by simpa [Except.toOption] using hok
    exact hr

end HeapProxy

end EsbProxy
