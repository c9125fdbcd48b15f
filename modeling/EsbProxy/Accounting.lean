import EsbProxy.Net
import EsbProxy.PendingEffects
import EsbProxy.Publications

/-!
# Accounting for messages in a network

A question about how often something is published in a run of a network, whatever the
interleaving, is settled by an account: every command that a client node sends earns a number of
tokens, which are held by the frames in flight and by the proxies, and are spent when something
is published. If handling one input never spends more than the input brings and the proxy holds,
then a run spends at most what the nodes sent (`Net.Run.sum_spent_le`).

## Main definitions

* `Net.Sound`: the guids in the frames and tables of a network are complete.
* `Pays`: an input of a proxy spends no more than there is.

## Main results

* `Net.Run.sound`, `Net.Run.sum_spent_le`.
-/

namespace EsbProxy

open Foundation

variable {ι : Type*} [DecidableEq ι] {roster : Roster ι}

namespace Net

variable {net net' : Net ι} {act : Action ι} {frames : List Frame}
  {h : List (Transition (Net ι) (Action ι) (List Frame))}

variable (roster) in
/-- What holds in every reachable state of a network: proxies keep their guids, sources and
callers have all their bytes, and what is on the air are events that a proxy has published. -/
structure Sound (net : Net ι) : Prop where
  guid : ∀ a, (net.proxy a).guid = (roster.config a).guid
  length_wire : ∀ f ∈ net.wire, f.command.sourceProxyGuid.length = GUID_SIZE
  length_aired : ∀ f ∈ net.aired, f.command.sourceProxyGuid.length = GUID_SIZE
  event : ∀ f ∈ net.aired, f.command.cmd = .publish ∧ f.command.recursion = 1
  length_pending : ∀ a g source, (net.proxy a).invokeResponses.lookup g = some source →
    source.length = GUID_SIZE

/-- The input brings a command from the network only if its source is complete. -/
def SourceComplete (i : Input) : Prop :=
  ∀ now rand cmdReq key, i = .command now rand cmdReq key →
    cmdReq.sourceProxyGuid.length = GUID_SIZE

/-- A pending caller after an input was pending before, or is the source of the input. -/
theorem length_pending_of_step {s s' : Proxy} {i : Input} {out : Output}
    (hstep : Proxy.Step s i out s') (hsource : SourceComplete i)
    (hs : ∀ g source, s.invokeResponses.lookup g = some source → source.length = GUID_SIZE)
    (g source : Bytes) (hpending : s'.invokeResponses.lookup g = some source) :
    source.length = GUID_SIZE := by
  have heffect := hstep.pendingEffect
  generalize out.frames = published at heffect
  cases heffect with
  | quiet same => exact hs g source ((same g).1 ▸ hpending)
  | ponged call same => exact hs g source ((same g).1 ▸ hpending)
  | refused same => exact hs g source ((same g).1 ▸ hpending)
  | @routed now rand cmdReq key _ call entry after =>
    rw [(after g).1, Proxy.lookup_await] at hpending
    split_ifs at hpending
    · cases hold : s.invokeResponses.lookup cmdReq.guidFrom with
      | none =>
        rw [hold, Option.getD_none, Option.some_inj] at hpending
        exact hpending ▸ hsource now rand cmdReq key rfl
      | some source₀ =>
        rw [hold, Option.getD_some, Option.some_inj] at hpending
        exact hpending ▸ hs _ source₀ hold
    · exact hs g source hpending
  | relayed reply targetNode found after =>
    rw [(after g).1, Proxy.lookup_settle] at hpending
    split_ifs at hpending
    exact hs g source hpending
  | cleaned silent kept =>
    obtain ⟨hr, -⟩ | ⟨hr, -⟩ := kept g
    · exact hs g source (hr ▸ hpending)
    · rw [hr] at hpending
      simp at hpending

/-- What a proxy publishes keeps a network sound. -/
theorem Sound.commit (hs : Sound roster net) {a : ι} {i : Input} {s' : Proxy} {out : Output}
    (hstep : (net.proxy a).Step i out s') (hsource : SourceComplete i) :
    Sound roster (net.commit a s' out) := by
  have hpublished := hstep.published
  have hguid : (net.proxy a).guid.length = GUID_SIZE := by
    rw [hs.guid a, (roster.config a).length_guid]
  constructor
  · intro b
    rw [commit_proxy]
    split_ifs
    · subst b
      rw [hstep.sameIdentity.1.guid, hs.guid a]
    · exact hs.guid b
  · intro f hf
    rcases List.mem_append.mp hf with hf | hf
    · exact hs.length_wire f hf
    · rw [(hpublished f (List.mem_of_mem_filter hf)).1, hguid]
  · intro f hf
    rcases List.mem_append.mp hf with hf | hf
    · exact hs.length_aired f hf
    · rw [(hpublished f (List.mem_of_mem_filter hf)).1, hguid]
  · intro f hf
    rcases List.mem_append.mp hf with hf | hf
    · exact hs.event f hf
    · obtain ⟨hmem, hcmd⟩ := List.mem_filter.mp hf
      have hcmd : f.command.cmd = .publish := by simpa using hcmd
      exact ⟨hcmd, (hpublished f hmem).2 hcmd⟩
  · intro b g source hpending
    rw [commit_proxy] at hpending
    split_ifs at hpending
    · exact length_pending_of_step hstep hsource (hs.length_pending a) g source hpending
    · exact hs.length_pending b g source hpending

theorem Step.sound (hstep : Step roster net act frames net') (hs : Sound roster net) :
    Sound roster net' := by
  have erased : ∀ f : Frame, Sound roster { net with wire := net.wire.erase f } := fun f =>
    ⟨hs.guid, fun f' hf' => hs.length_wire f' (List.mem_of_mem_erase hf'),
      hs.length_aired, hs.event, hs.length_pending⟩
  cases hstep with
  | start => exact ⟨hs.guid, hs.length_wire, hs.length_aired, hs.event, hs.length_pending⟩
  | stop => exact ⟨hs.guid, hs.length_wire, hs.length_aired, hs.event, hs.length_pending⟩
  | send client =>
    refine ⟨hs.guid, fun f hf => ?_, hs.length_aired, hs.event, hs.length_pending⟩
    rcases List.mem_append.mp hf with hf | hf
    · exact hs.length_wire f hf
    · rw [List.mem_singleton.mp hf, client.source, client.length_node]
  | lose => exact erased _
  | deliver _ inFlight _ handled =>
    refine (erased _).commit handled fun _ _ _ _ heq => ?_
    cases heq
    exact hs.length_wire _ inFlight
  | overhear _ onAir handled =>
    refine hs.commit handled fun _ _ _ _ heq => ?_
    cases heq
    exact hs.length_aired _ onAir
  | housekeep _ housekeeping handled =>
    refine hs.commit handled fun _ _ _ _ heq => ?_
    rw [heq] at housekeeping
    exact housekeeping.elim
  | greet _ handled => exact hs.commit handled fun _ _ _ _ heq => by cases heq
  | pingRedis => exact ⟨hs.guid, hs.length_wire, hs.length_aired, hs.event, hs.length_pending⟩
  | @visit a _ _ _ _ _ rest _ _ _ _ _ handled =>
    have hscan : Sound roster { net with scan := Function.update net.scan a rest } :=
      ⟨hs.guid, hs.length_wire, hs.length_aired, hs.event, hs.length_pending⟩
    exact hscan.commit handled fun _ _ _ _ heq => by cases heq

/-- **Reachable networks are sound.** -/
theorem Run.sound (run : Run roster h net) : Sound roster net := by
  refine Trace.invariant (I := Sound roster) ?_ (fun _ _ _ _ hstep => Step.sound hstep) run
  exact ⟨fun a => rfl, by simp [Net.init], by simp [Net.init], by simp [Net.init],
    fun a g source hpending => by simp [Net.init, Proxy.init] at hpending⟩

/-! ### The account of a run -/

section Account

variable (token : Command → ℕ) (spent : Frame → ℕ) (held : Proxy → ℕ)

/-- The tokens that an input brings. -/
def brought : Input → ℕ
  | .command _ _ cmdReq _ => token cmdReq
  | _ => 0

/-- The tokens that frames carry and cost. -/
def cost (frames : List Frame) : ℕ := (frames.map fun f => token f.command + spent f).sum

/-- The tokens that an action puts into the network. -/
def earned : Action ι → ℕ
  | .send _ _ cmdReq => token cmdReq
  | _ => 0

/-- The tokens in flight. -/
def inFlight (wire : List Frame) : ℕ := (wire.map fun f => token f.command).sum

variable (roster) in
/-- An input of a proxy pays for what it publishes and keeps out of what it brings and the proxy
holds. -/
def Pays : Prop :=
  ∀ (a : ι) (s : Proxy) (i : Input) (out : Output) (s' : Proxy), s.guid = (roster.config a).guid →
    (∀ g source, s.invokeResponses.lookup g = some source → source.length = GUID_SIZE) →
    SourceComplete i → Proxy.Step s i out s' →
    held s' + cost token spent out.frames ≤ held s + brought token i

theorem inFlight_append (wire wire' : List Frame) :
    inFlight token (wire ++ wire') = inFlight token wire + inFlight token wire' := by
  rw [inFlight, List.map_append, List.sum_append]
  rfl

theorem inFlight_erase {wire : List Frame} {f : Frame} (hf : f ∈ wire) :
    inFlight token (wire.erase f) + token f.command = inFlight token wire := by
  rw [inFlight, inFlight, add_comm]
  exact List.sum_map_erase (fun f : Frame => token f.command) hf

/-- Frames cost at least the tokens that some of them carry and what all of them spend. -/
theorem inFlight_filter_add_le_cost (p : Frame → Bool) (frames : List Frame) :
    inFlight token (frames.filter p) + (frames.map spent).sum ≤ cost token spent frames := by
  induction frames with
  | nil => simp [inFlight, cost]
  | cons f frames ih =>
    simp only [inFlight, cost, List.filter_cons, List.map_cons, List.sum_cons] at ih ⊢
    split_ifs
    · simp only [List.map_cons, List.sum_cons]
      omega
    · omega

variable [Fintype ι]

/-- The tokens in flight and those that the proxies hold. -/
def funds (net : Net ι) : ℕ := inFlight token net.wire + ∑ a, held (net.proxy a)

variable {token spent held}

/-- A proxy that pays for an input does so out of the funds of the network. -/
theorem funds_commit_add_le (pays : Pays roster token spent held) (hs : Sound roster net) {a : ι}
    {i : Input} {s' : Proxy} {out : Output} (hstep : (net.proxy a).Step i out s')
    (hsource : SourceComplete i) :
    funds token held (net.commit a s' out) + (out.frames.map spent).sum ≤
      funds token held net + brought token i := by
  have hpays := pays a (net.proxy a) i out s' (hs.guid a) (hs.length_pending a) hsource hstep
  have hheld : ∑ b, held ((net.commit a s' out).proxy b) + held (net.proxy a) =
      ∑ b, held (net.proxy b) + held s' := sum_update_add held net.proxy a s'
  have hwire : inFlight token (net.commit a s' out).wire = inFlight token net.wire +
      inFlight token (out.frames.filter fun f => decide (f.command.cmd ≠ .publish)) :=
    inFlight_append ..
  have hcost := inFlight_filter_add_le_cost token spent
    (fun f => decide (f.command.cmd ≠ .publish)) out.frames
  rw [funds, funds, hwire]
  omega

/-- Every step of a network pays for what is published in it. -/
theorem Step.funds_add_le (pays : Pays roster token spent held)
    (event : ∀ c : Command, c.cmd = .publish → c.recursion = 1 → token c = 0)
    (hstep : Step roster net act frames net') (hs : Sound roster net) :
    funds token held net' + (frames.map spent).sum ≤
      funds token held net + earned token act := by
  have erased : ∀ f ∈ net.wire, funds token held { net with wire := net.wire.erase f } +
      token f.command = funds token held net := by
    intro f hf
    have herase := inFlight_erase token hf
    simp only [funds]
    omega
  cases hstep with
  | start => exact le_rfl
  | stop => exact le_rfl
  | @send node a cmdReq client =>
    simp only [funds, inFlight_append, earned, List.map_nil, List.sum_nil]
    simp only [inFlight, List.map_cons, List.map_nil, List.sum_cons, List.sum_nil]
    omega
  | @lose f inFlight =>
    have := erased f inFlight
    simp only [List.map_nil, List.sum_nil, earned]
    omega
  | @deliver a f now rand key s' out running inFlight addressed handled =>
    have hsource : SourceComplete (.command now rand f.command key) := by
      rintro _ _ _ _ ⟨⟩
      exact hs.length_wire f inFlight
    have hsound : Sound roster { net with wire := net.wire.erase f } :=
      ⟨hs.guid, fun f' hf' => hs.length_wire f' (List.mem_of_mem_erase hf'), hs.length_aired,
        hs.event, hs.length_pending⟩
    have hcommit := funds_commit_add_le pays hsound handled hsource
    have := erased f inFlight
    simp only [brought, earned] at hcommit ⊢
    omega
  | @overhear a f now rand key s' out running onAir handled =>
    have hsource : SourceComplete (.command now rand f.command key) := by
      rintro _ _ _ _ ⟨⟩
      exact hs.length_aired f onAir
    have hcommit := funds_commit_add_le pays hs handled hsource
    obtain ⟨hcmd, hrecursion⟩ := hs.event f onAir
    rw [brought, event f.command hcmd hrecursion] at hcommit
    simpa only [earned] using hcommit
  | @housekeep a i s' out running housekeeping handled =>
    have hbrought : brought token i = 0 := by
      cases i with
      | command => exact housekeeping.elim
      | _ => rfl
    have hcommit := funds_commit_add_le pays hs handled fun _ _ _ _ heq => by
      rw [heq] at housekeeping
      exact housekeeping.elim
    simpa only [earned, hbrought] using hcommit
  | greet running handled =>
    exact funds_commit_add_le pays hs handled fun _ _ _ _ heq => by cases heq
  | pingRedis => exact le_rfl
  | @visit a _ _ _ _ _ rest _ _ _ _ _ handled =>
    have hscan : Sound roster { net with scan := Function.update net.scan a rest } :=
      ⟨hs.guid, hs.length_wire, hs.length_aired, hs.event, hs.length_pending⟩
    exact funds_commit_add_le pays hscan handled fun _ _ _ _ heq => by cases heq

/-- **Account of a run.** If every input of a proxy pays for what it publishes, a run of a network
spends no more than what the nodes sent. -/
theorem Run.sum_spent_le (pays : Pays roster token spent held)
    (event : ∀ c : Command, c.cmd = .publish → c.recursion = 1 → token c = 0)
    (empty : ∀ a, held (Proxy.init (roster.config a)) = 0) (run : Run roster h net) :
    (h.map fun t => (t.out.map spent).sum).sum ≤ (h.map fun t => earned token t.action).sum := by
  have hbudget := Trace.sum_spent_le (P := fun t => Sound roster t.pre)
    (funds token held) (fun t => (t.out.map spent).sum) (fun t => earned token t.action)
    (fun t hstep hs => hstep.funds_add_le pays event hs) run fun t ht => by
      obtain ⟨h₁, h₂, rfl⟩ := List.append_of_mem ht
      exact Run.sound run.split_cons.1
  have hinit : funds token held (init roster) = 0 := by
    simp [funds, inFlight, Net.init, empty]
  omega

end Account

end Net

end EsbProxy
