import EsbProxy.PendingEffects

/-!
# Pending calls over a run

What the two pending maps of a proxy hold is explained by the history of its run: a call enters
both of them when an `INVOKE` is routed, unless it is pending already, and leaves both when a
reply is relayed or a clean-up finds it too old.

## Main definitions

* `RoutesCall`, `Removes`: what a transition of a run does to a call.
* `HandlesReply`: a transition handles a `RESPONSE` or `ERROR_RESPONSE` to a call.

## Main results

* `Proxy.Run.keysAgree`: both maps have the same keys.
* `Proxy.Run.exists_routesCall`: a pending call is the earliest one routed since the guid was
  last removed.
* `pending_calls`: together with the fate of its replies.
-/

namespace EsbProxy

open Foundation

variable {config : Config} {h h₁ h₂ : List (Transition Proxy Input Output)} {s s' : Proxy}
  {t u : Transition Proxy Input Output} {i : Input} {out : Output} {g : Bytes}

/-! ### Both maps have the same keys -/

/-- The two pending maps have the same keys. -/
def Proxy.KeysAgree (s : Proxy) : Prop :=
  ∀ g, (s.invokeResponses.lookup g).isSome = (s.invokeResponsesCallTime.lookup g).isSome

theorem Proxy.Step.keysAgree (hstep : Proxy.Step s i out s') (hkeys : s.KeysAgree) :
    s'.KeysAgree := by
  intro g
  have hg := hkeys g
  have heffect := hstep.pendingEffect
  generalize out.frames = frames at heffect
  cases heffect with
  | quiet same => rw [(same g).1, (same g).2, hg]
  | ponged call same => rw [(same g).1, (same g).2, hg]
  | refused same => rw [(same g).1, (same g).2, hg]
  | routed call entry after =>
    rw [(after g).1, (after g).2, lookup_await, lookup_await_callTime]
    split_ifs
    · rfl
    · exact hg
  | relayed reply targetNode found after =>
    rw [(after g).1, (after g).2, lookup_settle, lookup_settle_callTime]
    split_ifs
    · rfl
    · exact hg
  | cleaned silent kept =>
    obtain ⟨hr, ht⟩ | ⟨hr, ht, -⟩ := kept g
    · rw [hr, ht, hg]
    · rw [hr, ht]
      rfl

/-- **Same keys.** In every state that a run reaches, a call is in one of the pending maps
exactly when it is in the other. -/
theorem Proxy.Run.keysAgree (run : Proxy.Run config h s) : s.KeysAgree :=
  Trace.invariant (I := Proxy.KeysAgree) (fun _ => rfl)
    (fun _ _ _ _ hstep => Proxy.Step.keysAgree hstep) run

theorem Proxy.Run.keysAgree_pre (run : Proxy.Run config h s) (ht : t ∈ h) :
    t.pre.KeysAgree := by
  obtain ⟨h₁, h₂, rfl⟩ := List.append_of_mem ht
  exact Proxy.Run.keysAgree run.split_cons.1

/-! ### The content of a pending call -/

/-- The caller and the time of a pending call. -/
def pendingCall (g : Bytes) (s : Proxy) : Option (Bytes × ℤ) :=
  (s.invokeResponses.lookup g).bind fun source =>
    (s.invokeResponsesCallTime.lookup g).map fun time => (source, time)

theorem pendingCall_eq_some {source : Bytes} {time : ℤ} :
    pendingCall g s = some (source, time) ↔ s.invokeResponses.lookup g = some source ∧
      s.invokeResponsesCallTime.lookup g = some time := by
  simp [pendingCall, Option.bind_eq_some_iff]

theorem pendingCall_eq_none (hkeys : s.KeysAgree) :
    pendingCall g s = none ↔ s.invokeResponses.lookup g = none := by
  have hg := hkeys g
  cases hr : s.invokeResponses.lookup g with
  | none => simp [pendingCall, hr]
  | some source =>
    obtain ⟨time, htime⟩ := Option.isSome_iff_exists.mp (by simpa [hr] using hg.symm)
    simp [pendingCall, hr, htime]

theorem SamePending.pendingCall_eq (same : SamePending s s') (g : Bytes) :
    pendingCall g s' = pendingCall g s := by
  rw [pendingCall, (same g).1, (same g).2, pendingCall]

theorem pendingCall_settle (g g' : Bytes) (s : Proxy) :
    pendingCall g' (s.settle g) = if g' = g then none else pendingCall g' s := by
  rw [pendingCall, Proxy.lookup_settle, Proxy.lookup_settle_callTime]
  split_ifs <;> rfl

/-- A call that is awaited keeps what is pending of it already. -/
theorem pendingCall_await (hkeys : s.KeysAgree) (now : ℤ) (cmdReq : Command) (g : Bytes) :
    pendingCall g (s.await now cmdReq) =
      if g = cmdReq.guidFrom then
        some ((pendingCall g s).getD (cmdReq.sourceProxyGuid, int32 now))
      else pendingCall g s := by
  rw [pendingCall, Proxy.lookup_await, Proxy.lookup_await_callTime]
  split_ifs with hg
  · subst hg
    have hnone := pendingCall_eq_none (g := cmdReq.guidFrom) hkeys
    cases hcall : pendingCall cmdReq.guidFrom s with
    | none =>
      have hr := hnone.mp hcall
      have ht : s.invokeResponsesCallTime.lookup cmdReq.guidFrom = none := by
        have hg := hkeys cmdReq.guidFrom
        rw [hr] at hg
        exact Option.isSome_eq_false_iff.mp hg.symm |> Option.isNone_iff_eq_none.mp
      rw [hr, ht]
      rfl
    | some call =>
      obtain ⟨hr, ht⟩ := pendingCall_eq_some.mp hcall
      rw [hr, ht]
      rfl
  · rfl

/-- **What an input does to one pending call.** It stays what it is, except that an `INVOKE`
makes its guid pending, and a relayed reply or a clean-up removes it. -/
theorem Proxy.Step.pendingCall_cases (hstep : Proxy.Step s i out s') (hkeys : s.KeysAgree)
    (g : Bytes) :
    pendingCall g s' = pendingCall g s ∨
      (∃ now rand cmdReq key, i = .command now rand cmdReq key ∧ cmdReq.cmd = .invoke ∧
        cmdReq.guidFrom = g ∧ (∃ f ∈ out.frames, f.command.cmd = .invoke) ∧
        pendingCall g s = none ∧
        pendingCall g s' = some (cmdReq.sourceProxyGuid, int32 now)) ∨
      (∃ now rand cmdReq key, i = .command now rand cmdReq key ∧ cmdReq.IsReply ∧
        cmdReq.guidTo = g ∧ pendingCall g s' = none) ∨
      ∃ now source time, i = .cleanUpResponsesMap now ∧ pendingCall g s = some (source, time) ∧
        int32 (int32 now - time) > 3 ∧ pendingCall g s' = none := by
  have heffect := hstep.pendingEffect
  generalize hframes : out.frames = frames at heffect
  cases heffect with
  | quiet same => exact .inl (same.pendingCall_eq g)
  | ponged call same => exact .inl (same.pendingCall_eq g)
  | refused same => exact .inl (same.pendingCall_eq g)
  | @routed now rand cmdReq key _ call entry after =>
    have hpost := after.pendingCall_eq g
    rw [pendingCall_await hkeys] at hpost
    split_ifs at hpost with hg
    · cases hcall : pendingCall g s with
      | none =>
        refine .inr (.inl ⟨now, rand, cmdReq, key, rfl, call, hg.symm, ?_, rfl, ?_⟩)
        · exact ⟨_, List.mem_singleton_self _, rfl⟩
        · rw [hpost, hcall, Option.getD_none]
      | some v => exact .inl (by rw [hpost, hcall, Option.getD_some])
    · exact .inl hpost
  | @relayed now rand cmdReq key _ reply targetNode found after =>
    have hpost := after.pendingCall_eq g
    rw [pendingCall_settle] at hpost
    split_ifs at hpost with hg
    · exact .inr (.inr (.inl ⟨now, rand, cmdReq, key, rfl, reply, hg.symm, hpost⟩))
    · exact .inl hpost
  | @cleaned now _ _ silent kept =>
    obtain ⟨hr, ht⟩ | ⟨hr, ht, time, htime, hold⟩ := kept g
    · exact .inl (by rw [pendingCall, hr, ht, pendingCall])
    · obtain ⟨source, hsource⟩ := Option.isSome_iff_exists.mp
        ((hkeys g).trans (by rw [htime, Option.isSome_some]))
      exact .inr (.inr (.inr ⟨now, source, time, rfl,
        pendingCall_eq_some.mpr ⟨hsource, htime⟩, hold, by rw [pendingCall, hr, Option.bind_none]⟩))

/-! ### Where a pending call comes from -/

/-- The transition routes an `INVOKE` with guid `g` that was received from `source` at `time`. -/
def RoutesCall (t : Transition Proxy Input Output) (g source : Bytes) (time : ℤ) : Prop :=
  ∃ rand cmdReq key, t.action = .command time rand cmdReq key ∧ cmdReq.cmd = .invoke ∧
    cmdReq.guidFrom = g ∧ cmdReq.sourceProxyGuid = source ∧
    ∃ f ∈ t.out.frames, f.command.cmd = .invoke

/-- The transition removes the call `g` from both pending maps. -/
def Removes (t : Transition Proxy Input Output) (g : Bytes) : Prop :=
  (g ∈ t.pre.invokeResponses ∧ g ∈ t.pre.invokeResponsesCallTime) ∧
    g ∉ t.post.invokeResponses ∧ g ∉ t.post.invokeResponsesCallTime

/-- The transition handles a reply to the call `g`. -/
def HandlesReply (t : Transition Proxy Input Output) (g : Bytes) : Prop :=
  ∃ now rand cmdReq key, t.action = .command now rand cmdReq key ∧ cmdReq.IsReply ∧
    cmdReq.guidTo = g

/-- A routed call is pending afterwards. -/
theorem RoutesCall.pendingCall_post {source : Bytes} {time : ℤ}
    (hroute : RoutesCall t g source time) (hstep : Proxy.Step t.pre t.action t.out t.post)
    (hkeys : t.pre.KeysAgree) :
    pendingCall g t.post = some ((pendingCall g t.pre).getD (source, int32 time)) := by
  obtain ⟨rand, cmdReq, key, haction, hcmd, rfl, rfl, f, hf, hinvoke⟩ := hroute
  rw [haction] at hstep
  have heffect := hstep.pendingEffect
  generalize t.out.frames = frames at hf heffect
  cases heffect with
  | quiet same notRouted => exact absurd hinvoke (notRouted f hf)
  | ponged call => simp [call] at hcmd
  | refused same reply => simp [Command.IsReply, hcmd] at reply
  | routed call entry after =>
    rw [after.pendingCall_eq, pendingCall_await hkeys, if_pos rfl]
  | relayed reply => simp [Command.IsReply, hcmd] at reply

/-- A guid is pending when either map, and so both, holds it. -/
theorem pendingCall_eq_none_iff_notMem (hkeys : s.KeysAgree) :
    pendingCall g s = none ↔ g ∉ s.invokeResponses ∧ g ∉ s.invokeResponsesCallTime := by
  have hg := hkeys g
  rw [pendingCall_eq_none hkeys, ← AList.lookup_eq_none, ← AList.lookup_eq_none]
  refine ⟨fun hr => ⟨hr, ?_⟩, And.left⟩
  rw [hr] at hg
  simpa using hg.symm

theorem removes_iff (hpre : t.pre.KeysAgree) (hpost : t.post.KeysAgree) :
    Removes t g ↔ pendingCall g t.pre ≠ none ∧ pendingCall g t.post = none := by
  have hmem : g ∈ t.pre.invokeResponses ↔ g ∈ t.pre.invokeResponsesCallTime := by
    rw [← AList.lookup_isSome, ← AList.lookup_isSome, hpre g]
  rw [Removes, Ne, pendingCall_eq_none_iff_notMem hpre, pendingCall_eq_none_iff_notMem hpost,
    hmem, and_self, and_self, not_not]

/-- No input overwrites a pending call. -/
theorem Proxy.Step.keeps (hstep : Proxy.Step s i out s') (hkeys : s.KeysAgree) (g : Bytes) :
    Trace.Keeps (pendingCall g) (⟨s, i, out, s'⟩ : Transition Proxy Input Output) := by
  intro v hv
  rcases hstep.pendingCall_cases hkeys g with
    hsame | ⟨_, _, _, _, -, -, -, -, hnone, -⟩ | ⟨_, _, _, _, -, -, -, hpost⟩ |
      ⟨_, _, _, -, -, -, hpost⟩
  · exact .inl (hsame.trans hv)
  · exact absurd (hnone.symm.trans hv) (by simp)
  · exact .inr hpost
  · exact .inr hpost

/-- The clock values of a run are those of a nonnegative 32-bit `int`. -/
def ClocksInRange (h : List (Transition Proxy Input Output)) : Prop :=
  ∀ t ∈ h, ∀ now, t.action.clock = some now → 0 ≤ now ∧ now < 2 ^ 31

theorem clocksInRange_of_clocks (hclocks : ∀ now ∈ clocks h, 0 ≤ now ∧ now < 2 ^ 31) :
    ClocksInRange h :=
  fun t ht now hnow => hclocks now (List.mem_filterMap.mpr ⟨t, ht, hnow⟩)

theorem ClocksInRange.int32_eq {now : ℤ} (clocks : ClocksInRange h) (ht : t ∈ h)
    (hclock : t.action.clock = some now) : int32 now = now := by
  obtain ⟨hlower, hupper⟩ := clocks t ht now hclock
  exact int32_eq_self (by omega) hupper

/-- **Origin of a pending call.** A pending call is that of the earliest `INVOKE` with its guid
that was routed since the guid was last removed: some `INVOKE` was routed from that caller at
that time, the guid was not removed after it, and it was removed after every earlier one. -/
theorem Proxy.Run.exists_routesCall (run : Proxy.Run config h s) (clocks : ClocksInRange h)
    {source : Bytes} {time : ℤ} (hpending : pendingCall g s = some (source, time)) :
    ∃ h₁ t h₂, h = h₁ ++ t :: h₂ ∧ RoutesCall t g source time ∧ (∀ u ∈ h₂, ¬ Removes u g) ∧
      ∀ h₃ u h₄ source' time', h₁ = h₃ ++ u :: h₄ → RoutesCall u g source' time' →
        ∃ v ∈ h₄, Removes v g := by
  have keeps : ∀ t ∈ h, Trace.Keeps (pendingCall g) t := fun t ht =>
    (run.step_of_mem ht).keeps (Proxy.Run.keysAgree_pre run ht) g
  obtain ⟨h₁, t, h₂, rfl, hpre, hpost, hkept⟩ :=
    Trace.exists_fill (pendingCall g) run keeps rfl hpending
  obtain ⟨before, hstep, after⟩ := run.split_cons
  have hkeys : t.pre.KeysAgree := Proxy.Run.keysAgree before
  refine ⟨h₁, t, h₂, rfl, ?_, fun u hu hremoves => ?_, ?_⟩
  · rcases hstep.pendingCall_cases hkeys g with
      hsame | ⟨now, rand, cmdReq, key, haction, hcmd, hg, hinvoke, -, hfill⟩ |
        ⟨_, _, _, _, -, -, -, hnone⟩ | ⟨_, _, _, -, -, -, hnone⟩
    · exact absurd (hpost.symm.trans (hsame.trans hpre)) (by simp)
    · obtain ⟨rfl, rfl⟩ : source = cmdReq.sourceProxyGuid ∧ time = int32 now := by
        simpa using hpost.symm.trans hfill
      rw [clocks.int32_eq (t := t) (by simp) (by rw [haction, Input.clock])]
      exact ⟨rand, cmdReq, key, haction, hcmd, hg, rfl, hinvoke⟩
    · exact absurd (hpost.symm.trans hnone) (by simp)
    · exact absurd (hpost.symm.trans hnone) (by simp)
  · have hmem : u ∈ h₁ ++ t :: h₂ := by simp [hu]
    have hupre := Proxy.Run.keysAgree_pre run hmem
    have hupost := (run.step_of_mem hmem).keysAgree hupre
    exact absurd ((removes_iff hupre hupost).mp hremoves).2 (by simp [(hkept u hu).2])
  · rintro h₃ u h₄ source' time' rfl hroute
    obtain ⟨before', hstep', between⟩ := before.split_cons
    have hupre : u.pre.KeysAgree := Proxy.Run.keysAgree before'
    have hfull : pendingCall g u.post ≠ none := by
      rw [hroute.pendingCall_post hstep' hupre]
      simp
    obtain ⟨v, hv, hvpre, hvpost⟩ := Trace.exists_empty (pendingCall g) between hfull hpre
    have hmem : v ∈ (h₃ ++ u :: h₄) ++ t :: h₂ := by simp [hv]
    have hkeysPre := Proxy.Run.keysAgree_pre run hmem
    have hkeysPost := (run.step_of_mem hmem).keysAgree hkeysPre
    exact ⟨v, hv, (removes_iff hkeysPre hkeysPost).mpr ⟨hvpre, hvpost⟩⟩

/-! ### The fate of replies -/

/-- A transition does not end a pending call of time `time`: it handles no reply to it, and no
clean-up later than three seconds after it. -/
def Spares (g : Bytes) (time : ℤ) (t : Transition Proxy Input Output) : Prop :=
  ¬ HandlesReply t g ∧ ∀ now, t.action = .cleanUpResponsesMap now → now ≤ time + 3

/-- A call stays pending as long as it is spared. -/
theorem pendingCall_of_spares {source : Bytes} {time : ℤ}
    (hstep : Proxy.Step t.pre t.action t.out t.post) (hkeys : t.pre.KeysAgree)
    (hclock : ∀ now, t.action.clock = some now → 0 ≤ now ∧ now < 2 ^ 31)
    (htime : 0 ≤ time ∧ time < 2 ^ 31) (hspares : Spares g time t)
    (hcall : pendingCall g t.pre = some (source, time)) :
    pendingCall g t.post = some (source, time) := by
  obtain ⟨hreply, hcleanUp⟩ := hspares
  rcases hstep.pendingCall_cases hkeys g with
    hsame | ⟨_, _, _, _, -, -, -, -, hnone, -⟩ | ⟨now, rand, cmdReq, key, haction, his, hg, -⟩ |
      ⟨now, source', time', haction, hold, hage, -⟩
  · exact hsame.trans hcall
  · exact absurd (hnone.symm.trans hcall) (by simp)
  · exact absurd ⟨now, rand, cmdReq, key, haction, his, hg⟩ hreply
  · -- a clean-up in time does not find the call too old
    obtain ⟨rfl, rfl⟩ : source' = source ∧ time' = time := by simpa using hold.symm.trans hcall
    have hle := hcleanUp now haction
    obtain ⟨hlower, hupper⟩ := hclock now (by rw [haction, Input.clock])
    rw [int32_eq_self (by omega) hupper, int32_eq_self (by omega) (by omega)] at hage
    omega

/-- A guid stays free as long as no call with it is routed. -/
theorem pendingCall_eq_none_of_not_routesCall
    (hstep : Proxy.Step t.pre t.action t.out t.post) (hkeys : t.pre.KeysAgree)
    (hroutes : ∀ source time, ¬ RoutesCall t g source time)
    (hnone : pendingCall g t.pre = none) : pendingCall g t.post = none := by
  rcases hstep.pendingCall_cases hkeys g with
    hsame | ⟨now, rand, cmdReq, key, haction, hcmd, hg, hinvoke, -⟩ |
      ⟨_, _, _, _, -, -, -, hpost⟩ | ⟨_, _, _, -, -, -, hpost⟩
  · exact hsame.trans hnone
  · exact absurd ⟨rand, cmdReq, key, haction, hcmd, hg, rfl, hinvoke⟩
      (hroutes cmdReq.sourceProxyGuid now)
  · exact hpost
  · exact hpost

/-- A reply to no pending call is refused. -/
theorem Proxy.Step.refuses {now : ℤ} {rand : ℕ} {cmdReq : Command} {key : Bytes}
    (hstep : Proxy.Step s (.command now rand cmdReq key) out s') (hreply : cmdReq.IsReply)
    (hmissing : s.invokeResponses.lookup cmdReq.guidTo = none) :
    out.frames = [publish key (s.callbackNotFound cmdReq)] := by
  have heffect := hstep.pendingEffect
  generalize out.frames = frames at heffect
  cases heffect with
  | quiet _ _ _ notRelayed => exact absurd hreply (notRelayed now rand cmdReq key rfl)
  | ponged call => simp [Command.IsReply, call] at hreply
  | refused => rfl
  | routed call => simp [Command.IsReply, call] at hreply
  | relayed reply targetNode found => exact absurd (found.symm.trans hmissing) (by simp)

/-- A call that was routed while its guid was free is pending until something ends it. -/
theorem pendingCall_of_forall_spares (run : Proxy.Run config (h₁ ++ t :: h₂) s)
    (clocks : ClocksInRange (h₁ ++ t :: h₂)) {source : Bytes} {time : ℤ}
    (hroute : RoutesCall t g source time) (hfree : pendingCall g t.pre = none)
    (spares : ∀ v ∈ h₂, Spares g time v) : pendingCall g s = some (source, time) := by
  obtain ⟨before, hstep, after⟩ := run.split_cons
  have hkeys : t.pre.KeysAgree := Proxy.Run.keysAgree before
  obtain ⟨rand, cmdReq, key, haction, -⟩ := id hroute
  have hclock : t.action.clock = some time := by rw [haction, Input.clock]
  have htime := clocks t (by simp) time hclock
  have hfill : pendingCall g t.post = some (source, time) := by
    rw [hroute.pendingCall_post hstep hkeys, hfree, Option.getD_none,
      clocks.int32_eq (by simp) hclock]
  refine (Trace.invariant_of_forall
    (I := fun s : Proxy => s.KeysAgree ∧ pendingCall g s = some (source, time))
    (P := fun v => v ∈ h₂) ⟨hstep.keysAgree hkeys, hfill⟩ ?_ after fun v hv => hv).2
  rintro v hvstep hv ⟨hvkeys, hvcall⟩
  exact ⟨hvstep.keysAgree hvkeys, pendingCall_of_spares hvstep hvkeys
    (clocks v (by simp [hv])) htime (spares v hv) hvcall⟩

/-- **The law of the pending maps** for a run `h` that reached `s`. -/
structure PendingLaw (h : List (Transition Proxy Input Output)) (s : Proxy) : Prop where
  /-- Both maps have the same keys. -/
  sameKeys : ∀ g, g ∈ s.invokeResponses ↔ g ∈ s.invokeResponsesCallTime
  /-- The stored source and time of `g` are those of one `INVOKE`, the earliest one routed since
  `g` was last removed: `g` was not removed after it, and was removed after every earlier one. -/
  origin : ∀ g source time, s.invokeResponses.lookup g = some source →
    s.invokeResponsesCallTime.lookup g = some time →
    ∃ h₁ t h₂, h = h₁ ++ t :: h₂ ∧ RoutesCall t g source time ∧ (∀ u ∈ h₂, ¬ Removes u g) ∧
      ∀ h₃ u h₄ source' time', h₁ = h₃ ++ u :: h₄ → RoutesCall u g source' time' →
        ∃ v ∈ h₄, Removes v g
  /-- The first reply to a call that was routed while `g` was not pending is published once, to
  the call's source, if no clean-up in between was later than three seconds after the call. Every
  later reply, until `g` is routed again, only causes an `ERROR` towards its sender. -/
  replies : ∀ g source time h₁ t h₂ u h₃, h = h₁ ++ t :: h₂ ++ u :: h₃ →
    RoutesCall t g source time → g ∉ t.pre.invokeResponses → (∀ v ∈ h₂, Spares g time v) →
    ∀ now rand cmdReq key, u.action = .command now rand cmdReq key → cmdReq.IsReply →
      cmdReq.guidTo = g →
      (∃ c, u.out.frames = [publish source c] ∧ c.cmd = cmdReq.cmd ∧
        c.payload = cmdReq.payload ∧ c.guidFrom = cmdReq.guidFrom ∧ c.guidTo = cmdReq.guidTo) ∧
      ∀ h₄ v h₅, h₃ = h₄ ++ v :: h₅ → (∀ w ∈ h₄, ∀ source time, ¬ RoutesCall w g source time) →
        ∀ now' rand' cmdReq' key', v.action = .command now' rand' cmdReq' key' →
          cmdReq'.IsReply → cmdReq'.guidTo = g →
          ∃ c, v.out.frames = [publish key' c] ∧ c.cmd = .error

/-- **Pending calls.** Every run of a proxy, at any clock values that an `int` holds, obeys the
law of the pending maps. -/
theorem pending_calls (run : Proxy.Run config h s) (clocks : ClocksInRange h) :
    PendingLaw h s where
  sameKeys g := by
    rw [← AList.lookup_isSome, ← AList.lookup_isSome, Proxy.Run.keysAgree run g]
  origin g source time hsource htime :=
    Proxy.Run.exists_routesCall run clocks (pendingCall_eq_some.mpr ⟨hsource, htime⟩)
  replies := by
    rintro g source time h₁ t h₂ u h₃ rfl hroute hfree spares now rand cmdReq key haction hreply rfl
    obtain ⟨before, hstep, after⟩ := run.split_cons
    have hcall : pendingCall cmdReq.guidTo u.pre = some (source, time) := by
      refine pendingCall_of_forall_spares before (fun v hv => clocks v (List.mem_append_left _ hv))
        hroute ?_ spares
      rw [pendingCall_eq_none (Proxy.Run.keysAgree before.split_cons.1)]
      exact AList.lookup_eq_none.mpr hfree
    have hkeys : u.pre.KeysAgree := Proxy.Run.keysAgree before
    rw [haction] at hstep
    obtain ⟨hframes, hforgotten, -⟩ := hstep.relays hreply (pendingCall_eq_some.mp hcall).1
    have hsettled : pendingCall cmdReq.guidTo u.post = none :=
      (pendingCall_eq_none (hstep.keysAgree hkeys)).mpr (AList.lookup_eq_none.mpr hforgotten)
    refine ⟨⟨_, hframes, rfl, rfl, rfl, rfl⟩, ?_⟩
    rintro h₄ v h₅ rfl hroutes now' rand' cmdReq' key' haction' hreply' hg'
    obtain ⟨between, hstep', -⟩ := after.split_cons
    obtain ⟨hkeys', hnone⟩ := Trace.invariant_of_forall
      (I := fun s : Proxy => s.KeysAgree ∧ pendingCall cmdReq.guidTo s = none)
      (P := fun w => w ∈ h₄) ⟨hstep.keysAgree hkeys, hsettled⟩
      (fun w hw hmem ⟨hwkeys, hwnone⟩ => ⟨hw.keysAgree hwkeys,
        pendingCall_eq_none_of_not_routesCall hw hwkeys (hroutes w hmem) hwnone⟩)
      between fun w hw => hw
    rw [haction'] at hstep'
    have hmissing := (pendingCall_eq_none hkeys').mp hnone
    exact ⟨_, hstep'.refuses hreply' (hg' ▸ hmissing), rfl⟩

/-- A node registers a method, another node calls it, and the first one replies twice. -/
def twoReplies : List Input :=
  let server := List.replicate GUID_SIZE 83
  let client := List.replicate GUID_SIZE 67
  let registration : Command :=
    { cmd? := some .registerInvoke
      sourceProxyGuid? := some server
      payload? := some (List.replicate GUID_SIZE 77)
      identifier? := some (ascii "add") }
  let call : Command :=
    { cmd? := some .invoke
      sourceProxyGuid? := some client
      payload? := some (ascii "[1,2]")
      identifier? := some (ascii "add")
      guidFrom? := some (ascii "call") }
  let reply : Command :=
    { cmd? := some .response
      sourceProxyGuid? := some server
      payload? := some (ascii "3")
      guidFrom? := some server
      guidTo? := some (ascii "call") }
  [.command 0 0 registration (ascii "tcp://127.0.0.1:7781"),
    .command 1 0 call (ascii "tcp://127.0.0.1:7782"),
    .command 2 0 reply (ascii "tcp://127.0.0.1:7781"),
    .command 3 0 reply (ascii "tcp://127.0.0.1:7781")]

/-- The law on the run of `twoReplies`, in which the first reply goes to the caller and the second
one is refused. -/
theorem pending_calls_twoReplies :
    ∃ h s, Proxy.execute (Config.ofSite .first 7770 7780) twoReplies = some (h, s) ∧
      PendingLaw h s ∧
      h.map (fun t => t.out.frames.map fun f => (f.topic, f.command.cmd)) =
        [[(List.replicate GUID_SIZE 83, .registerInvokeOk)],
          [(List.replicate GUID_SIZE 83, .invoke)],
          [(List.replicate GUID_SIZE 67, .response)],
          [((ascii "tcp://127.0.0.1:7781").take GUID_SIZE, .error)]] := by
  have hsome : (Proxy.execute (Config.ofSite .first 7770 7780) twoReplies).isSome := by decide
  have hrun := (Option.some_get hsome).symm
  refine ⟨_, _, hrun, pending_calls (Proxy.run_execute hrun)
    (clocksInRange_of_clocks ?_), by decide⟩
  rw [clocks_of_execute hrun]
  decide

end EsbProxy
