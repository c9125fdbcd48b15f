import EsbProxy.Discovery

/-!
# Identity of the proxies that answer a hello

A proxy takes the guid under which it enters a connection from the member in Redis, and the
address of the connection from the process that answers its hello at the address of the member.
Neither side compares guids: the hello carries the guid of the member and the reply that of the
process, and both are ignored. So the two agree exactly when no other process has taken over the
address. A stale member, that of a proxy which stopped, is taken for the proxy that has been
started at its address since.

## Main definitions

* `Net.Inserts`: a visit enters a connection.
* `Net.IsListed`, `Net.StartsFresh`: where a member is listed, and starting a proxy at an address
  that no other listed member has.

## Main results

* `identity_agreement`: when the process that answered is the one that the connection names.
-/

namespace EsbProxy

open Foundation

namespace Net

variable {ι : Type*} [DecidableEq ι] {roster : Roster ι} {net net' : Net ι} {act : Action ι}
  {frames : List Frame} {h : List (Transition (Net ι) (Action ι) (List Frame))}
  {t : Transition (Net ι) (Action ι) (List Frame)}

/-! ### Running proxies have addresses of their own -/

variable (roster) in
/-- Two proxies that run have different addresses. -/
def Separate (net : Net ι) : Prop :=
  ∀ b c, net.status b = .running → net.status c = .running →
    (roster.config b).responderAddress = (roster.config c).responderAddress → b = c

/-- A proxy that runs after a step ran before, or the step started it at a free address. -/
theorem Step.running_cases (hstep : Step roster net act frames net') {b : ι}
    (hb : net'.status b = .running) :
    net.status b = .running ∨ act = .start b ∧ AddressFree roster net b := by
  cases hstep with
  | @start a _ free =>
    simp only [Function.update_apply] at hb
    split_ifs at hb with hab
    · exact .inr ⟨by rw [hab], hab ▸ free⟩
    · exact .inl hb
  | @stop a =>
    simp only [Function.update_apply] at hb
    split_ifs at hb
    exact .inl hb
  | _ => exact .inl hb

theorem Step.separate (hstep : Step roster net act frames net') (hs : Separate roster net) :
    Separate roster net' := by
  intro b c hb hc haddress
  obtain hb | ⟨hstartb, hfreeb⟩ := hstep.running_cases hb
  · obtain hc | ⟨-, hfreec⟩ := hstep.running_cases hc
    · exact hs b c hb hc haddress
    · exact absurd haddress (hfreec b hb)
  · obtain hc | ⟨hstartc, -⟩ := hstep.running_cases hc
    · exact absurd haddress.symm (hfreeb c hc)
    · rw [hstartb] at hstartc
      cases hstartc
      rfl

theorem Run.separate (run : Run roster h net) : Separate roster net :=
  Trace.invariant (I := Separate roster) (fun b _ hb => by simp [Net.init] at hb)
    (fun _ _ _ _ hstep => hstep.separate) run

/-! ### Listed members -/

variable (roster) in
/-- The member of the proxy `b` is in Redis, or a discovery loop has yet to visit it. -/
def IsListed (net : Net ι) (b : ι) : Prop :=
  (roster.config b).member ∈ net.redis ∨ ∃ a, (roster.config b).member ∈ net.scan a

variable (roster) in
/-- No listed member of another proxy has the address of `a`. -/
def StartsFresh (net : Net ι) (a : ι) : Prop :=
  ∀ b, IsListed roster net b →
    (roster.config b).responderAddress = (roster.config a).responderAddress → b = a

variable (roster) in
/-- A proxy that runs at the address of a listed member is the one that the member names. -/
def Current (net : Net ι) : Prop :=
  ∀ b c, IsListed roster net b → net.status c = .running →
    (roster.config c).responderAddress = (roster.config b).responderAddress → c = b

omit [DecidableEq ι] in
theorem member_injective : Function.Injective fun a => (roster.config a).member := by
  intro a b hmember
  have hsplit := congrArg (fun m => split (cStr m) hash) hmember
  simp only [Config.split_member, List.cons.injEq] at hsplit
  exact roster.guid_injective hsplit.1

/-- An input of a proxy lists no member. -/
theorem IsListed.of_commit {a b : ι} {i : Input} {s' : Proxy} {out : Output}
    (hb : IsListed roster (net.commit a s' out) b) (hstep : (net.proxy a).Step i out s') :
    IsListed roster net b := by
  obtain hb | hb := hb
  · exact .inl (RedisCommand.mem_of_mem_foldl hstep.redis_zrem hb)
  · exact .inr hb

/-- A member that is listed after a step was listed before, or is that of a running proxy which
added it. -/
theorem Step.listed_cases (hstep : Step roster net act frames net')
    (hidentity : ∀ a, (Proxy.init (roster.config a)).SameIdentity (net.proxy a)) {b : ι}
    (hb : IsListed roster net' b) : IsListed roster net b ∨ net.status b = .running := by
  cases hstep with
  | start => exact .inl hb
  | stop => exact .inl hb
  | send => exact .inl hb
  | lose => exact .inl hb
  | deliver _ _ _ handled => exact .inl (hb.of_commit handled)
  | overhear _ _ handled => exact .inl (hb.of_commit handled)
  | housekeep _ _ handled => exact .inl (hb.of_commit handled)
  | greet _ handled => exact .inl (hb.of_commit handled)
  | @pingRedis a now members running _ _ returned =>
    have hadded : (roster.config b).member ∈
        RedisCommand.apply net.redis (.zadd (int32 now) (net.proxy a).member) →
          IsListed roster net b ∨ net.status b = .running := by
      intro hmem
      rw [RedisCommand.apply, (hidentity a).member_eq] at hmem
      split_ifs at hmem
      · exact .inl (.inl hmem)
      · rcases List.mem_append.mp hmem with hmem | hmem
        · exact .inl (.inl hmem)
        · have hab : b = a := member_injective (List.mem_singleton.mp hmem)
          exact .inr (hab ▸ running)
    obtain hb | ⟨c, hb⟩ := hb
    · exact hadded hb
    · simp only [Function.update_apply] at hb
      split_ifs at hb
      · exact hadded (returned _ hb)
      · exact .inl (.inr ⟨c, hb⟩)
  | @visit a _ _ _ _ member rest _ _ _ next _ handled =>
    left
    obtain hb | ⟨c, hb⟩ := hb.of_commit handled
    · exact .inl hb
    · simp only [Function.update_apply] at hb
      split_ifs at hb
      · exact .inr ⟨a, next ▸ List.mem_cons_of_mem _ hb⟩
      · exact .inr ⟨c, hb⟩

/-- A step keeps the listed members current, if it starts no proxy at the address of another
listed member. -/
theorem Step.current (hstep : Step roster net act frames net') (hs : Current roster net)
    (hidentity : ∀ a, (Proxy.init (roster.config a)).SameIdentity (net.proxy a))
    (hseparate : Separate roster net)
    (fresh : ∀ a, act = .start a → StartsFresh roster net a) : Current roster net' := by
  intro b c hb hc haddress
  obtain hc | ⟨hstart, hfree⟩ := hstep.running_cases hc
  · obtain hb | hb := hstep.listed_cases hidentity hb
    · exact hs b c hb hc haddress
    · exact hseparate c b hc hb haddress
  · obtain hb | hb := hstep.listed_cases hidentity hb
    · exact (fresh c hstart b hb haddress.symm).symm
    · exact absurd haddress.symm (hfree b hb)

/-- If every proxy was started at an address that no other listed member has, the listed members
are current. -/
theorem Run.current (run : Run roster h net)
    (fresh : ∀ t ∈ h, ∀ a, t.action = .start a → StartsFresh roster t.pre a) :
    Current roster net := by
  induction run with
  | nil => exact fun b c _ hc => by simp [Net.init] at hc
  | @snoc h net act frames net' run last ih =>
    refine last.current (ih fun t ht => fresh t (by simp [ht])) (Run.identity run)
      (Run.separate run) fun a hact => ?_
    exact fresh ⟨net, act, frames, net'⟩ (by simp) a hact

/-! ### The process that answers -/

/-- The transition enters a connection under the guid `g`, and the proxy `a` knows `g` from then
on. -/
structure Inserts (t : Transition (Net ι) (Action ι) (List Frame)) (a : ι) (g : Bytes) : Prop where
  missing : g ∉ (t.pre.proxy a).subscribers
  entered : g ∈ (t.post.proxy a).subscribers
  known : (t.post.proxy a).proxiesGuids.lookup g = some g

/-- Visiting a member enters a connection only under the guid of the member, and after a reply. -/
theorem entered_of_visitMember {s s' : Proxy} {now : ℤ} {member : Bytes} {peer : PeerOutcome}
    {out : Output} (hstep : s.Step (.visitMember now member peer) out s') {g : Bytes}
    (missing : g ∉ s.subscribers) (entered : g ∈ s'.subscribers) :
    (split (cStr member) hash)[0]? = some g ∧ peer.reply ≠ none := by
  obtain ⟨_, _, redis, hvisit, -, -⟩ := hstep.of_visitMember
  obtain rfl | ⟨guid2, _, _, hsplit, -, -, rfl | ⟨cmdResp, -, -, hreply, rfl⟩⟩ :=
    Proxy.visitMember_cases hvisit
  · exact absurd entered missing
  · exact absurd entered missing
  · refine ⟨?_, by simp [hreply]⟩
    rw [hsplit, List.getElem?_cons_zero]
    by_contra hne
    obtain ⟨sub, hsub⟩ := Dict.mem_iff_exists_lookup.mp entered
    rw [Proxy.enterSubscriber, Dict.lookup_emplace, if_neg fun heq => hne (by rw [heq])] at hsub
    have hold := Dict.lookup_of_lookup_eraseFirst hsub
    exact missing (Dict.mem_iff_exists_lookup.mpr ⟨sub, hold⟩)

/-- A visit that enters a connection does so under the guid of a listed member, after a process
that listens at the address of the member answered. -/
theorem exists_answered (run : Run roster h net) (ht : t ∈ h) {a : ι} {now : ℤ}
    {answered : Option ι} {responderConnects publisherConnects : Bool}
    (hvisit : t.action = .visit a now answered responderConnects publisherConnects) {g : Bytes}
    (inserts : Inserts t a g) :
    ∃ b c, answered = some b ∧ (roster.config c).guid = g ∧ IsListed roster t.pre c ∧
      t.pre.status b = .running ∧
      (roster.config b).responderAddress = (roster.config c).responderAddress := by
  obtain ⟨h₁, h₂, rfl⟩ := List.append_of_mem ht
  obtain ⟨before, hstep, -⟩ := run.split_cons
  obtain ⟨missing, entered, -⟩ := inserts
  rw [hvisit] at hstep
  generalize t.out = published at hstep
  generalize t.post = reached at hstep entered
  cases hstep with
  | @visit _ _ _ _ _ member rest _ _ _ next listens handled =>
    rw [commit_proxy, if_pos rfl] at entered
    obtain ⟨hguid, hreply⟩ := entered_of_visitMember handled missing entered
    have hmember : member ∈ t.pre.scan a := next ▸ List.mem_cons_self
    obtain ⟨c, rfl⟩ := (Run.discovered before).scan a member hmember
    rw [Config.split_member, List.getElem?_cons_zero, Option.some_inj] at hguid
    cases answered with
    | none => exact absurd rfl hreply
    | some b =>
      obtain ⟨running, haddress⟩ := listens b rfl
      rw [Config.split_member, List.getElem?_cons_succ, List.getElem?_cons_zero, Option.some_inj,
        (Run.identity before b).address_eq] at haddress
      exact ⟨b, c, rfl, hguid, .inr ⟨a, hmember⟩, running, haddress.symm⟩

/-- **Identity of the process that answered.** In every run of a network, for every visit that
enters a connection under a guid: the process that answered the hello has that guid exactly when
no other proxy runs at the address of the proxy with that guid; and it has that guid if every
proxy that was started so far was started at an address that no listed member of another proxy
had. -/
theorem identity_agreement (run : Run roster h net) (ht : t ∈ h) {a : ι} {now : ℤ}
    {answered : Option ι} {responderConnects publisherConnects : Bool}
    (hvisit : t.action = .visit a now answered responderConnects publisherConnects) {g : Bytes}
    (inserts : Inserts t a g) :
    ∃ b c, answered = some b ∧ (roster.config c).guid = g ∧
      (b = c ↔ ∀ d, t.pre.status d = .running →
        (roster.config d).responderAddress = (roster.config c).responderAddress → d = c) ∧
      ((∀ u ∈ h, ∀ d, u.action = .start d → StartsFresh roster u.pre d) → b = c) := by
  obtain ⟨b, c, hanswered, hguid, hlisted, running, haddress⟩ :=
    exists_answered run ht hvisit inserts
  obtain ⟨h₁, h₂, rfl⟩ := List.append_of_mem ht
  have before := run.split_cons.1
  refine ⟨b, c, hanswered, hguid, ⟨?_, fun hsole => hsole b running haddress⟩, fun fresh => ?_⟩
  · rintro rfl d hd hdaddress
    exact Run.separate before d b hd running hdaddress
  · have hcurrent := Run.current before fun u hu => fresh u (List.mem_append_left _ hu)
    exact hcurrent c b hlisted running haddress

/-- The second proxy adds itself to Redis, and the first one says hello to it. -/
def helloSaid : List (Action Site) :=
  [.start .first, .start .second, .pingRedis .second 2 [],
    .pingRedis .first 2 [(localhost.config .second).member],
    .visit .first 2 (some .second) true true]

/-- In the run of `helloSaid` the process that answers is the one that the connection names. -/
theorem identity_agreement_helloSaid :
    ∃ h net, execute localhost helloSaid = some (h, net) ∧ ∃ t ∈ h,
      Inserts t .first (localhost.config .second).guid ∧
        ∃ b, t.action = .visit .first 2 (some b) true true ∧
          (localhost.config b).guid = (localhost.config .second).guid := by
  have hsome : (execute localhost helloSaid).isSome := by decide
  obtain ⟨h, net, hrun, hlength, hmissing, hentered, hknown, hsole⟩ : ∃ h net,
      execute localhost helloSaid = some (h, net) ∧ ∃ _ : 4 < h.length,
        (localhost.config .second).guid ∉ (h[4].pre.proxy .first).subscribers ∧
        (localhost.config .second).guid ∈ (h[4].post.proxy .first).subscribers ∧
        (h[4].post.proxy .first).proxiesGuids.lookup (localhost.config .second).guid =
          some (localhost.config .second).guid ∧
        ∀ d, h[4].pre.status d = .running → (localhost.config d).responderAddress =
          (localhost.config .second).responderAddress → d = .second :=
    ⟨_, _, (Option.some_get hsome).symm, by decide, by decide, by decide, by decide, by decide⟩
  have hvisit := action_getElem_execute hrun hlength rfl
  have hmem : h[4] ∈ h := List.getElem_mem hlength
  have hinserts : Inserts h[4] .first (localhost.config .second).guid :=
    ⟨hmissing, hentered, hknown⟩
  obtain ⟨b, c, hanswered, hguid, hiff, -⟩ :=
    identity_agreement (run_execute hrun) hmem hvisit hinserts
  obtain rfl : c = .second := localhost.guid_injective hguid
  obtain rfl : b = .second := hiff.mpr hsole
  exact ⟨h, net, hrun, h[4], hmem, hinserts, .second, hvisit, rfl⟩

/-- The second proxy stops, the third one is started at its address, and the first one visits the
member that the second one left behind. -/
def staleMember : List (Action Site) :=
  [.start .second, .pingRedis .second 2 [], .stop .second, .start .third, .start .first,
    .pingRedis .first 2 [(localhost.config .second).member],
    .visit .first 2 (some .third) true true]

/-- **A stale member names the wrong process.** It is false that the process which answered the
hello has the guid under which the connection is entered: in the run of `staleMember` it has
another one. -/
theorem not_identity_agreement :
    ¬ ∀ (h : List (Transition (Net Site) (Action Site) (List Frame))) (net : Net Site),
      Run localhost h net → ∀ t ∈ h, ∀ (a : Site) (now : ℤ) (answered : Option Site)
        (responderConnects publisherConnects : Bool) (g : Bytes),
          t.action = .visit a now answered responderConnects publisherConnects → Inserts t a g →
            ∃ b, answered = some b ∧ (localhost.config b).guid = g := by
  intro hclaim
  have hsome : (execute localhost staleMember).isSome := by decide
  obtain ⟨h, net, hrun, hlength, hmissing, hentered, hknown⟩ : ∃ h net,
      execute localhost staleMember = some (h, net) ∧ ∃ _ : 6 < h.length,
        (localhost.config .second).guid ∉ (h[6].pre.proxy .first).subscribers ∧
        (localhost.config .second).guid ∈ (h[6].post.proxy .first).subscribers ∧
        (h[6].post.proxy .first).proxiesGuids.lookup (localhost.config .second).guid =
          some (localhost.config .second).guid :=
    ⟨_, _, (Option.some_get hsome).symm, by decide, by decide, by decide, by decide⟩
  have hvisit := action_getElem_execute hrun hlength rfl
  obtain ⟨b, hanswered, hguid⟩ := hclaim h net (run_execute hrun) h[6] (List.getElem_mem hlength)
    .first 2 (some .third) true true _ hvisit ⟨hmissing, hentered, hknown⟩
  have hb : Site.third = b := Option.some.inj hanswered
  exact absurd (localhost.guid_injective hguid) (hb ▸ by decide)

end Net

end EsbProxy
