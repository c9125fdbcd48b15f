import EsbProxy.Connections

/-!
# One connection to each address

A hello kills the first connection to the address before it enters its own. Connections to nodes
are filed under the address and connections to proxies under the guid, so it takes an argument
over runs that the first connection to an address is the only one, and that the key is free when
the new one is entered.

## Main definitions

* `Proxy.UniqueAddresses`: no two connections are to the same address.
* `PeerAddresses`: what is assumed of the addresses of peers.
* `SoleConnection`: a transition leaves one connection to an address, the new one.

## Main results

* `Proxy.Step.uniqueAddresses`: an input keeps the addresses unique.
* `Proxy.Run.uniqueConnections`: the invariant over runs, and what every hello leaves.
-/

namespace EsbProxy

open Foundation

variable {config : Config} {h : List (Transition Proxy Input Output)} {s s' : Proxy} {i : Input}
  {out : Output} {hello : Hello} {key : Bytes} {link : Link}

/-! ### Unique addresses -/

/-- No two connections are to the same address. -/
def Proxy.UniqueAddresses (s : Proxy) : Prop :=
  ∀ key key' link link', s.link key = some link → s.link key' = some link' →
    link.connectString = link'.connectString → key = key'

/-- The first connection to an address is to the address. -/
theorem Proxy.exists_link_of_duplicate {address : Bytes} (hkey : s.duplicate address = some key) :
    ∃ link, s.link key = some link ∧ link.connectString = address := by
  obtain ⟨sub, hsub, hselected⟩ := Dict.exists_lookup_of_firstKey hkey
  exact ⟨sub.link, by rw [link, hsub, Option.map_some], of_decide_eq_true hselected⟩

/-- Without a first connection to an address, there is none. -/
theorem Proxy.connectString_ne_of_duplicate {address : Bytes} (hnone : s.duplicate address = none)
    (hlink : s.link key = some link) : link.connectString ≠ address := by
  obtain ⟨sub, hsub, rfl⟩ := Option.map_eq_some_iff.mp hlink
  exact of_decide_eq_false (Dict.eq_false_of_firstKey hnone hsub)

/-- With unique addresses, no connection to the address of a hello survives it. -/
theorem Proxy.UniqueAddresses.connectString_ne (hunique : s.UniqueAddresses)
    (hgreets : s.helloOf i = some hello) (hsurvives : s.survivor i key = some link) :
    link.connectString ≠ hello.address := by
  have hkills : s.killedBy i = s.duplicate hello.address := by simp only [killedBy, hgreets]
  have hlink := link_of_survivor hsurvives
  cases hduplicate : s.duplicate hello.address with
  | none => exact connectString_ne_of_duplicate hduplicate hlink
  | some key' =>
    obtain ⟨link', hlink', haddress⟩ := exists_link_of_duplicate hduplicate
    intro hsame
    obtain rfl := hunique key key' link link' hlink hlink' (hsame.trans haddress.symm)
    rw [survivor, hkills, if_pos hduplicate] at hsurvives
    cases hsurvives

/-- **An input keeps the addresses unique.** -/
theorem Proxy.Step.uniqueAddresses (hstep : Proxy.Step s i out s') (hunique : s.UniqueAddresses)
    (hshort : ∀ hello ∈ s.helloOf i, hello.address.length < 512) : s'.UniqueAddresses := by
  have heffect := hstep.connectionEffect
  -- a connection afterwards is a survivor, or the one of the hello
  have horigin : ∀ key link, s'.link key = some link →
      (∃ link₀, s.survivor i key = some link₀ ∧ link.connectString = link₀.connectString) ∨
        ∃ hello, s.helloOf i = some hello ∧ key = hello.key ∧
          link.connectString = hello.address := by
    intro key link hlink
    rw [heffect.link_eq key] at hlink
    cases hsurvives : s.survivor i key with
    | some link₀ =>
      rw [hsurvives] at hlink
      cases hlink
      exact .inl ⟨link₀, rfl, rfl⟩
    | none =>
      rw [hsurvives] at hlink
      obtain ⟨hello, hgreets, hentered⟩ := Option.bind_eq_some_iff.mp hlink
      split_ifs at hentered with hkey
      cases hentered
      exact .inr ⟨hello, hgreets, hkey,
        (valid_of_helloOf hgreets).connectString_eq (hshort hello hgreets) s⟩
  intro key key' link link' hlink hlink' hsame
  obtain ⟨link₀, hsurvives, haddress⟩ | ⟨hello, hgreets, hkey, haddress⟩ := horigin key link hlink
  · obtain ⟨link₀', hsurvives', haddress'⟩ | ⟨hello, hgreets, hkey, haddress'⟩ :=
      horigin key' link' hlink'
    · exact hunique key key' link₀ link₀' (link_of_survivor hsurvives)
        (link_of_survivor hsurvives') (haddress.symm.trans (hsame.trans haddress'))
    · exact absurd (haddress.symm.trans (hsame.trans haddress'))
        (hunique.connectString_ne hgreets hsurvives)
  · obtain ⟨link₀', hsurvives', haddress'⟩ | ⟨hello', hgreets', hkey', -⟩ :=
      horigin key' link' hlink'
    · exact absurd (haddress'.symm.trans (hsame.symm.trans haddress))
        (hunique.connectString_ne hgreets hsurvives')
    · obtain rfl := Option.some.inj (hgreets.symm.trans hgreets')
      exact hkey.trans hkey'.symm

/-! ### Hellos of a run -/

/-- **What is assumed of the addresses of peers.** They have less than 512 bytes, and no node has
the guid of a proxy for its address. -/
structure PeerAddresses (h : List (Transition Proxy Input Output)) : Prop where
  short : ∀ t ∈ h, ∀ hello ∈ t.pre.helloOf t.action, hello.address.length < 512
  distinct : ∀ t ∈ h, ∀ hello ∈ t.pre.helloOf t.action, ∀ t' ∈ h,
    ∀ hello' ∈ t'.pre.helloOf t'.action, hello.maker = .node → hello'.maker = .proxy →
      hello.address ≠ hello'.guid

/-- A transition leaves one connection to the address of a hello: the one it creates. -/
structure SoleConnection (t : Transition Proxy Input Output) (hello : Hello) : Prop where
  created : ∃ now, t.action.clock = some now ∧ t.post.subscribers.lookup hello.key =
    some ((Subscriber.new hello.address hello.guid now).connect t.pre.guid
      t.pre.subscribeChannels now)
  sole : ∀ key sub, t.post.subscribers.lookup key = some sub →
    (sub.connectString = hello.address ↔ key = hello.key)

theorem Proxy.Run.uniqueAddresses (hrun : Proxy.Run config h s) (hpeers : PeerAddresses h) :
    s.UniqueAddresses :=
  Trace.invariant_of_forall (I := Proxy.UniqueAddresses)
    (P := fun t => ∀ hello ∈ t.pre.helloOf t.action, hello.address.length < 512)
    (fun key _ link _ hlink => by simp [Proxy.link, Proxy.init] at hlink)
    (fun _ hstep hshort hunique => hstep.uniqueAddresses hunique hshort) hrun hpeers.short

variable {t : Transition Proxy Input Output} {h₁ h₂ : List (Transition Proxy Input Output)}

theorem PeerAddresses.left (hpeers : PeerAddresses (h₁ ++ h₂)) : PeerAddresses h₁ where
  short t ht := hpeers.short t (List.mem_append_left _ ht)
  distinct t ht hello hhello t' ht' :=
    hpeers.distinct t (List.mem_append_left _ ht) hello hhello t' (List.mem_append_left _ ht')

/-- **The key of a hello is free.** No connection survives under it. -/
theorem Proxy.Run.survivor_key_eq_none (hrun : Proxy.Run config (h₁ ++ t :: h₂) s)
    (hpeers : PeerAddresses (h₁ ++ t :: h₂)) (hgreets : t.pre.helloOf t.action = some hello) :
    t.pre.survivor t.action hello.key = none := by
  have hbefore := (Trace.split_cons hrun).1
  have hvalid := Proxy.valid_of_helloOf hgreets
  by_contra hsurvives
  obtain ⟨link, hsurvives⟩ := Option.ne_none_iff_exists'.mp hsurvives
  have hlink := Proxy.link_of_survivor hsurvives
  cases hmaker : hello.maker with
  | proxy =>
    rw [hvalid.fresh hmaker] at hlink
    cases hlink
  | node =>
    obtain ⟨h₃, t₀, hello₀, h₄, rfl, hmakes⟩ := Proxy.Run.exists_makes hbefore hlink
    have ht₀ : t₀ ∈ (h₃ ++ t₀ :: h₄) ++ t :: h₂ := by simp
    have hvalid₀ := Proxy.valid_of_helloOf hmakes.enters.1
    cases hmaker₀ : hello₀.maker with
    | node =>
      have haddress : link.connectString = hello₀.address := by
        rw [Proxy.Run.link_of_makes hbefore hmakes] at hlink
        rw [← Option.some.inj hlink]
        exact hvalid₀.connectString_eq (hpeers.short t₀ ht₀ hello₀ hmakes.enters.1) t₀.pre
      refine (Proxy.Run.uniqueAddresses hbefore hpeers.left).connectString_ne hgreets hsurvives ?_
      rw [haddress, ← hvalid₀.key_of_node hmaker₀, hmakes.key_eq, hvalid.key_of_node hmaker]
    | proxy =>
      refine hpeers.distinct t (by simp) hello hgreets t₀ ht₀ hello₀ hmakes.enters.1 hmaker
        hmaker₀ ?_
      rw [← hvalid.key_of_node hmaker, ← hvalid₀.key_of_proxy hmaker₀, hmakes.key_eq]

/-- A hello that succeeds leaves one connection to its address, the one it creates. -/
theorem Proxy.Run.soleConnection (hrun : Proxy.Run config (h₁ ++ t :: h₂) s)
    (hpeers : PeerAddresses (h₁ ++ t :: h₂)) (hgreets : t.pre.helloOf t.action = some hello) :
    SoleConnection t hello := by
  obtain ⟨hbefore, hstep, -⟩ := Trace.split_cons hrun
  have hvalid := Proxy.valid_of_helloOf hgreets
  have hfree := Proxy.Run.survivor_key_eq_none hrun hpeers hgreets
  obtain ⟨now, hclock, hsubs⟩ := hstep.connectionEffect.subs_of_helloOf hgreets
  have hcreated : t.post.subscribers.lookup hello.key =
      some ((Subscriber.new hello.address hello.guid now).connect t.pre.guid
        t.pre.subscribeChannels now) := by
    have hkilled : (t.pre.killDuplicate hello.address).subscribers.lookup hello.key = none := by
      simp only [Proxy.survivor, Proxy.killedBy, hgreets, Proxy.link] at hfree
      rw [Proxy.killDuplicate, Dict.lookup_eraseFirst]
      change (if t.pre.duplicate hello.address = some hello.key then none else _) = none
      split_ifs at hfree ⊢
      · rfl
      · exact Option.map_eq_none_iff.mp hfree
    rw [hsubs, Proxy.enterSubscriber, Dict.lookup_emplace_self, hkilled, Option.getD_none]
  have hafter : t.post.UniqueAddresses := by
    have hpeers' : PeerAddresses ((h₁ ++ [t]) ++ h₂) := by simpa using hpeers
    exact Proxy.Run.uniqueAddresses (hbefore.snoc hstep) hpeers'.left
  have hlink : t.post.link hello.key = some (t.pre.linkOf hello) := by
    rw [Proxy.link, hcreated, Option.map_some]
    rfl
  have haddress : (t.pre.linkOf hello).connectString = hello.address :=
    hvalid.connectString_eq (hpeers.short t (by simp) hello hgreets) t.pre
  refine ⟨⟨now, hclock, hcreated⟩, fun key sub hsub => ⟨fun hsame => ?_, ?_⟩⟩
  · have hlink' : t.post.link key = some sub.link := by rw [Proxy.link, hsub, Option.map_some]
    exact hafter key hello.key sub.link (t.pre.linkOf hello) hlink' hlink
      (hsame.trans haddress.symm)
  · rintro rfl
    rw [Proxy.link, hsub, Option.map_some, Option.some_inj] at hlink
    exact (congrArg Link.connectString hlink).trans haddress

/-! ### What a hello reports -/

/-- A node is told that its hello succeeded, or that it failed and nothing has changed. -/
theorem Proxy.Step.nodeHello_cases {now : ℤ} {connects : Bool} {cmdReq : Command}
    (hstep : Proxy.Step s (.request now connects cmdReq) out s')
    (hcmd : cmdReq.cmd = .nodeHello) : ∃ cmdResp, out.reply = some cmdResp ∧
      (cmdResp.cmd = .response ∧ (∃ hello, s.helloOf (.request now connects cmdReq) = some hello) ∨
        cmdResp.cmd = .error ∧ s'.subscribers = s.subscribers) := by
  obtain ⟨subs, nodes, cmdResp, hcall, -, rfl⟩ := hstep.of_request
  obtain ⟨-, rfl, herror⟩ | ⟨hsucceeds, hresponse, guid, connectionString, rest, hsplit, -⟩ :=
    Proxy.responderCallback_cases hcall
  · exact ⟨cmdResp, rfl, .inr ⟨herror hcmd, rfl⟩⟩
  · refine ⟨cmdResp, rfl, .inl ⟨hresponse, ⟨.node, connectionString, connectionString, guid⟩, ?_⟩⟩
    rw [helloOf, hsplit]
    exact if_pos hsucceeds

/-- The hello to a member succeeds, or the subscribers do not change. -/
theorem Proxy.Step.visitMember_cases {now : ℤ} {proxy : Bytes} {peer : PeerOutcome}
    (hstep : Proxy.Step s (.visitMember now proxy peer) out s') :
    (∃ hello, s.helloOf (.visitMember now proxy peer) = some hello) ∨
      s.helloOf (.visitMember now proxy peer) = none ∧ s'.subscribers = s.subscribers := by
  obtain ⟨subs, proxies, redis, hvisit, -, -⟩ := hstep.of_visitMember
  obtain ⟨hquiet, rfl | ⟨guid2, -, rfl⟩⟩ | ⟨guid2, connectionString, hgreets, -⟩ :=
    Proxy.visitMember_helloOf hvisit
  · exact .inr ⟨hquiet, rfl⟩
  · exact .inr ⟨hquiet, rfl⟩
  · exact .inl ⟨_, hgreets⟩

/-- **One connection to each address.** In every state that a run reaches, no two subscribers have
the same address. A hello that succeeds, be it of a node or to another proxy, leaves exactly one
subscriber for its address, the one it creates; a hello that fails leaves all of them alone. -/
theorem Proxy.Run.uniqueConnections (hrun : Proxy.Run config h s) (hpeers : PeerAddresses h) :
    (∀ key key' sub sub', s.subscribers.lookup key = some sub →
      s.subscribers.lookup key' = some sub' → sub.connectString = sub'.connectString →
      key = key') ∧
    (∀ t ∈ h, ∀ now connects cmdReq, t.action = .request now connects cmdReq →
      cmdReq.cmd = .nodeHello → ∃ cmdResp, t.out.reply = some cmdResp ∧
        (cmdResp.cmd = .response ∧
            (∃ hello, t.pre.helloOf t.action = some hello ∧ SoleConnection t hello) ∨
          cmdResp.cmd = .error ∧ t.post.subscribers = t.pre.subscribers)) ∧
    ∀ t ∈ h, ∀ now proxy peer, t.action = .visitMember now proxy peer →
      (∃ hello, t.pre.helloOf t.action = some hello ∧ SoleConnection t hello) ∨
        t.pre.helloOf t.action = none ∧ t.post.subscribers = t.pre.subscribers := by
  have hsole : ∀ t ∈ h, ∀ hello, t.pre.helloOf t.action = some hello → SoleConnection t hello := by
    intro t ht hello hgreets
    obtain ⟨h₁, h₂, rfl⟩ := List.append_of_mem ht
    exact Proxy.Run.soleConnection hrun hpeers hgreets
  refine ⟨fun key key' sub sub' hsub hsub' hsame => ?_, ?_, ?_⟩
  · have hlink : s.link key = some sub.link := by rw [Proxy.link, hsub, Option.map_some]
    have hlink' : s.link key' = some sub'.link := by rw [Proxy.link, hsub', Option.map_some]
    exact Proxy.Run.uniqueAddresses hrun hpeers key key' _ _ hlink hlink' hsame
  · rintro ⟨s₀, action, out, s₁⟩ ht now connects cmdReq rfl hcmd
    obtain ⟨cmdResp, hreply, ⟨hresponse, hello, hgreets⟩ | hfails⟩ :=
      (hrun.step_of_mem ht).nodeHello_cases hcmd
    · exact ⟨cmdResp, hreply, .inl ⟨hresponse, hello, hgreets, hsole _ ht hello hgreets⟩⟩
    · exact ⟨cmdResp, hreply, .inr hfails⟩
  · rintro ⟨s₀, action, out, s₁⟩ ht now proxy peer rfl
    obtain ⟨hello, hgreets⟩ | hfails := (hrun.step_of_mem ht).visitMember_cases
    · exact .inl ⟨hello, hgreets, hsole _ ht hello hgreets⟩
    · exact .inr hfails

/-- A node says hello, another proxy is found, and another node says hello from the address of the
first one. -/
def hellos : List Input :=
  [.request 100 true
    { cmd? := some .nodeHello
      payload? := some (List.replicate GUID_SIZE 78 ++ ascii "#tcp://127.0.0.1:9000") },
   .visitMember 101 (List.replicate GUID_SIZE 66 ++ ascii "#tcp://127.0.0.1:7771")
    { responderConnects := true
      reply := some { cmd? := some .response, payload? := some (ascii "tcp://127.0.0.1:7781") }
      publisherConnects := true },
   .request 102 true
    { cmd? := some .nodeHello
      payload? := some (List.replicate GUID_SIZE 79 ++ ascii "#tcp://127.0.0.1:9000") }]

/-- The two connections that are left are to different addresses. -/
theorem uniqueConnections_hellos : ∃ h s, Proxy.Run (Config.ofSite .first 7770 7780) h s ∧
    s.subscribers.keys.length = 2 ∧
    ∀ key key' sub sub', s.subscribers.lookup key = some sub →
      s.subscribers.lookup key' = some sub' → sub.connectString = sub'.connectString →
      key = key' := by
  have hsome : (Proxy.execute (Config.ofSite .first 7770 7780) hellos).isSome := by decide
  obtain ⟨h, s, hexec, hkeys, hshort, hdistinct⟩ : ∃ h s,
      Proxy.execute (Config.ofSite .first 7770 7780) hellos = some (h, s) ∧
      s.subscribers.keys.length = 2 ∧
      (∀ t ∈ h, ∀ hello ∈ t.pre.helloOf t.action, hello.address.length < 512) ∧
      ∀ t ∈ h, ∀ hello ∈ t.pre.helloOf t.action, ∀ t' ∈ h,
        ∀ hello' ∈ t'.pre.helloOf t'.action, hello.maker = .node → hello'.maker = .proxy →
          hello.address ≠ hello'.guid :=
    ⟨_, _, (Option.some_get hsome).symm, by decide, by decide, by decide⟩
  have hrun := Proxy.run_execute hexec
  exact ⟨h, s, hrun, hkeys, (Proxy.Run.uniqueConnections hrun ⟨hshort, hdistinct⟩).1⟩

end EsbProxy
