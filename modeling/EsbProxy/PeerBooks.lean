import EsbProxy.UniqueConnections

/-!
# The books about peers

A proxy keeps books about its peers next to its connections: `nodesGuids` of the nodes that said
hello, and `proxiesGuids` of the proxies that it found, which it asks for their registries. A
hello that succeeds writes into the books. When a connection is killed, nothing is struck out, so
the books agree with the connections as long as only nodes lose connections, and have others left.

## Main definitions

* `MadeBy`: who made the connection under a key.
* `ConnectedTo`, `BooksAgree`: the books list the peers that are connected.
* `KeepsBooks`: the condition on a step.

## Main results

* `connectedTo_concat_iff`: the peers that are connected after a step.
* `BooksAgree.step_iff`: when a step keeps the agreement.
* `Proxy.Run.booksAgree_iff`: when a whole run does, and whom the proxy then asks.
-/

namespace EsbProxy

open Foundation

variable {config : Config} {h h₁ h₂ : List (Transition Proxy Input Output)} {s s' : Proxy}
  {i : Input} {out : Output} {t : Transition Proxy Input Output} {key guid : Bytes}
  {maker maker' : Maker}

/-- In the history of a run, the connection under a key was made by a hello of the maker. -/
def MadeBy (h : List (Transition Proxy Input Output)) (key : Bytes) (maker : Maker) : Prop :=
  ∃ h₁ t hello h₂, h = h₁ ++ t :: h₂ ∧ Makes t hello key h₂ ∧ hello.maker = maker

/-- There is a connection to the peer with a guid that was made by a hello of the maker. -/
def ConnectedTo (h : List (Transition Proxy Input Output)) (s : Proxy) (maker : Maker)
    (guid : Bytes) : Prop :=
  ∃ key sub, s.subscribers.lookup key = some sub ∧ sub.targetGuid = guid ∧ MadeBy h key maker

/-- **The books agree with the connections.** -/
structure BooksAgree (h : List (Transition Proxy Input Output)) (s : Proxy) : Prop where
  proxies : ∀ g, g ∈ s.proxiesGuids ↔ ConnectedTo h s .proxy g
  nodes : ∀ n, n ∈ s.nodesGuids ↔ ConnectedTo h s .node n

/-- An input kills a connection to the peer with a guid. -/
def KillsTo (h : List (Transition Proxy Input Output)) (s : Proxy) (i : Input) (maker : Maker)
    (guid : Bytes) : Prop :=
  ∃ key link, s.killedBy i = some key ∧ s.link key = some link ∧ link.targetGuid = guid ∧
    MadeBy h key maker

/-- An input leaves a connection to the peer with a guid. -/
def LeavesTo (h : List (Transition Proxy Input Output)) (s : Proxy) (i : Input) (maker : Maker)
    (guid : Bytes) : Prop :=
  ∃ key link, s.survivor i key = some link ∧ link.targetGuid = guid ∧ MadeBy h key maker

/-- **The condition on a step.** No connection to a proxy is killed. A connection to a node is
killed only if another one to it is left, or it is the one that says hello. And a node that says
hello finds its key free, or has another connection. -/
structure KeepsBooks (h : List (Transition Proxy Input Output)) (s : Proxy) (i : Input) : Prop where
  proxies : ∀ g, ¬ KillsTo h s i .proxy g
  nodes : ∀ n, KillsTo h s i .node n →
    LeavesTo h s i .node n ∨ ∃ hello ∈ s.helloOf i, hello.maker = .node ∧ hello.guid = n
  enters : ∀ hello ∈ s.helloOf i, hello.maker = .node →
    s.survivor i hello.key = none ∨ LeavesTo h s i .node hello.guid

/-! ### Who made a connection -/

theorem connectedTo_iff : ConnectedTo h s maker guid ↔
    ∃ key link, s.link key = some link ∧ link.targetGuid = guid ∧ MadeBy h key maker := by
  constructor
  · rintro ⟨key, sub, hsub, hguid, hmade⟩
    exact ⟨key, sub.link, by rw [Proxy.link, hsub, Option.map_some], hguid, hmade⟩
  · rintro ⟨key, link, hlink, hguid, hmade⟩
    obtain ⟨sub, hsub, rfl⟩ := Option.map_eq_some_iff.mp hlink
    exact ⟨key, sub, hsub, hguid, hmade⟩

theorem Proxy.Run.exists_madeBy (hrun : Proxy.Run config h s) {link : Link}
    (hlink : s.link key = some link) : ∃ maker, MadeBy h key maker := by
  obtain ⟨h₁, t, hello, h₂, hsplit, hmakes⟩ := Proxy.Run.exists_makes hrun hlink
  exact ⟨hello.maker, h₁, t, hello, h₂, hsplit, hmakes, rfl⟩

/-- A connection was made by one maker. -/
theorem MadeBy.unique (hrun : Proxy.Run config h s) (hmade : MadeBy h key maker)
    (hmade' : MadeBy h key maker') : maker = maker' := by
  obtain ⟨h₁, t, hello, h₂, hsplit, hmakes, rfl⟩ := hmade
  obtain ⟨h₁', t', hello', h₂', hsplit', hmakes', rfl⟩ := hmade'
  rw [(Makes.unique hrun hsplit hmakes hsplit' hmakes').2]

/-- A connection that a proxy made is filed under the guid of its peer. -/
theorem MadeBy.targetGuid_eq (hrun : Proxy.Run config h s) (hmade : MadeBy h key .proxy)
    {link : Link} (hlink : s.link key = some link) : link.targetGuid = key := by
  obtain ⟨h₁, t, hello, h₂, rfl, hmakes, hmaker⟩ := hmade
  have hvalid := Proxy.valid_of_helloOf hmakes.enters.1
  rw [Proxy.Run.link_of_makes hrun hmakes] at hlink
  rw [← Option.some.inj hlink, ← hmakes.key_eq, hvalid.key_of_proxy hmaker]
  exact hvalid.targetGuid_eq t.pre

/-- The maker of a connection that is not killed stays. -/
theorem MadeBy.concat (hmade : MadeBy h key maker)
    (hkept : t.pre.killedBy t.action ≠ some key) : MadeBy (h ++ [t]) key maker := by
  obtain ⟨h₁, t₀, hello, h₂, rfl, ⟨henters, hkey, hlater⟩, hmaker⟩ := hmade
  refine ⟨h₁, t₀, hello, h₂ ++ [t], by simp, ⟨henters, hkey, fun t' ht' => ?_⟩, hmaker⟩
  rcases List.mem_append.mp ht' with ht' | ht'
  · exact hlater t' ht'
  · exact List.mem_singleton.mp ht' ▸ hkept

/-- The maker of a connection after a step: a hello of the step, or who made it before. -/
theorem MadeBy.of_concat (hmade : MadeBy (h ++ [t]) key maker) :
    (t.pre.killedBy t.action ≠ some key ∧ MadeBy h key maker) ∨
      ∃ hello, t.pre.Enters t.action hello ∧ hello.key = key ∧ hello.maker = maker := by
  obtain ⟨h₁, t₀, hello, h₂, hsplit, hmakes, hmaker⟩ := hmade
  induction h₂ using List.reverseRecOn with
  | nil =>
    obtain ⟨-, htail⟩ := List.append_inj' hsplit rfl
    obtain rfl := List.singleton_injective htail
    exact .inr ⟨hello, hmakes.enters, hmakes.key_eq, hmaker⟩
  | append_singleton h₂ t' _ =>
    rw [← List.cons_append, ← List.append_assoc] at hsplit
    obtain ⟨rfl, htail⟩ := List.append_inj' hsplit rfl
    obtain rfl := List.singleton_injective htail
    refine .inl ⟨hmakes.kept t (by simp), h₁, t₀, hello, h₂, rfl, ?_, hmaker⟩
    exact ⟨hmakes.enters, hmakes.key_eq, fun t' ht' => hmakes.kept t' (by simp [ht'])⟩

/-! ### Who is connected -/

theorem Proxy.not_killed_of_survivor {link : Link} (hsurvives : s.survivor i key = some link) :
    s.killedBy i ≠ some key := by
  intro hkilled
  rw [survivor, if_pos hkilled] at hsurvives
  cases hsurvives

/-- Before an input, the connections are those that it leaves and those that it kills. -/
theorem connectedTo_iff_leavesTo (i : Input) :
    ConnectedTo h s maker guid ↔ LeavesTo h s i maker guid ∨ KillsTo h s i maker guid := by
  rw [connectedTo_iff]
  constructor
  · rintro ⟨key, link, hlink, hguid, hmade⟩
    by_cases hkilled : s.killedBy i = some key
    · exact .inr ⟨key, link, hkilled, hlink, hguid, hmade⟩
    · exact .inl ⟨key, link, by rw [Proxy.survivor, if_neg hkilled, hlink], hguid, hmade⟩
  · rintro (⟨key, link, hsurvives, hguid, hmade⟩ | ⟨key, link, -, hlink, hguid, hmade⟩)
    · exact ⟨key, link, Proxy.link_of_survivor hsurvives, hguid, hmade⟩
    · exact ⟨key, link, hlink, hguid, hmade⟩

/-- **The peers that are connected after a step**: those whose connections it leaves, and the peer
of a hello that enters its connection. -/
theorem connectedTo_concat_iff (hrun : Proxy.Run config h t.pre)
    (hstep : Proxy.Step t.pre t.action t.out t.post) :
    ConnectedTo (h ++ [t]) t.post maker guid ↔ LeavesTo h t.pre t.action maker guid ∨
      ∃ hello, t.pre.Enters t.action hello ∧ hello.maker = maker ∧ hello.guid = guid := by
  have hlinks := hstep.connectionEffect.link_eq
  rw [connectedTo_iff]
  constructor
  · rintro ⟨key, link, hlink, hguid, hmade⟩
    rw [hlinks key] at hlink
    cases hsurvives : t.pre.survivor t.action key with
    | some link₀ =>
      rw [hsurvives] at hlink
      cases hlink
      obtain ⟨-, hmade⟩ | ⟨hello, henters, rfl, -⟩ := hmade.of_concat
      · exact .inl ⟨key, link₀, hsurvives, hguid, hmade⟩
      · rw [henters.2] at hsurvives
        cases hsurvives
    | none =>
      rw [hsurvives] at hlink
      obtain ⟨hello, hgreets, hentered⟩ := Option.bind_eq_some_iff.mp hlink
      split_ifs at hentered with hkey
      cases hentered
      have hpeer := (Proxy.valid_of_helloOf hgreets).targetGuid_eq t.pre
      obtain ⟨hkept, h₁, t₀, hello₀, h₂, rfl, hmakes, -⟩ | ⟨hello', henters, -, hmaker⟩ :=
        hmade.of_concat
      · rw [Proxy.survivor, if_neg hkept, Proxy.Run.link_of_makes hrun hmakes] at hsurvives
        cases hsurvives
      · obtain rfl := Option.some.inj (hgreets.symm.trans henters.1)
        exact .inr ⟨hello, henters, hmaker, hpeer.symm.trans hguid⟩
  · rintro (⟨key, link, hsurvives, hguid, hmade⟩ | ⟨hello, henters, hmaker, hguid⟩)
    · refine ⟨key, link.extend t.action.channel.toList, ?_, hguid,
        hmade.concat (Proxy.not_killed_of_survivor hsurvives)⟩
      rw [hlinks key, hsurvives]
    · refine ⟨hello.key, t.pre.linkOf hello, ?_, ?_, h, t, hello, [], rfl,
        ⟨henters, rfl, by simp⟩, hmaker⟩
      · rw [hlinks hello.key, henters.2, henters.1]
        exact if_pos rfl
      · exact ((Proxy.valid_of_helloOf henters.1).targetGuid_eq t.pre).trans hguid

/-! ### What is in the books -/

theorem ConnectionEffect.mem_nodesGuids_iff (heffect : ConnectionEffect s i s') (n : Bytes) :
    n ∈ s'.nodesGuids ↔
      n ∈ s.nodesGuids ∨ ∃ hello ∈ s.helloOf i, hello.maker = .node ∧ hello.guid = n := by
  cases heffect with
  | left quiet _ _ _ nodes => simp [nodes, quiet]
  | subscribed _ quiet _ _ _ _ nodes => simp [nodes, quiet]
  | entered hello now greets _ _ _ _ _ nodes =>
    rw [nodes, greets]
    by_cases hmaker : hello.maker = .node
    · simp [hmaker, AList.mem_insert, or_comm, eq_comm]
    · simp [hmaker]

/-- Only guids without a connection are struck from the known proxies. -/
theorem ConnectionEffect.mem_proxiesGuids_iff (heffect : ConnectionEffect s i s')
    (hlinks : ∀ g ∈ s.proxiesGuids, s.link g ≠ none) (g : Bytes) :
    g ∈ s'.proxiesGuids ↔
      g ∈ s.proxiesGuids ∨ ∃ hello ∈ s.helloOf i, hello.maker = .proxy ∧ hello.guid = g := by
  cases heffect with
  | left quiet _ _ _ _ proxies =>
    obtain hsame | ⟨guid2, hmissing, hstruck⟩ := proxies
    · simp [hsame, quiet]
    · have hne : g ∈ s.proxiesGuids → g ≠ guid2 := by
        rintro hg rfl
        exact hlinks g hg hmissing
      simpa [hstruck, quiet, AList.mem_erase] using hne
  | subscribed _ quiet _ _ _ _ _ proxies => simp [proxies, quiet]
  | entered hello now greets _ _ _ _ _ _ proxies =>
    rw [proxies, greets]
    by_cases hmaker : hello.maker = .proxy
    · simp [hmaker, AList.mem_insert, or_comm, eq_comm]
    · simp [hmaker]

/-! ### When the books agree -/

/-- A proxy that is in the books is connected under its guid. -/
theorem BooksAgree.link_ne_none (hagree : BooksAgree h s) (hrun : Proxy.Run config h s)
    {g : Bytes} (hg : g ∈ s.proxiesGuids) : s.link g ≠ none := by
  obtain ⟨key, link, hlink, rfl, hmade⟩ := connectedTo_iff.mp ((hagree.proxies g).mp hg)
  rw [hmade.targetGuid_eq hrun hlink, hlink]
  simp

/-- A connection to a proxy that is killed was the only one to it. -/
theorem KillsTo.not_connected (hrun : Proxy.Run config h s) {g : Bytes}
    (hkills : KillsTo h s i .proxy g) : ¬ LeavesTo h s i .proxy g ∧
      ∀ hello ∈ s.helloOf i, hello.maker = .proxy → hello.guid ≠ g := by
  obtain ⟨key, link, hkilled, hlink, rfl, hmade⟩ := hkills
  have hkey := hmade.targetGuid_eq hrun hlink
  constructor
  · rintro ⟨key', link', hsurvives, hguid, hmade'⟩
    have hkey' := hmade'.targetGuid_eq hrun (Proxy.link_of_survivor hsurvives)
    obtain rfl : key' = key := hkey'.symm.trans (hguid.trans hkey)
    exact Proxy.not_killed_of_survivor hsurvives hkilled
  · rintro hello hgreets hmaker hguid
    have hvalid := Proxy.valid_of_helloOf hgreets
    have hfresh := hvalid.fresh hmaker
    rw [hvalid.key_of_proxy hmaker, hguid, hkey, hlink] at hfresh
    cases hfresh

/-- A node that says hello under the condition is connected afterwards. -/
private theorem KeepsBooks.connected (hkeeps : KeepsBooks h s i) {hello : Hello}
    (hgreets : s.helloOf i = some hello) (hmaker : hello.maker = .node) :
    LeavesTo h s i .node hello.guid ∨
      ∃ hello', s.Enters i hello' ∧ hello'.maker = .node ∧ hello'.guid = hello.guid := by
  obtain hfree | hleaves := hkeeps.enters hello hgreets hmaker
  · exact .inr ⟨hello, ⟨hgreets, hfree⟩, hmaker, rfl⟩
  · exact .inl hleaves

/-- **When a step keeps the agreement.** If the books agree with the connections before a step,
they do so afterwards exactly when the step meets the condition. -/
theorem BooksAgree.step_iff (hagree : BooksAgree h t.pre) (hrun : Proxy.Run config h t.pre)
    (hstep : Proxy.Step t.pre t.action t.out t.post) :
    BooksAgree (h ++ [t]) t.post ↔ KeepsBooks h t.pre t.action := by
  have hproxies := hstep.connectionEffect.mem_proxiesGuids_iff
    fun g hg => hagree.link_ne_none hrun hg
  have hnodes := hstep.connectionEffect.mem_nodesGuids_iff
  constructor
  · intro hafter
    refine ⟨fun g hkills => ?_, fun n hkills => ?_, fun hello hgreets hmaker => ?_⟩
    · have hg : g ∈ t.pre.proxiesGuids :=
        (hagree.proxies g).mpr ((connectedTo_iff_leavesTo t.action).mpr (.inr hkills))
      obtain ⟨hleaves, hgreets⟩ := hkills.not_connected hrun
      obtain h' | ⟨hello, henters, hmaker, hguid⟩ := (connectedTo_concat_iff hrun hstep).mp
        ((hafter.proxies g).mp ((hproxies g).mpr (.inl hg)))
      · exact hleaves h'
      · exact hgreets hello henters.1 hmaker hguid
    · have hn : n ∈ t.pre.nodesGuids :=
        (hagree.nodes n).mpr ((connectedTo_iff_leavesTo t.action).mpr (.inr hkills))
      obtain hleaves | ⟨hello, henters, hmaker, hguid⟩ := (connectedTo_concat_iff hrun hstep).mp
        ((hafter.nodes n).mp ((hnodes n).mpr (.inl hn)))
      · exact .inl hleaves
      · exact .inr ⟨hello, henters.1, hmaker, hguid⟩
    · have hn : hello.guid ∈ t.post.nodesGuids :=
        (hnodes hello.guid).mpr (.inr ⟨hello, hgreets, hmaker, rfl⟩)
      obtain hleaves | ⟨hello', henters, -, -⟩ := (connectedTo_concat_iff hrun hstep).mp
        ((hafter.nodes hello.guid).mp hn)
      · exact .inr hleaves
      · obtain rfl : hello' = hello := Option.some.inj (henters.1.symm.trans hgreets)
        exact .inl henters.2
  · intro hkeeps
    refine ⟨fun g => ?_, fun n => ?_⟩
    · rw [hproxies g, hagree.proxies g, connectedTo_iff_leavesTo t.action,
        connectedTo_concat_iff hrun hstep]
      constructor
      · rintro ((hleaves | hkills) | ⟨hello, hgreets, hmaker, hguid⟩)
        · exact .inl hleaves
        · exact absurd hkills (hkeeps.proxies g)
        · have hfree : t.pre.survivor t.action hello.key = none := by
            rw [Proxy.survivor, (Proxy.valid_of_helloOf hgreets).fresh hmaker, ite_self]
          exact .inr ⟨hello, ⟨hgreets, hfree⟩, hmaker, hguid⟩
      · rintro (hleaves | ⟨hello, henters, hmaker, hguid⟩)
        · exact .inl (.inl hleaves)
        · exact .inr ⟨hello, henters.1, hmaker, hguid⟩
    · rw [hnodes n, hagree.nodes n, connectedTo_iff_leavesTo t.action,
        connectedTo_concat_iff hrun hstep]
      constructor
      · rintro ((hleaves | hkills) | ⟨hello, hgreets, hmaker, rfl⟩)
        · exact .inl hleaves
        · obtain hleaves | ⟨hello, hgreets, hmaker, rfl⟩ := hkeeps.nodes n hkills
          · exact .inl hleaves
          · exact hkeeps.connected hgreets hmaker
        · exact hkeeps.connected hgreets hmaker
      · rintro (hleaves | ⟨hello, henters, hmaker, hguid⟩)
        · exact .inl (.inl hleaves)
        · exact .inr ⟨hello, henters.1, hmaker, hguid⟩

/-- The books of a new proxy are empty. -/
theorem booksAgree_nil (config : Config) : BooksAgree [] (Proxy.init config) := by
  have hnone : ∀ maker guid, ¬ ConnectedTo [] (Proxy.init config) maker guid := by
    rintro maker guid ⟨key, sub, hsub, -⟩
    simp [Proxy.init] at hsub
  exact ⟨fun g => ⟨fun hg => by simp [Proxy.init] at hg, fun hg => absurd hg (hnone _ _)⟩,
    fun n => ⟨fun hn => by simp [Proxy.init] at hn, fun hn => absurd hn (hnone _ _)⟩⟩

/-- The books agree in a run whose steps meet the condition. -/
theorem Proxy.Run.booksAgree (hrun : Proxy.Run config h s)
    (hkeeps : ∀ h₁ t h₂, h = h₁ ++ t :: h₂ → KeepsBooks h₁ t.pre t.action) : BooksAgree h s := by
  induction hrun with
  | nil => exact booksAgree_nil config
  | @snoc h s i out s' hrun hstep ih =>
    have hagree := ih fun h₁ t h₂ hsplit =>
      hkeeps h₁ t (h₂ ++ [⟨s, i, out, s'⟩]) (by simp [hsplit])
    exact (hagree.step_iff (t := ⟨s, i, out, s'⟩) hrun hstep).mpr
      (hkeeps h ⟨s, i, out, s'⟩ [] rfl)

/-- The known proxies are filed under their own guids. -/
theorem Proxy.Run.lookup_proxiesGuids (hrun : Proxy.Run config h s) {g g' : Bytes}
    (hg : s.proxiesGuids.lookup g = some g') : g' = g := by
  induction hrun with
  | nil => simp [Proxy.init] at hg
  | @snoc h s i out s' hrun hstep ih =>
    cases hstep.connectionEffect with
    | left _ _ _ _ _ proxies =>
      obtain hsame | ⟨guid2, -, hstruck⟩ := proxies
      · exact ih (hsame ▸ hg)
      · rw [hstruck, Dict.lookup_erase] at hg
        split_ifs at hg
        exact ih hg
    | subscribed _ _ _ _ _ _ _ proxies => exact ih (proxies ▸ hg)
    | entered hello now _ _ _ _ _ _ _ proxies =>
      rw [proxies] at hg
      split_ifs at hg
      · rw [Dict.lookup_insert] at hg
        split_ifs at hg with hsame
        · rw [hsame, Option.some.inj hg]
        · exact ih hg
      · exact ih hg

/-- **Whom a proxy asks.** If the books agree, a request for the registries is published to every
connected proxy, once, and to nobody else. -/
theorem BooksAgree.requestRegistryExchange (hagree : BooksAgree h s) (hrun : Proxy.Run config h s)
    {now : ℤ} (hnow : 3 ≤ now - s.lastRegistryExchange) :
    ∃ guids : List Bytes, guids.Nodup ∧ (∀ g, g ∈ guids ↔ ConnectedTo h s .proxy g) ∧
      (s.requestRegistryExchange now).2.map Frame.topic =
        guids.map fun g => topicOf g GUID_SIZE := by
  refine ⟨s.proxiesGuids.keys, s.proxiesGuids.keys_nodup, fun g => ?_, ?_⟩
  · rw [← hagree.proxies g, AList.mem_keys]
  · rw [Proxy.requestRegistryExchange, if_neg (by omega), AList.keys, List.keys, List.map_map,
      List.map_map]
    refine List.map_congr_left fun it hit => ?_
    have hlook := AList.mem_lookup_iff.mpr hit
    rw [Function.comp_apply, Function.comp_apply, publish_topic,
      Proxy.Run.lookup_proxiesGuids hrun hlook]

/-- **When the books agree.** They do so in all states of a run exactly when all steps of the run
meet the condition, and in every state in which they do, a proxy asks for their registries exactly
the proxies that are connected. -/
theorem Proxy.Run.booksAgree_iff (hrun : Proxy.Run config h s) :
    ((∀ h₁ h₂ s₁, h = h₁ ++ h₂ → Proxy.Run config h₁ s₁ → BooksAgree h₁ s₁) ↔
      ∀ h₁ t h₂, h = h₁ ++ t :: h₂ → KeepsBooks h₁ t.pre t.action) ∧
    (BooksAgree h s → ∀ now, 3 ≤ now - s.lastRegistryExchange →
      ∃ guids : List Bytes, guids.Nodup ∧ (∀ g, g ∈ guids ↔ ConnectedTo h s .proxy g) ∧
        (s.requestRegistryExchange now).2.map Frame.topic =
          guids.map fun g => topicOf g GUID_SIZE) := by
  refine ⟨⟨fun hagrees h₁ t h₂ hsplit => ?_, fun hkeeps h₁ h₂ s₁ hsplit hrun₁ => ?_⟩,
    fun hagree now hnow => hagree.requestRegistryExchange hrun hnow⟩
  · obtain ⟨hbefore, hstep, -⟩ := Trace.split_cons (hsplit ▸ hrun)
    have hagree := hagrees h₁ (t :: h₂) t.pre hsplit hbefore
    exact (hagree.step_iff hbefore hstep).mp
      (hagrees (h₁ ++ [t]) h₂ t.post (by simp [hsplit]) (hbefore.snoc hstep))
  · exact hrun₁.booksAgree fun h₃ t h₄ hsplit₁ => hkeeps h₃ t (h₄ ++ h₂) (by simp [hsplit, hsplit₁])

/-- A step that kills nothing, and whose hello finds its key free, meets the condition. -/
theorem KeepsBooks.of_killedBy (hkills : s.killedBy i = none)
    (henters : ∀ hello ∈ s.helloOf i, s.survivor i hello.key = none) : KeepsBooks h s i where
  proxies := by
    rintro g ⟨key, link, hkilled, -⟩
    simp [hkills] at hkilled
  nodes := by
    rintro n ⟨key, link, hkilled, -⟩
    simp [hkills] at hkilled
  enters hello hgreets _ := .inl (henters hello hgreets)

/-- Another proxy is found. -/
def found : Input :=
  .visitMember 100 (List.replicate GUID_SIZE 66 ++ ascii "#tcp://127.0.0.1:7771")
    { responderConnects := true
      reply := some { cmd? := some .response, payload? := some (ascii "tcp://127.0.0.1:7781") }
      publisherConnects := true }

/-- A node says hello from an address. -/
def helloFrom (address : Bytes) : Input :=
  .request 101 true
    { cmd? := some .nodeHello
      payload? := some (List.replicate GUID_SIZE 78 ++ ascii "#" ++ address) }

/-- The books agree while a proxy is found and a node says hello from two addresses. -/
theorem booksAgree_hellos : ∃ h s, Proxy.Run (Config.ofSite .first 7770 7780) h s ∧
    s.subscribers.keys.length = 3 ∧ BooksAgree h s := by
  have hsome : (Proxy.execute (Config.ofSite .first 7770 7780)
      [found, helloFrom (ascii "tcp://127.0.0.1:9000"),
        helloFrom (ascii "tcp://127.0.0.1:9001")]).isSome := by decide
  obtain ⟨h, s, hexec, hkeys, hquiet⟩ : ∃ h s, Proxy.execute (Config.ofSite .first 7770 7780)
      [found, helloFrom (ascii "tcp://127.0.0.1:9000"),
        helloFrom (ascii "tcp://127.0.0.1:9001")] = some (h, s) ∧
      s.subscribers.keys.length = 3 ∧ ∀ t ∈ h, t.pre.killedBy t.action = none ∧
        ∀ hello ∈ t.pre.helloOf t.action, t.pre.survivor t.action hello.key = none :=
    ⟨_, _, (Option.some_get hsome).symm, by decide, by decide⟩
  have hrun := Proxy.run_execute hexec
  refine ⟨h, s, hrun, hkeys, (Proxy.Run.booksAgree_iff hrun).1.mpr ?_ h [] s (by simp) hrun⟩
  rintro h₁ t h₂ rfl
  exact .of_killedBy (hquiet t (by simp)).1 (hquiet t (by simp)).2

/-- **A proxy that stays in the books.** Another proxy is found, and killed after thirty seconds of
silence. It stays in the books, and is asked for its registry. -/
theorem not_booksAgree : ∃ h s, Proxy.Run (Config.ofSite .first 7770 7780) h s ∧
    List.replicate GUID_SIZE 66 ∈ s.proxiesGuids ∧ s.subscribers.keys = [] ∧
    ¬ BooksAgree h s ∧
    (s.requestRegistryExchange 131).2.map Frame.topic = [List.replicate GUID_SIZE 66] := by
  have hsome : (Proxy.execute (Config.ofSite .first 7770 7780)
      [found, .killInactive 131 (List.replicate GUID_SIZE 66)]).isSome := by decide
  obtain ⟨h, s, hexec, hbooks, hsubs, hasks⟩ : ∃ h s,
      Proxy.execute (Config.ofSite .first 7770 7780)
        [found, .killInactive 131 (List.replicate GUID_SIZE 66)] = some (h, s) ∧
      List.replicate GUID_SIZE 66 ∈ s.proxiesGuids ∧ s.subscribers.keys = [] ∧
      (s.requestRegistryExchange 131).2.map Frame.topic = [List.replicate GUID_SIZE 66] :=
    ⟨_, _, (Option.some_get hsome).symm, by decide, by decide, by decide⟩
  refine ⟨h, s, Proxy.run_execute hexec, hbooks, hsubs, fun hagree => ?_, hasks⟩
  obtain ⟨key, sub, hsub, -⟩ := (hagree.proxies _).mp hbooks
  have hmem : key ∈ s.subscribers.keys :=
    AList.mem_keys.mp (Dict.mem_iff_exists_lookup.mpr ⟨sub, hsub⟩)
  simp [hsubs] at hmem

end EsbProxy
