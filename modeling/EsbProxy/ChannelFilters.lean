import EsbProxy.Connections

/-!
# What a subscriber listens to

The transport hands a frame to a subscriber when one of its filters is a prefix of the frame. A
channel that is subscribed while a connection exists becomes a filter with the tab behind the
name, and matches the frames on that channel only. A connection that is made later gets the names
of the channels subscribed so far without the tab, and also matches the frames on all channels
whose names begin with one of these.

## Main definitions

* `Accepts`: a filter is a prefix of a frame.
* `CleanChannel`: a channel name without a tab and a NUL.

## Main results

* `Proxy.Run.mem_subscribeChannels_iff`: the channels subscribed so far.
* `Proxy.Run.accepts_iff`: the frames that a subscriber accepts.
* `Proxy.Run.accepts_iff_subscribed_iff`: when these are the frames on the subscribed channels.
-/

namespace EsbProxy

open Foundation

/-- A subscriber accepts a frame: one of its filters is a prefix of it. -/
def Accepts (sub : Subscriber) (frame : Bytes) : Prop := ∃ filter ∈ sub.filters, filter <+: frame

/-- A name that the code can use for a channel: no tab, which ends the name in a frame, and no
NUL, which ends it in a C string. -/
structure CleanChannel (channel : Bytes) : Prop where
  tab_notMem : tab ∉ channel
  zero_notMem : 0 ∉ channel

/-! ### Prefixes of a frame -/

section Prefixes

variable {body : Bytes}

/-- A name without a tab begins a frame when it begins the channel of the frame. -/
theorem prefix_append_tab_iff : ∀ {name channel : Bytes}, tab ∉ name →
    (name <+: channel ++ tab :: body ↔ name <+: channel)
  | [], channel, _ => by simp
  | b :: name, [], hname => by
      have hb : b ≠ tab := fun hb => hname (hb ▸ List.mem_cons_self)
      simp [hb]
  | b :: name, c :: channel, hname => by
      have htail : tab ∉ name := fun h => hname (List.mem_cons_of_mem b h)
      rw [List.cons_append, List.cons_prefix_cons, List.cons_prefix_cons,
        prefix_append_tab_iff htail]

/-- A name and a tab begin a frame when the name is the channel of the frame. -/
theorem append_tab_prefix_iff : ∀ {name channel : Bytes}, tab ∉ name → tab ∉ channel →
    (name ++ [tab] <+: channel ++ tab :: body ↔ name = channel)
  | [], [], _, _ => by simp
  | [], c :: channel, _, hchannel => by
      have hc : tab ≠ c := fun hc => hchannel (hc ▸ List.mem_cons_self)
      simp [hc]
  | b :: name, [], hname, _ => by
      have hb : b ≠ tab := fun hb => hname (hb ▸ List.mem_cons_self)
      simp [hb]
  | b :: name, c :: channel, hname, hchannel => by
      have htail : tab ∉ name := fun h => hname (List.mem_cons_of_mem b h)
      have hctail : tab ∉ channel := fun h => hchannel (List.mem_cons_of_mem c h)
      rw [List.cons_append, List.cons_append, List.cons_prefix_cons,
        append_tab_prefix_iff htail hctail, List.cons.injEq]

end Prefixes

theorem CleanChannel.channelFilter_eq {channel : Bytes} (hclean : CleanChannel channel) :
    channelFilter channel = channel ++ [tab] := by
  have hlist : channel ++ [tab, 0] = (channel ++ [tab]) ++ [0] := by simp
  rw [channelFilter, cStr_eq_self hclean.zero_notMem, hlist, List.take_left' (by simp)]

variable {config : Config} {h : List (Transition Proxy Input Output)} {s s' : Proxy}

/-! ### The channels subscribed so far -/

/-- **The channels subscribed so far** are filed under their own names. -/
theorem Proxy.Run.lookup_subscribeChannels (hrun : Proxy.Run config h s) (channel : Bytes) :
    s.subscribeChannels.lookup channel =
      if channel ∈ subscriptions h then some channel else none := by
  induction hrun with
  | nil => rfl
  | @snoc h s i out s' hrun hstep ih =>
    have hkept : i.channel = none → s'.subscribeChannels = s.subscribeChannels →
        s'.subscribeChannels.lookup channel =
          if channel ∈ subscriptions (h ++ [⟨s, i, out, s'⟩]) then some channel else none := by
      intro hsilent hchannels
      rw [hchannels, subscriptions_concat, hsilent, Option.toList_none, List.append_nil, ih]
    cases hstep.connectionEffect with
    | left _ silent _ channels => exact hkept silent channels
    | entered _ _ _ _ silent _ _ channels => exact hkept silent channels
    | subscribed channel' _ subscribes _ _ channels =>
      rw [channels, Dict.lookup_insert, subscriptions_concat, subscribes, ih]
      by_cases hsame : channel = channel'
      · simp [hsame]
      · simp [hsame]

/-- The names that a new connection gets are those of the channels subscribed so far. -/
theorem Proxy.Run.mem_subscribeChannels_iff (hrun : Proxy.Run config h s) {channel : Bytes} :
    (channel ∈ s.subscribeChannels.entries.map fun e => e.2) ↔ channel ∈ subscriptions h := by
  constructor
  · intro hmem
    obtain ⟨e, he, rfl⟩ := List.mem_map.mp hmem
    have hlook := AList.mem_lookup_iff.mpr he
    rw [Option.mem_def, lookup_subscribeChannels hrun] at hlook
    split_ifs at hlook with hchannel
    obtain heq := Option.some.inj hlook
    exact heq ▸ hchannel
  · intro hchannel
    have hlook := lookup_subscribeChannels hrun channel
    rw [if_pos hchannel] at hlook
    exact List.mem_map.mpr ⟨⟨channel, channel⟩, AList.mem_lookup_iff.mp hlook, rfl⟩

/-! ### What a connection accepts -/

variable {h₁ h₂ : List (Transition Proxy Input Output)} {t : Transition Proxy Input Output}
  {hello : Hello} {key : Bytes} {sub : Subscriber}

/-- **What a connection accepts.** The frames on channels that begin with the guid of the proxy, or
with a channel that was subscribed before the connection was made, and those on the channels that
were subscribed later. -/
theorem Proxy.Run.accepts_iff (hrun : Proxy.Run config (h₁ ++ t :: h₂) s)
    (hmakes : Makes t hello key h₂) (hsub : s.subscribers.lookup key = some sub)
    (hchannels : ∀ k ∈ subscriptions (h₁ ++ t :: h₂), CleanChannel k) {channel : Bytes}
    (hclean : CleanChannel channel) (body : Bytes) :
    Accepts sub (channel ++ tab :: body) ↔ config.guid <+: channel ∨
      (∃ k ∈ subscriptions h₁, k <+: channel) ∨ channel ∈ subscriptions h₂ := by
  have hbefore := (Trace.split_cons hrun).1
  have hguid : topicOf t.pre.guid GUID_SIZE = config.guid := by
    rw [Proxy.Run.guid_eq hbefore, topicOf_eq_self config.length_guid]
  have hfilters : sub.filters = (config.guid :: t.pre.subscribeChannels.entries.map fun e => e.2) ++
      (subscriptions h₂).map channelFilter := by
    have hlink := Proxy.Run.link_of_makes hrun hmakes
    rw [Proxy.link, hsub, Option.map_some, Option.some.injEq] at hlink
    have hfields := congrArg Link.filters hlink
    simpa [Link.extend, Proxy.linkOf, hguid, Subscriber.link] using hfields
  have hearlier : ∀ k ∈ subscriptions h₁, (k <+: channel ++ tab :: body ↔ k <+: channel) := by
    intro k hk
    have hk' : k ∈ subscriptions (h₁ ++ t :: h₂) := by
      rw [hmakes.subscriptions_eq]
      exact List.mem_append_left _ hk
    exact prefix_append_tab_iff (hchannels k hk').tab_notMem
  have hlater : ∀ k ∈ subscriptions h₂,
      (channelFilter k <+: channel ++ tab :: body ↔ k = channel) := by
    intro k hk
    have hk' : CleanChannel k := hchannels k (by
      rw [hmakes.subscriptions_eq]
      exact List.mem_append_right _ hk)
    rw [hk'.channelFilter_eq, append_tab_prefix_iff hk'.tab_notMem hclean.tab_notMem]
  rw [Accepts, hfilters]
  constructor
  · rintro ⟨filter, hfilter, hbegins⟩
    rcases List.mem_append.mp hfilter with hfilter | hfilter
    · rcases List.mem_cons.mp hfilter with rfl | hreplayed
      · exact .inl ((prefix_append_tab_iff config.tab_notMem_guid).mp hbegins)
      · have hk := (Proxy.Run.mem_subscribeChannels_iff hbefore).mp hreplayed
        exact .inr (.inl ⟨filter, hk, (hearlier filter hk).mp hbegins⟩)
    · obtain ⟨k, hk, rfl⟩ := List.mem_map.mp hfilter
      exact .inr (.inr ((hlater k hk).mp hbegins ▸ hk))
  · rintro (hbegins | ⟨k, hk, hbegins⟩ | hsubscribed)
    · exact ⟨config.guid, by simp, (prefix_append_tab_iff config.tab_notMem_guid).mpr hbegins⟩
    · refine ⟨k, List.mem_append_left _ (List.mem_cons_of_mem _ ?_), (hearlier k hk).mpr hbegins⟩
      exact (Proxy.Run.mem_subscribeChannels_iff hbefore).mpr hk
    · exact ⟨channelFilter channel,
        List.mem_append_right _ (List.mem_map_of_mem hsubscribed),
        (hlater channel hsubscribed).mpr rfl⟩

/-- **Replayed channels.** Every subscriber was connected by one transition of the run. It accepts
the frames on a channel exactly when the channel is subscribed, provided that no channel that was
subscribed before that transition begins the name of the channel, or the channel is itself
subscribed; and not otherwise. -/
theorem Proxy.Run.accepts_iff_subscribed_iff (hrun : Proxy.Run config h s)
    (hchannels : ∀ k ∈ subscriptions h, CleanChannel k)
    (hsub : s.subscribers.lookup key = some sub) :
    ∃ h₁ t hello h₂, h = h₁ ++ t :: h₂ ∧ Makes t hello key h₂ ∧
      ∀ channel, CleanChannel channel → ¬ config.guid <+: channel → ∀ body,
        ((Accepts sub (channel ++ tab :: body) ↔ channel ∈ subscriptions h) ↔
          ∀ k ∈ subscriptions h₁, k <+: channel → channel ∈ subscriptions h) := by
  have hlink : s.link key = some sub.link := by rw [Proxy.link, hsub, Option.map_some]
  obtain ⟨h₁, t, hello, h₂, rfl, hmakes⟩ := Proxy.Run.exists_makes hrun hlink
  refine ⟨h₁, t, hello, h₂, rfl, hmakes, fun channel hclean hguid body => ?_⟩
  have haccepts := Proxy.Run.accepts_iff hrun hmakes hsub hchannels hclean body
  have hsubscribed : channel ∈ subscriptions (h₁ ++ t :: h₂) ↔
      channel ∈ subscriptions h₁ ∨ channel ∈ subscriptions h₂ := by
    rw [hmakes.subscriptions_eq, List.mem_append]
  constructor
  · intro hiff k hk hbegins
    exact hiff.mp (haccepts.mpr (.inr (.inl ⟨k, hk, hbegins⟩)))
  · intro hcovered
    constructor
    · intro hframe
      obtain hbegins | ⟨k, hk, hbegins⟩ | hlater := haccepts.mp hframe
      · exact absurd hbegins hguid
      · exact hcovered k hk hbegins
      · exact hsubscribed.mpr (.inr hlater)
    · intro hmem
      rcases hsubscribed.mp hmem with hearlier | hlater
      · exact haccepts.mpr (.inr (.inl ⟨channel, hearlier, List.prefix_rfl⟩))
      · exact haccepts.mpr (.inr (.inr hlater))

/-- A node subscribes a channel. -/
def subscribing (channel : Bytes) : Input :=
  .command 100 0
    { cmd? := some .subscribe
      sourceProxyGuid? := some (List.replicate GUID_SIZE 78)
      payload? := some []
      identifier? := some channel } (ascii "tcp://127.0.0.1:9000")

/-- Another node says hello. -/
def greeting : Input :=
  .request 100 true
    { cmd? := some .nodeHello
      payload? := some (List.replicate GUID_SIZE 79 ++ ascii "#tcp://127.0.0.1:9001") }

/-- The channel `news` is subscribed, and then a node says hello. -/
private theorem exists_replayed : ∃ h s sub,
    Proxy.Run (Config.ofSite .first 7770 7780) h s ∧
      s.subscribers.lookup (ascii "tcp://127.0.0.1:9001") = some sub ∧
      subscriptions h = [ascii "news"] ∧ ascii "news" ∈ sub.filters := by
  have hsome : (Proxy.execute (Config.ofSite .first 7770 7780)
      [subscribing (ascii "news"), greeting]).isSome := by decide
  obtain ⟨h, s, hrun, hchannels, hsub⟩ : ∃ h s, Proxy.execute (Config.ofSite .first 7770 7780)
      [subscribing (ascii "news"), greeting] = some (h, s) ∧
        subscriptions h = [ascii "news"] ∧
        ∃ sub ∈ s.subscribers.lookup (ascii "tcp://127.0.0.1:9001"), ascii "news" ∈ sub.filters :=
    ⟨_, _, (Option.some_get hsome).symm, by decide, by decide⟩
  obtain ⟨sub, hlook, hfilter⟩ := hsub
  exact ⟨h, s, sub, Proxy.run_execute hrun, hlook, hchannels, hfilter⟩

/-- The node gets the frames on the channel `news`. -/
theorem accepts_news : ∃ h s sub, Proxy.Run (Config.ofSite .first 7770 7780) h s ∧
    s.subscribers.lookup (ascii "tcp://127.0.0.1:9001") = some sub ∧
      ∀ body, Accepts sub (ascii "news" ++ tab :: body) := by
  obtain ⟨h, s, sub, hrun, hsub, hchannels, -⟩ := exists_replayed
  have hclean : ∀ k ∈ subscriptions h, CleanChannel k := by
    rw [hchannels]
    rintro k hk
    rw [List.mem_singleton.mp hk]
    exact ⟨by decide, by decide⟩
  have hmem : ascii "news" ∈ subscriptions h := by simp [hchannels]
  obtain ⟨h₁, t, hello, h₂, -, -, hiff⟩ :=
    Proxy.Run.accepts_iff_subscribed_iff hrun hclean hsub
  refine ⟨h, s, sub, hrun, hsub, fun body => ?_⟩
  exact ((hiff (ascii "news") (hclean _ hmem) (by decide) body).mpr fun _ _ _ => hmem).mpr hmem

/-- **A channel too many.** The node also gets the frames on the channel `newsflash`, which nobody
has subscribed. -/
theorem accepts_newsflash : ∃ h s sub, Proxy.Run (Config.ofSite .first 7770 7780) h s ∧
    s.subscribers.lookup (ascii "tcp://127.0.0.1:9001") = some sub ∧
      subscriptions h = [ascii "news"] ∧
      ¬ ∀ body, (Accepts sub (ascii "newsflash" ++ tab :: body) ↔
        ascii "newsflash" ∈ subscriptions h) := by
  obtain ⟨h, s, sub, hrun, hsub, hchannels, hfilter⟩ := exists_replayed
  refine ⟨h, s, sub, hrun, hsub, hchannels, fun claim => ?_⟩
  have hbegins : ascii "news" <+: ascii "newsflash" ++ tab :: [] := by decide
  have hmem := (claim []).mp ⟨ascii "news", hfilter, hbegins⟩
  rw [hchannels] at hmem
  revert hmem
  decide

end EsbProxy
