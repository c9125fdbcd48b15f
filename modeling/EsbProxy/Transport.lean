import EsbProxy.Protobuf
import EsbProxy.Publications

/-!
# Frames on the wire

A publisher sends the bytes of the topic, a tab, and the bytes of the command. A subscriber cuts
what it receives at the first tab, and takes what stands behind it for the command. The two fit
together exactly when no tab is in the topic: the channel of an event is a topic, and any node
may name a channel.

## Main definitions

* `Frame.bytes`: what `Publisher::Publish` sends.
* `poll`: what `Subscriber::Poll` makes of it.
* `Recovers`: every subscriber recovers the command of a frame.

## Main results

* `Proxy.Step.sendable`: no published command misses a required field.
* `Proxy.Step.recovers_iff`: the frames whose commands are recovered.
-/

namespace EsbProxy

open Foundation

/-- The bytes that `Publisher::Publish` sends. -/
def Frame.bytes (codec : Codec) (f : Frame) : Bytes := f.topic ++ tab :: codec.serialize f.command

/-- What stands behind the first tab. -/
def behindTab : Bytes → Option Bytes
  | [] => none
  | b :: buffer => if b = tab then some buffer else behindTab buffer

/-- A command as a proxy receives it: the target is the proxy itself. -/
def Command.received (guid : Bytes) (c : Command) : Command :=
  { c with targetProxyGuid? := some guid }

/-- `Subscriber::Poll` on the bytes of a message that a proxy received: the command in it. -/
def poll (codec : Codec) (guid msg : Bytes) : Option Command :=
  if msg.length < 1 then none
  else
    match behindTab msg with
    | none => none
    | some buffer =>
      let (cmdReq, ok) := codec.parse buffer
      if ok then some (cmdReq.received guid) else none

/-- Every subscriber recovers the command of the frame, apart from the target. -/
def Recovers (codec : Codec) (f : Frame) : Prop :=
  ∀ guid, poll codec guid (f.bytes codec) = some (f.command.received guid)

theorem behindTab_append : ∀ {s : Bytes}, tab ∉ s → ∀ buffer : Bytes,
    behindTab (s ++ tab :: buffer) = some buffer
  | [], _, buffer => if_pos rfl
  | b :: s, hs, buffer => by
      obtain ⟨hb, hs⟩ := not_or.mp (mt List.mem_cons.mpr hs)
      rw [List.cons_append, behindTab, if_neg (Ne.symm hb), behindTab_append hs]

/-- A message with a tab is parsed behind the first one. -/
theorem poll_append {before : Bytes} (hbefore : tab ∉ before) (codec : Codec)
    (guid buffer : Bytes) :
    poll codec guid (before ++ tab :: buffer) =
      if (codec.parse buffer).2 then some ((codec.parse buffer).1.received guid) else none := by
  rw [poll, if_neg (by simp), behindTab_append hbefore]

/-! ### Published commands can be sent -/

/-- A command that a codec can send: no required field is missing, the numbers have their types,
and the target is left to the receiver. -/
structure Command.Sendable (c : Command) : Prop where
  isInitialized : c.IsInitialized
  fits : c.Fits
  target : c.targetProxyGuid? = none

/-- A receiver accepts a command that can be sent. -/
theorem Command.Sendable.parse_serialize {c : Command} (hc : c.Sendable) (codec : Codec) :
    codec.parse (codec.serialize c) = (c, true) := by
  rw [codec.parse_serialize c hc.fits, decide_eq_true hc.isInitialized]

/-- Without entries and with a small `recursion`, the three required fields are enough. -/
theorem Command.Sendable.of_required {c : Command} (hcmd : c.cmd?.isSome)
    (hsource : c.sourceProxyGuid?.isSome) (hpayload : c.payload?.isSome)
    (hentries : c.regEntry = []) (hrecursion : c.recursion? = none ∨ c.recursion? = some 1)
    (htarget : c.targetProxyGuid? = none) : c.Sendable := by
  refine ⟨⟨hcmd, hsource, hpayload, by simp [hentries]⟩, fun r hr => ?_, htarget⟩
  rcases hrecursion with hnone | hone
  · simp [hnone] at hr
  · obtain rfl : 1 = r := by simpa [hone] using hr
    rfl

variable {s s' : Proxy} {i : Input} {out : Output} {f : Frame}

/-- **Every command that a proxy publishes can be sent.** -/
theorem Proxy.Step.sendable (hstep : Proxy.Step s i out s') (hf : f ∈ out.frames) :
    f.command.Sendable := by
  have hpublication := hstep.publication
  generalize out.frames = frames at hpublication hf
  cases hpublication with
  | silent => simp at hf
  | answered =>
    obtain rfl := List.mem_singleton.mp hf
    refine ⟨⟨rfl, rfl, rfl, fun e he => ?_⟩, fun r hr => by simp at hr, rfl⟩
    obtain ⟨it, -, he⟩ := List.mem_flatMap.mp he
    obtain ⟨entry, -, rfl⟩ := List.mem_map.mp he
    exact ⟨rfl, rfl, rfl, rfl⟩
  | event =>
    obtain rfl := List.mem_singleton.mp hf
    exact .of_required rfl rfl rfl rfl (.inr rfl) rfl
  | requested =>
    rw [requestRegistryExchange] at hf
    split_ifs at hf
    · simp at hf
    · obtain ⟨it, -, rfl⟩ := List.mem_map.mp hf
      exact .of_required rfl rfl rfl rfl (.inl rfl) rfl
  | _ =>
    obtain rfl := List.mem_singleton.mp hf
    exact .of_required rfl rfl rfl rfl (.inl rfl) rfl

/-! ### What a subscriber recovers -/

/-- Without a tab in the topic, every subscriber recovers the command. -/
theorem recovers_of_notMem (hcommand : f.command.Sendable) (htopic : tab ∉ f.topic)
    (codec : Codec) : Recovers codec f := by
  intro guid
  rw [Frame.bytes, poll_append htopic, hcommand.parse_serialize, if_pos rfl]

/-- With a tab in the topic, the command is recovered when parsing succeeds on the rest of the
topic, the tab behind it and the bytes of the command, and has this command as its result. -/
theorem recovers_iff_parse {before behind : Bytes} (htopic : f.topic = before ++ tab :: behind)
    (hbefore : tab ∉ before) (codec : Codec) :
    Recovers codec f ↔ ∀ guid,
      (codec.parse (behind ++ tab :: codec.serialize f.command)).2 = true ∧
        (codec.parse (behind ++ tab :: codec.serialize f.command)).1.received guid =
          f.command.received guid := by
  refine forall_congr' fun guid => ?_
  rw [Frame.bytes, htopic, List.append_assoc, List.cons_append, poll_append hbefore]
  split_ifs with hok
  · simp [hok]
  · simp [hok]

/-- The bytes of a command, with a byte behind them that tells whether the target is set. -/
def Command.marked (c : Command) : Bytes :=
  c.serialize ++ [if c.targetProxyGuid?.isSome then 1 else 0]

/-- A codec that accepts only what it serializes itself. -/
def strict : Codec where
  serialize := Command.marked
  parse b :=
    let c := (Command.parse b.dropLast).1
    (c, decide (b = c.marked) && decide c.IsInitialized)
  parse_serialize c hfits := by simp [Command.marked, Command.parse_serialize c hfits]

/-- What the strict codec accepts is what it serializes. -/
theorem eq_marked_of_parse_strict {b : Bytes} (hok : (strict.parse b).2 = true) :
    b = (strict.parse b).1.marked :=
  of_decide_eq_true (Bool.and_eq_true_iff.mp hok).1

/-- A command without a target does not end the bytes of the same command with another target
and something in front of it. -/
theorem append_marked_ne {c c' : Command} (htarget : c.targetProxyGuid? = none)
    (hsame : c'.received [] = c.received []) (front : Bytes) (hfront : front ≠ []) :
    front ++ c.marked ≠ c'.marked := by
  intro hbytes
  cases htarget' : c'.targetProxyGuid? with
  | none =>
    have hc : c' = c := by
      calc c' = { c' with targetProxyGuid? := none } := by rw [← htarget']
        _ = { c with targetProxyGuid? := none } :=
          congrArg (fun d : Command => { d with targetProxyGuid? := none }) hsame
        _ = c := by rw [← htarget]
    exact hfront (List.append_left_eq_self.mp (hc ▸ hbytes))
  | some target =>
    have hlast := congrArg List.getLast? hbytes
    simp [Command.marked, htarget, htarget', ← List.append_assoc] at hlast

/-- **Frames on the wire.** The command that a proxy publishes is recovered, whatever codec is
used, exactly when no tab is in the topic. With a tab in it, a subscriber parses from behind the
first one: what is left of the topic, a tab, and the bytes of the command. -/
theorem Proxy.Step.recovers_iff (hstep : Proxy.Step s i out s') (hf : f ∈ out.frames) :
    ((∀ codec, Recovers codec f) ↔ tab ∉ f.topic) ∧
      ∀ before behind, f.topic = before ++ tab :: behind → tab ∉ before → ∀ codec,
        (Recovers codec f ↔ ∀ guid,
          (codec.parse (behind ++ tab :: codec.serialize f.command)).2 = true ∧
            (codec.parse (behind ++ tab :: codec.serialize f.command)).1.received guid =
              f.command.received guid) := by
  have hcommand := hstep.sendable hf
  refine ⟨⟨fun hrecovers htab => ?_, recovers_of_notMem hcommand⟩,
    fun before behind htopic hbefore => recovers_iff_parse htopic hbefore⟩
  obtain ⟨before, behind, htopic, hbefore⟩ := List.eq_append_cons_of_mem htab
  obtain ⟨hok, hsame⟩ := (recovers_iff_parse htopic hbefore strict).mp (hrecovers strict) []
  have hbytes := eq_marked_of_parse_strict hok
  have happend : behind ++ tab :: f.command.marked = (behind ++ [tab]) ++ f.command.marked := by
    simp
  exact append_marked_ne hcommand.target hsame (behind ++ [tab]) (by simp)
    (happend.symm.trans hbytes)

/-- An event of a node. -/
def eventOn (channel : Bytes) : Command where
  cmd? := some .publish
  identifier? := some channel
  sourceProxyGuid? := some (List.replicate GUID_SIZE 78)
  payload? := some (ascii "x")

/-- The command with which the proxy of a site publishes the event. -/
def publishedEvent (site : Site) (channel : Bytes) : Command where
  cmd? := some .publish
  identifier? := some channel
  sourceProxyGuid? := some (List.replicate GUID_SIZE site.letter)
  payload? := some (ascii "x")
  recursion? := some 1

/-- An event on the channel `news` is recovered. -/
theorem recovers_news :
    Recovers protobuf ⟨ascii "news", publishedEvent .first (ascii "news")⟩ := by
  have hstep : Proxy.Step (Proxy.init (Config.ofSite .first 7770 7780))
      (.command 100 0 (eventOn (ascii "news")) (ascii "tcp://127.0.0.1:9000"))
      { frames := [⟨ascii "news", publishedEvent .first (ascii "news")⟩] }
      (Proxy.init (Config.ofSite .first 7770 7780)) := rfl
  exact (hstep.recovers_iff List.mem_cons_self).1.mpr (by decide) protobuf

/-- **An event that is lost.** A node publishes on a channel with a tab in its name. The proxy
publishes the event, and with the wire format of `command.proto` no subscriber recovers it. -/
theorem lost_event :
    ∃ h s, Proxy.Run (Config.ofSite .first 7770 7780) h s ∧
      ∃ t ∈ h, ∃ f ∈ t.out.frames, f.command = publishedEvent .first (ascii "a\tb") ∧
        f.topic = ascii "a\tb" ∧ ¬ Recovers protobuf f ∧
        ∀ guid, poll protobuf guid (f.bytes protobuf) = none := by
  have hstep : Proxy.Step (Proxy.init (Config.ofSite .first 7770 7780))
      (.command 100 0 (eventOn (ascii "a\tb")) (ascii "tcp://127.0.0.1:9000"))
      { frames := [⟨ascii "a\tb", publishedEvent .first (ascii "a\tb")⟩] }
      (Proxy.init (Config.ofSite .first 7770 7780)) := rfl
  have hparse : (protobuf.parse (ascii "b" ++ tab ::
      protobuf.serialize (publishedEvent .first (ascii "a\tb")))).2 = false := by decide
  have hlost : ∀ guid, poll protobuf guid
      (Frame.bytes protobuf ⟨ascii "a\tb", publishedEvent .first (ascii "a\tb")⟩) = none := by
    intro guid
    have hcut := poll_append (show tab ∉ ascii "a" by decide) protobuf guid
      (ascii "b" ++ tab :: protobuf.serialize (publishedEvent .first (ascii "a\tb")))
    rwa [hparse, if_neg (by decide)] at hcut
  refine ⟨_, _, Trace.nil.snoc hstep, _, List.mem_singleton.mpr rfl, _,
    List.mem_singleton.mpr rfl, rfl, rfl, fun hrecovers => ?_, hlost⟩
  have hnone := hlost []
  rw [hrecovers []] at hnone
  simp at hnone

end EsbProxy
