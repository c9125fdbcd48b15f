import EsbProxy.Foundation.Trace
import EsbProxy.RedisFormat

/-!
# Sessions with Redis

`redisCommand` appends a command to the output buffer of the context and, when the reader has no
reply at hand, writes the buffer out and reads until there is one. What the calls of `write` and
`read` return is an input: parts of what was asked for, interruptions, errors, the end of the
stream.

## Main definitions

* `RedisContext`, `redisBufferWrite`, `redisBufferRead`, `redisGetReply`, `redisCommand`.
* `RedisContext.Step`: a call of `redisCommand` that returns.

## Main results

* `Session.sent_eq`: the bytes that were written are those of the commands, in their order.
* `Session.results_eq`: the calls return the replies of the stream, in their order, and from the
  first failure on nothing.
* `Session.served`: a call returns the reply to its own command.
* `Session.no_fault`: no call does what a reader must not do.
-/

namespace EsbProxy

open Foundation

/-! ### The calls -/

/-- What `write` returns: `-1` with `EINTR`, `-1` with another error, or how many bytes it wrote. -/
inductive WriteResult
  | interrupted
  | failed
  | wrote (n : ℕ)

/-- What `read` returns: `-1` with `EINTR`, `-1` with another error, `0`, or bytes. -/
inductive ReadResult
  | interrupted
  | failed
  | closed
  | received (b : Bytes)

/-- The bytes that `read` gives. -/
def ReadResult.bytes : ReadResult → Bytes
  | received b => b
  | interrupted | failed | closed => []

/-- `redisContext`, of a blocking connection. -/
structure RedisContext where
  err : Bool
  obuf : Bytes
  reader : RedisReader

/-- `redisContextInit`. -/
def redisContextInit : RedisContext := ⟨false, [], redisReaderCreate⟩

/-- How a call ends: it waits for another result of `write` or `read`, returns `NULL`, or returns a
reply. -/
inductive Outcome
  | blocked
  | failed
  | reply (obj : Reply)

/-- What a call puts out: the bytes that it wrote and read, and how it ended. -/
structure Exchange where
  sent : Bytes
  received : Bytes
  outcome : Outcome

/-- `redisBufferWrite` with something in the output buffer, and the bytes that it writes. -/
def redisBufferWrite (c : RedisContext) : WriteResult → RedisContext × Bytes
  | .interrupted => (c, [])
  | .failed => ({ c with err := true }, [])
  | .wrote n => ({ c with obuf := c.obuf.drop n }, c.obuf.take n)

/-- `do redisBufferWrite while (!wdone)`. -/
def writeUntilDone : List WriteResult → RedisContext → RedisContext × Bytes
  | [], c => (c, [])
  | w :: ws, c =>
    if c.err ∨ c.obuf = [] then (c, [])
    else
      let (c', sent) := redisBufferWrite c w
      let (c'', sent') := writeUntilDone ws c'
      (c'', sent ++ sent')

/-- `redisBufferRead`, and the bytes that it reads. -/
def redisBufferRead (c : RedisContext) (r : ReadResult) : RedisContext × Bytes :=
  if c.err then (c, [])
  else
    match r with
    | .interrupted => (c, [])
    | .failed | .closed => ({ c with err := true }, [])
    | .received b =>
      -- `redisReaderFeed` returns `REDIS_ERR`
      if c.reader.err then ({ c with err := true }, b)
      else ({ c with reader := redisReaderFeed b c.reader }, b)

/-- `redisGetReplyFromReader`. -/
def redisGetReplyFromReader (c : RedisContext) : Except ReaderFault (RedisContext × GetReply) :=
  match redisReaderGetReply c.reader with
  | .error fault => .error fault
  | .ok (reader, .failed) => .ok ({ c with err := true, reader := reader }, .failed)
  | .ok (reader, result) => .ok ({ c with reader := reader }, result)

/-- `do redisBufferRead, redisGetReplyFromReader while (aux == NULL)`. -/
def readUntilReply : List ReadResult → RedisContext →
    Except ReaderFault (RedisContext × Bytes × Outcome)
  | [], c => .ok (c, [], .blocked)
  | r :: rs, c =>
    let (c, b) := redisBufferRead c r
    if c.err then .ok (c, b, .failed)
    else
      match redisGetReplyFromReader c with
      | .error fault => .error fault
      | .ok (c, .failed) => .ok (c, b, .failed)
      | .ok (c, .reply obj) => .ok (c, b, .reply obj)
      | .ok (c, .pending) =>
        match readUntilReply rs c with
        | .error fault => .error fault
        | .ok (c', b', outcome) => .ok (c', b ++ b', outcome)

/-- `redisGetReply`. -/
def redisGetReply (ws : List WriteResult) (rs : List ReadResult) (c : RedisContext) :
    Except ReaderFault (RedisContext × Exchange) :=
  match redisGetReplyFromReader c with
  | .error fault => .error fault
  | .ok (c, .failed) => .ok (c, ⟨[], [], .failed⟩)
  | .ok (c, .reply obj) => .ok (c, ⟨[], [], .reply obj⟩)
  | .ok (c, .pending) =>
    let (c, sent) := writeUntilDone ws c
    if c.err then .ok (c, ⟨sent, [], .failed⟩)
    else if c.obuf ≠ [] then .ok (c, ⟨sent, [], .blocked⟩)
    else
      match readUntilReply rs c with
      | .error fault => .error fault
      | .ok (c, b, outcome) => .ok (c, ⟨sent, b, outcome⟩)

/-- A call of `redisCommand`: the formatted command, and what `write` and `read` return. -/
structure Request where
  cmd : Bytes
  writes : List WriteResult
  reads : List ReadResult

/-- `redisCommand`, when the command was formatted. -/
def redisCommand (a : Request) (c : RedisContext) :
    Except ReaderFault (RedisContext × Exchange) :=
  redisGetReply a.writes a.reads { c with obuf := c.obuf ++ a.cmd }

/-- A call of `redisCommand` that returns. -/
def RedisContext.Step (c : RedisContext) (a : Request) (o : Exchange) (c' : RedisContext) : Prop :=
  redisCommand a c = .ok (c', o) ∧ o.outcome ≠ .blocked

/-! ### A context that works, and one that does not -/

namespace RedisContext

/-- A context that works: the reader has delivered these replies of the bytes that were read. -/
structure Alive (stream : Bytes) (replies : List Reply) (c : RedisContext) : Prop where
  err : c.err = false
  waits : c.reader.Waits stream
  steps : replyReader.Steps (ReadState.idle.feed stream, []) (c.reader.view, replies)

/-- A context in error, without a reply at hand. -/
def Dead (c : RedisContext) : Prop :=
  c.err = true ∧ (c.reader.err = true ∨
    ∃ stream, c.reader.Waits stream ∧ c.reader.view.next = .ok none)

end RedisContext

section

variable {c c' : RedisContext} {stream sent : Bytes} {replies : List Reply}

/-- A reader that waits for input goes on waiting. -/
theorem RedisReader.Waits.getReply_of_next {r : RedisReader} (hr : r.Waits stream)
    (hnext : r.view.next = .ok none) :
    ∃ r', redisReaderGetReply r = .ok (r', .pending) ∧ r'.Waits stream ∧ r'.view = r.view := by
  have hblocked : ∀ replies, nextReply (r.view, replies) = .ok none := by
    intro replies
    have hstack : r.view.rstack ≠ [] := start_rstack _
    rw [nextReply_of_stack hstack, hnext]
    rfl
  -- a reader that waits takes no steps
  have hstuck : ∀ {x} (replies : List Reply), replyReader.Steps (r.view, replies) x →
      x = (r.view, replies) := by
    intro x replies hsteps
    obtain heq | ⟨y, hfirst, -⟩ := Relation.ReflTransGen.cases_head hsteps
    · exact heq.symm
    · have hstep : nextReply (r.view, replies) = .ok (some y) := hfirst
      rw [hblocked] at hstep
      simp at hstep
  have hgot := hr.got
  generalize redisReaderGetReply r = x at hgot ⊢
  cases hgot with
  | reply r' obj hwaits hsteps =>
    have heq := congrArg Prod.snd (hstuck [] (hsteps []))
    simp at heq
  | pending r' hwaits hsteps hnext' =>
    exact ⟨r', rfl, hwaits, congrArg Prod.fst (hstuck [] (hsteps []))⟩
  | failed r' herr hsteps =>
    have heq : readerError = r.view := congrArg Prod.fst (hstuck [] (hsteps []))
    have hview : r.view.err = false := by rw [RedisReader.view, start_err, hr.err]
    rw [← heq] at hview
    simp [readerError] at hview
  | faulted fault s hreads hsteps hfault =>
    have heq : s = r.view := congrArg Prod.fst (hstuck [] (hsteps []))
    rw [heq, hnext] at hfault
    simp at hfault

/-- Writing neither loses a byte nor writes one twice, and leaves the reader alone. -/
theorem of_writeUntilDone : ∀ {ws : List WriteResult} {c c' : RedisContext} {sent : Bytes},
    writeUntilDone ws c = (c', sent) →
      sent ++ c'.obuf = c.obuf ∧ c'.reader = c.reader ∧ (c.err = true → c' = c ∧ sent = [])
  | [], c, c', sent, hwrite => by
      obtain ⟨rfl, rfl⟩ := Prod.mk.inj hwrite
      simp
  | w :: ws, c, c', sent, hwrite => by
      rw [writeUntilDone] at hwrite
      split_ifs at hwrite with hdone
      · obtain ⟨rfl, rfl⟩ := Prod.mk.inj hwrite
        simp
      · cases hfirst : redisBufferWrite c w with
        | mk c₁ sent₁ =>
          cases hrest : writeUntilDone ws c₁ with
          | mk c₂ sent₂ =>
            simp only [hfirst, hrest] at hwrite
            obtain ⟨rfl, rfl⟩ := Prod.mk.inj hwrite
            obtain ⟨hobuf, hreader, -⟩ := of_writeUntilDone hrest
            have hone : sent₁ ++ c₁.obuf = c.obuf ∧ c₁.reader = c.reader := by
              cases w with
              | interrupted | failed =>
                obtain ⟨rfl, rfl⟩ := Prod.mk.inj hfirst
                exact ⟨rfl, rfl⟩
              | wrote n =>
                obtain ⟨rfl, rfl⟩ := Prod.mk.inj hfirst
                exact ⟨List.take_append_drop n c.obuf, rfl⟩
            refine ⟨?_, hreader.trans hone.2, fun herr => absurd (.inl herr) hdone⟩
            rw [List.append_assoc, hobuf, hone.1]

/-- What `redisGetReplyFromReader` does to a context that works. -/
inductive FromReader (stream : Bytes) (replies : List Reply) (c : RedisContext) :
    Except ReaderFault (RedisContext × GetReply) → Prop
  | reply (c' : RedisContext) (obj : Reply) (hobuf : c'.obuf = c.obuf)
      (halive : c'.Alive stream (replies ++ [obj])) :
      FromReader stream replies c (.ok (c', .reply obj))
  | pending (c' : RedisContext) (hobuf : c'.obuf = c.obuf) (halive : c'.Alive stream replies)
      (hnext : c'.reader.view.next = .ok none) : FromReader stream replies c (.ok (c', .pending))
  | failed (c' : RedisContext) (hobuf : c'.obuf = c.obuf) (hdead : c'.Dead) :
      FromReader stream replies c (.ok (c', .failed))
  | faulted (fault : ReaderFault) (hmoderate : ¬ Moderate stream) :
      FromReader stream replies c (.error fault)

theorem RedisContext.Alive.fromReader (hc : c.Alive stream replies) :
    FromReader stream replies c (redisGetReplyFromReader c) := by
  rw [redisGetReplyFromReader]
  have hgot := hc.waits.got
  generalize redisReaderGetReply c.reader = x at hgot ⊢
  cases hgot with
  | reply r' obj hwaits hsteps =>
    exact .reply _ obj rfl ⟨hc.err, hwaits, hc.steps.trans (hsteps replies)⟩
  | pending r' hwaits hsteps hnext =>
    exact .pending _ rfl ⟨hc.err, hwaits, hc.steps.trans (hsteps replies)⟩ hnext
  | failed r' herr hsteps => exact .failed _ rfl ⟨rfl, .inl herr⟩
  | faulted fault s hreads hsteps hnext =>
    refine .faulted fault fun hmoderate => ?_
    obtain ⟨y, hok⟩ := hreads.next.1 hmoderate
    rw [hnext] at hok
    simp at hok

/-- A context that waits for a reply and gets into error is dead. -/
theorem RedisContext.Alive.dead (hc : c.Alive stream replies)
    (hnext : c.reader.view.next = .ok none) : RedisContext.Dead { c with err := true } :=
  ⟨rfl, .inr ⟨stream, hc.waits, hnext⟩⟩

theorem RedisContext.Alive.of_bufferRead (hc : c.Alive stream replies)
    (hnext : c.reader.view.next = .ok none) {r : ReadResult} {b : Bytes}
    (hread : redisBufferRead c r = (c', b)) :
    c'.obuf = c.obuf ∧ r.bytes = b ∧ (c'.Dead ∨ c'.Alive (stream ++ b) replies) := by
  unfold redisBufferRead at hread
  rw [if_neg (by simp [hc.err])] at hread
  cases r with
  | interrupted =>
    obtain ⟨rfl, rfl⟩ := Prod.mk.inj hread
    rw [List.append_nil]
    exact ⟨rfl, rfl, .inr hc⟩
  | failed | closed =>
    obtain ⟨rfl, rfl⟩ := Prod.mk.inj hread
    exact ⟨rfl, rfl, .inl (hc.dead hnext)⟩
  | received piece =>
    simp only [hc.waits.err, Bool.false_eq_true, if_false] at hread
    obtain ⟨rfl, rfl⟩ := Prod.mk.inj hread
    refine ⟨rfl, rfl, .inr ⟨hc.err, hc.waits.feed piece, ?_⟩⟩
    have hsteps := hc.steps.feed piece
    have hfeed : replyReader.feed piece (ReadState.idle.feed stream, []) =
        (ReadState.idle.feed (stream ++ piece), []) :=
      replyReader.feed_feed stream piece (.idle, [])
    rw [hfeed] at hsteps
    rw [view_redisReaderFeed]
    exact hsteps

/-- Reading ends with the next reply of the stream, or with an error. -/
theorem RedisContext.Alive.of_readUntilReply : ∀ {rs : List ReadResult} {stream : Bytes}
    {c c' : RedisContext} {b : Bytes} {outcome : Outcome}, c.Alive stream replies →
    c.reader.view.next = .ok none → readUntilReply rs c = .ok (c', b, outcome) →
      c'.obuf = c.obuf ∧ (outcome = .blocked ∨ outcome = .failed ∧ c'.Dead ∨
        ∃ obj, outcome = .reply obj ∧ c'.Alive (stream ++ b) (replies ++ [obj]))
  | [], stream, c, c', b, outcome, hc, hnext, hread => by
      obtain ⟨rfl, -, rfl⟩ : c = c' ∧ [] = b ∧ Outcome.blocked = outcome := by
        simpa [readUntilReply] using hread
      exact ⟨rfl, .inl rfl⟩
  | r :: rs, stream, c, c', b, outcome, hc, hnext, hread => by
      rw [readUntilReply] at hread
      cases hfirst : redisBufferRead c r with
      | mk c₁ b₁ =>
        obtain ⟨hobuf, -, hcases⟩ := hc.of_bufferRead hnext hfirst
        simp only [hfirst] at hread
        by_cases herr : c₁.err = true
        · -- an error of `read`
          rw [if_pos herr] at hread
          obtain ⟨rfl, rfl, rfl⟩ : c₁ = c' ∧ b₁ = b ∧ Outcome.failed = outcome := by
            simpa using hread
          refine ⟨hobuf, .inr (.inl ⟨rfl, hcases.resolve_right fun halive => ?_⟩)⟩
          simp [halive.err] at herr
        rw [if_neg herr] at hread
        have halive := hcases.resolve_left fun hdead => herr hdead.1
        have hreader := halive.fromReader
        generalize redisGetReplyFromReader c₁ = x at hreader hread
        cases hreader with
        | reply c₂ obj hobuf₂ halive₂ =>
          obtain ⟨rfl, rfl, rfl⟩ : c₂ = c' ∧ b₁ = b ∧ Outcome.reply obj = outcome := by
            simpa using hread
          exact ⟨hobuf₂.trans hobuf, .inr (.inr ⟨obj, rfl, halive₂⟩)⟩
        | pending c₂ hobuf₂ halive₂ hnext₂ =>
          cases hrest : readUntilReply rs c₂ with
          | error fault => simp [hrest] at hread
          | ok y =>
            obtain ⟨c₃, b₃, outcome₃⟩ := y
            obtain ⟨rfl, rfl, rfl⟩ : c₃ = c' ∧ b₁ ++ b₃ = b ∧ outcome₃ = outcome := by
              simpa [hrest] using hread
            obtain ⟨hobuf₃, hends⟩ := halive₂.of_readUntilReply hnext₂ hrest
            rw [List.append_assoc] at hends
            exact ⟨hobuf₃.trans (hobuf₂.trans hobuf), hends⟩
        | failed c₂ hobuf₂ hdead =>
          obtain ⟨rfl, rfl, rfl⟩ : c₂ = c' ∧ b₁ = b ∧ Outcome.failed = outcome := by
            simpa using hread
          exact ⟨hobuf₂.trans hobuf, .inr (.inl ⟨rfl, hdead⟩)⟩
        | faulted fault hmoderate => simp at hread

/-- Reading a moderate stream does not fail. -/
theorem RedisContext.Alive.exists_readUntilReply : ∀ {rs : List ReadResult} {stream : Bytes}
    {c : RedisContext}, c.Alive stream replies → c.reader.view.next = .ok none →
    Moderate (stream ++ rs.flatMap ReadResult.bytes) → ∃ y, readUntilReply rs c = .ok y
  | [], stream, c, _, _, _ => ⟨_, rfl⟩
  | r :: rs, stream, c, hc, hnext, hmoderate => by
      rw [readUntilReply]
      cases hfirst : redisBufferRead c r with
      | mk c₁ b =>
        obtain ⟨-, rfl, hcases⟩ := hc.of_bufferRead hnext hfirst
        rw [List.flatMap_cons, ← List.append_assoc] at hmoderate
        dsimp only
        by_cases herr : c₁.err = true
        · rw [if_pos herr]
          exact ⟨_, rfl⟩
        rw [if_neg herr]
        have halive := hcases.resolve_left fun hdead => herr hdead.1
        have hreader := halive.fromReader
        generalize redisGetReplyFromReader c₁ = x at hreader ⊢
        cases hreader with
        | reply c₂ obj => exact ⟨_, rfl⟩
        | pending c₂ _ halive₂ hnext₂ =>
          obtain ⟨y, hrest⟩ := halive₂.exists_readUntilReply hnext₂ hmoderate
          dsimp only
          rw [hrest]
          exact ⟨_, rfl⟩
        | failed c₂ => exact ⟨_, rfl⟩
        | faulted fault hfault => exact absurd hmoderate.of_append hfault

/-! ### The calls of `redisCommand` -/

/-- What a call does to a context that works. A reply that is not read during the call was at hand
before it. -/
theorem RedisContext.Alive.step {a : Request} {o : Exchange} (hc : c.Alive stream replies)
    (hstep : c.Step a o c') : o.sent ++ c'.obuf = c.obuf ++ a.cmd ∧
      (o.outcome = .failed ∧ c'.Dead ∨ ∃ obj, o.outcome = .reply obj ∧
        c'.Alive (stream ++ o.received) (replies ++ [obj]) ∧
          (c'.obuf = [] ∨ replies ++ [obj] <+: repliesOf stream)) := by
  obtain ⟨hcall, hreturns⟩ := hstep
  have hc₀ : RedisContext.Alive stream replies { c with obuf := c.obuf ++ a.cmd } :=
    ⟨hc.err, hc.waits, hc.steps⟩
  rw [redisCommand, redisGetReply] at hcall
  have hreader := hc₀.fromReader
  generalize redisGetReplyFromReader { c with obuf := c.obuf ++ a.cmd } = x at hreader hcall
  cases hreader with
  | reply c₁ obj hobuf halive =>
    obtain ⟨rfl, rfl⟩ := Prod.mk.inj (Except.ok.inj hcall)
    refine ⟨hobuf, .inr ⟨obj, rfl, by rwa [List.append_nil], .inr (prefix_repliesOf halive.steps)⟩⟩
  | pending c₁ hobuf halive hnext =>
    cases hwrite : writeUntilDone a.writes c₁ with
    | mk c₂ sent =>
      obtain ⟨hsent, hsame, -⟩ := of_writeUntilDone hwrite
      rw [hobuf] at hsent
      simp only [hwrite] at hcall
      split_ifs at hcall with herr hobuf₂
      · -- an error of `write`
        obtain ⟨rfl, rfl⟩ := Prod.mk.inj (Except.ok.inj hcall)
        refine ⟨hsent, .inl ⟨rfl, herr, .inr ⟨stream, ?_, ?_⟩⟩⟩
        · rw [hsame]
          exact halive.waits
        · rw [hsame]
          exact hnext
      · obtain ⟨rfl, rfl⟩ := Prod.mk.inj (Except.ok.inj hcall)
        exact absurd rfl hreturns
      · have hobuf₂ : c₂.obuf = [] := by simpa using hobuf₂
        have halive₂ : c₂.Alive stream replies := by
          refine ⟨by simpa using herr, ?_, ?_⟩
          · rw [hsame]
            exact halive.waits
          · rw [hsame]
            exact halive.steps
        cases hread : readUntilReply a.reads c₂ with
        | error fault => simp [hread] at hcall
        | ok y =>
          obtain ⟨c₃, b, outcome⟩ := y
          simp only [hread] at hcall
          obtain ⟨rfl, rfl⟩ := Prod.mk.inj (Except.ok.inj hcall)
          obtain ⟨hobuf₃, hends⟩ := halive₂.of_readUntilReply (by rw [hsame]; exact hnext) hread
          refine ⟨by rw [hobuf₃]; exact hsent, ?_⟩
          obtain hblocked | hfailed | ⟨obj, hreply, halive₃⟩ := hends
          · exact absurd hblocked hreturns
          · exact .inl hfailed
          · exact .inr ⟨obj, hreply, halive₃, .inl (hobuf₃.trans hobuf₂)⟩
  | failed c₁ hobuf hdead =>
    obtain ⟨rfl, rfl⟩ := Prod.mk.inj (Except.ok.inj hcall)
    exact ⟨hobuf, .inl ⟨rfl, hdead⟩⟩
  | faulted fault hmoderate => simp at hcall

/-- A context in error stays in error: every call fails, writes nothing and reads nothing. -/
theorem RedisContext.Dead.redisCommand_eq (hc : c.Dead) (a : Request) :
    ∃ c', redisCommand a c = .ok (c', ⟨[], [], .failed⟩) ∧ c'.Dead ∧ c'.obuf = c.obuf ++ a.cmd := by
  rw [redisCommand, redisGetReply, redisGetReplyFromReader]
  obtain ⟨herr, hreader | ⟨stream, hwaits, hnext⟩⟩ := hc
  · have hget : redisReaderGetReply c.reader = .ok (c.reader, .failed) := by
      rw [redisReaderGetReply, if_pos hreader]
    simp only [hget]
    exact ⟨_, rfl, ⟨rfl, .inl hreader⟩, rfl⟩
  · obtain ⟨r', hget, hwaits', hview⟩ := hwaits.getReply_of_next hnext
    simp only [hget]
    cases hwrite : writeUntilDone a.writes
        { c with obuf := c.obuf ++ a.cmd, reader := r' } with
    | mk c₂ sent =>
      obtain ⟨-, -, hnothing⟩ := of_writeUntilDone hwrite
      obtain ⟨rfl, rfl⟩ := hnothing herr
      simp only [herr, if_true]
      exact ⟨_, rfl, ⟨rfl, .inr ⟨stream, hwaits', by rw [hview]; exact hnext⟩⟩, rfl⟩

theorem RedisContext.Dead.step {a : Request} {o : Exchange} (hc : c.Dead)
    (hstep : c.Step a o c') :
    c'.Dead ∧ c'.obuf = c.obuf ++ a.cmd ∧ o = ⟨[], [], .failed⟩ := by
  obtain ⟨c₁, hcall, hdead, hobuf⟩ := hc.redisCommand_eq a
  obtain ⟨rfl, rfl⟩ := Prod.mk.inj (Except.ok.inj (hcall.symm.trans hstep.1))
  exact ⟨hdead, hobuf, rfl⟩

/-- A call that reads a moderate stream does not fail on it. -/
theorem RedisContext.Alive.exists_redisCommand (hc : c.Alive stream replies) {a : Request}
    (hmoderate : Moderate (stream ++ a.reads.flatMap ReadResult.bytes)) :
    ∃ y, redisCommand a c = .ok y := by
  have hc₀ : RedisContext.Alive stream replies { c with obuf := c.obuf ++ a.cmd } :=
    ⟨hc.err, hc.waits, hc.steps⟩
  rw [redisCommand, redisGetReply]
  have hreader := hc₀.fromReader
  generalize redisGetReplyFromReader { c with obuf := c.obuf ++ a.cmd } = x at hreader ⊢
  cases hreader with
  | reply c₁ obj => exact ⟨_, rfl⟩
  | pending c₁ hobuf halive hnext =>
    cases hwrite : writeUntilDone a.writes c₁ with
    | mk c₂ sent =>
      obtain ⟨-, hsame, -⟩ := of_writeUntilDone hwrite
      simp only [hwrite]
      split_ifs with herr hobuf₂
      · exact ⟨_, rfl⟩
      · exact ⟨_, rfl⟩
      · have halive₂ : c₂.Alive stream replies := by
          refine ⟨by simpa using herr, ?_, ?_⟩
          · rw [hsame]
            exact halive.waits
          · rw [hsame]
            exact halive.steps
        obtain ⟨y, hread⟩ := halive₂.exists_readUntilReply (by rw [hsame]; exact hnext) hmoderate
        rw [hread]
        exact ⟨_, rfl⟩
  | failed c₁ => exact ⟨_, rfl⟩
  | faulted fault hfault => exact absurd hmoderate.of_append hfault

end

/-! ### Sessions -/

/-- The reply that a call returns, or `NULL`. -/
def Outcome.result : Outcome → Option Reply
  | reply obj => some obj
  | blocked | failed => none

/-- The calls of a session. -/
abbrev Session := List (Transition RedisContext Request Exchange)

namespace Session

/-- The commands of the calls. -/
def commands (log : Session) : List Bytes := log.map fun t => t.action.cmd

/-- The bytes that were written. -/
def sent (log : Session) : Bytes := log.flatMap fun t => t.out.sent

/-- The bytes that were read. -/
def received (log : Session) : Bytes := log.flatMap fun t => t.out.received

/-- What the calls returned. -/
def results (log : Session) : List (Option Reply) := log.map fun t => t.out.outcome.result

section

variable (log : Session) (t : Transition RedisContext Request Exchange)

theorem commands_snoc : commands (log ++ [t]) = log.commands ++ [t.action.cmd] := by
  simp [commands]

theorem sent_snoc : sent (log ++ [t]) = log.sent ++ t.out.sent := by
  simp [sent]

theorem received_snoc : received (log ++ [t]) = log.received ++ t.out.received := by
  simp [received]

theorem results_snoc : results (log ++ [t]) = log.results ++ [t.out.outcome.result] := by
  simp [results]

end

/-- What holds of a session, and of its context after the last call. -/
structure Valid (log : Session) (c : RedisContext) (replies : List Reply) (failures : ℕ) :
    Prop where
  bytes : log.sent ++ c.obuf = log.commands.flatten
  returned : log.results = replies.map some ++ List.replicate failures none
  delivered : replies <+: repliesOf log.received
  context : failures = 0 ∧ c.Alive log.received replies ∨ c.Dead

variable {log : Session} {c : RedisContext}

theorem valid_nil : Valid [] redisContextInit [] 0 where
  bytes := rfl
  returned := rfl
  delivered := List.nil_prefix
  context := .inl ⟨rfl, rfl, waits_redisReaderCreate, .refl⟩

/-- A call keeps what holds of a session. -/
theorem Valid.snoc {replies : List Reply} {failures : ℕ} {a : Request} {o : Exchange}
    {c' : RedisContext} (h : Valid log c replies failures) (hstep : c.Step a o c') :
    ∃ replies' failures', Valid (log ++ [⟨c, a, o, c'⟩]) c' replies' failures' := by
  have hmore : replies <+: repliesOf (log.received ++ o.received) :=
    h.delivered.trans (repliesOf_mono _ _)
  obtain ⟨rfl, halive⟩ | hdead := h.context
  · obtain ⟨hbytes, ⟨hfailed, hdead⟩ | ⟨obj, hreply, halive', -⟩⟩ := halive.step hstep
    · refine ⟨replies, 1, ?_, ?_, by rwa [received_snoc], .inr hdead⟩
      · rw [sent_snoc, commands_snoc, List.flatten_append, List.flatten_singleton, ← h.bytes,
          List.append_assoc, List.append_assoc, hbytes]
      · rw [results_snoc, h.returned, hfailed]
        simp [Outcome.result]
    · refine ⟨replies ++ [obj], 0, ?_, ?_, ?_, .inl ⟨rfl, ?_⟩⟩
      · rw [sent_snoc, commands_snoc, List.flatten_append, List.flatten_singleton, ← h.bytes,
          List.append_assoc, List.append_assoc, hbytes]
      · rw [results_snoc, h.returned, hreply]
        simp [Outcome.result]
      · rw [received_snoc]
        exact prefix_repliesOf halive'.steps
      · rwa [received_snoc]
  · obtain ⟨hdead', hobuf, rfl⟩ := hdead.step hstep
    refine ⟨replies, failures + 1, ?_, ?_, by rwa [received_snoc], .inr hdead'⟩
    · rw [sent_snoc, commands_snoc, List.flatten_append, List.flatten_singleton, ← h.bytes, hobuf,
        List.append_nil, List.append_assoc]
    · rw [results_snoc, h.returned, List.replicate_succ', List.append_assoc]
      rfl

/-- Every session is valid. -/
theorem exists_valid (run : Trace RedisContext.Step redisContextInit log c) :
    ∃ replies failures, Valid log c replies failures := by
  induction run with
  | nil => exact ⟨[], 0, valid_nil⟩
  | snoc run last ih =>
    obtain ⟨replies, failures, h⟩ := ih
    exact h.snoc last

/-- A call that writes its command and reads the reply in two parts each. -/
def ping : Request where
  cmd := protocolBytes [ascii "PING"]
  writes := [.wrote 3, .interrupted, .wrote 11]
  reads := [.received (ascii "+PO"), .interrupted, .received (ascii "NG" ++ [cr, lf])]

/-- What this call does first of all in a session. -/
def pinged : Transition RedisContext Request Exchange where
  pre := redisContextInit
  action := ping
  out := ⟨ping.cmd, ascii "+PONG" ++ [cr, lf], .reply (.status (ascii "PONG"))⟩
  post := ⟨false, [], ⟨⟨false, [], [], none⟩, 7⟩⟩

theorem run_pinged : Trace RedisContext.Step redisContextInit [pinged] pinged.post :=
  Trace.nil.snoc ⟨rfl, by simp⟩

variable (answer : List Bytes → Reply)

/-- The replies of a server that answers every command when it has the commands up to it. -/
def answers (cmds : List Bytes) : List Reply :=
  (List.range cmds.length).map fun n => answer (cmds.take (n + 1))

/-- The bytes that are read are those of the replies to the commands that were given, in every part
of the session. -/
def Served (log : Session) : Prop :=
  ∀ part, part <+: log → received part <+: Reply.encodeAll (answers answer (commands part))

theorem answers_snoc (cmds : List Bytes) (cmd : Bytes) :
    answers answer (cmds ++ [cmd]) = answers answer cmds ++ [answer (cmds ++ [cmd])] := by
  rw [answers, List.length_append, List.length_singleton, List.range_succ, List.map_append,
    List.map_singleton, List.take_of_length_le (by simp)]
  refine congrArg (· ++ _) (List.map_congr_left fun n hn => ?_)
  rw [List.take_append_of_le_length (by have := List.mem_range.mp hn; omega)]

variable {answer}

theorem allFit_answers (hfits : ∀ cmds, (answer cmds).Fits 8) (cmds : List Bytes) :
    Reply.AllFit 8 (answers answer cmds) := by
  induction cmds using List.reverseRecOn with
  | nil => trivial
  | append_singleton cmds cmd ih =>
    rw [answers_snoc]
    exact allFit_append (hfits _) ih

theorem served_nil : Served answer [] := by
  intro part hpart
  obtain rfl := List.prefix_nil.mp hpart
  exact List.nil_prefix

theorem Served.snoc (hserved : Served answer log) {t : Transition RedisContext Request Exchange}
    (hlast : received (log ++ [t]) <+: Reply.encodeAll (answers answer (commands (log ++ [t])))) :
    Served answer (log ++ [t]) := by
  intro part hpart
  obtain rfl | hpart := List.prefix_concat_iff.mp hpart
  · exact hlast
  · exact hserved part hpart

/-- The replies that are read are answers. -/
theorem Served.replies_le (hserved : Served answer log) (hfits : ∀ cmds, (answer cmds).Fits 8) :
    repliesOf log.received <+: answers answer log.commands := by
  obtain ⟨rest, hrest⟩ := hserved log (List.prefix_refl log)
  have hmore := repliesOf_mono log.received rest
  rw [hrest, repliesOf_encodeAll (allFit_answers hfits _)] at hmore
  exact hmore

/-- **One answer.** A call with nothing in the output buffer, in a context that returned all
answers, writes its command and returns the answer to it, or it fails. -/
theorem Served.step (hfits : ∀ cmds, (answer cmds).Fits 8) {a : Request} {o : Exchange}
    {c' : RedisContext} (hserved : Served answer (log ++ [⟨c, a, o, c'⟩])) (hobuf : c.obuf = [])
    (halive : c.Alive log.received (answers answer log.commands)) (hstep : c.Step a o c') :
    o.outcome = .failed ∧ c'.Dead ∨
      o.outcome = .reply (answer (log.commands ++ [a.cmd])) ∧ o.sent = a.cmd ∧ c'.obuf = [] ∧
        c'.Alive (received (log ++ [⟨c, a, o, c'⟩]))
          (answers answer (commands (log ++ [⟨c, a, o, c'⟩]))) := by
  have hbefore : Served answer log := fun part hpart => hserved part (hpart.trans (by simp))
  obtain ⟨hbytes, hfailed | ⟨obj, hreply, halive', hflushed⟩⟩ := halive.step hstep
  · exact .inl hfailed
  -- no reply was at hand before the call
  have hnone : ¬ answers answer log.commands ++ [obj] <+: repliesOf log.received := by
    intro hmore
    have hlength := (hmore.trans (hbefore.replies_le hfits)).length_le
    rw [List.length_append, List.length_singleton] at hlength
    omega
  have hempty := hflushed.resolve_right hnone
  have hreceived : received (log ++ [⟨c, a, o, c'⟩]) = log.received ++ o.received :=
    received_snoc ..
  rw [← hreceived] at halive'
  have hanswer := (prefix_repliesOf halive'.steps).trans (hserved.replies_le hfits)
  rw [commands_snoc, answers_snoc] at hanswer
  have hlast : answers answer log.commands ++ [obj] =
      answers answer log.commands ++ [answer (log.commands ++ [a.cmd])] :=
    hanswer.eq_of_length (by simp)
  obtain rfl := List.singleton_inj.mp (List.append_cancel_left hlast)
  rw [hempty, hobuf, List.append_nil, List.nil_append] at hbytes
  refine .inr ⟨hreply, hbytes, hempty, ?_⟩
  rw [commands_snoc, answers_snoc]
  exact halive'

/-- As long as the context works, everything was written, and every answer was returned. -/
theorem Served.alive (hfits : ∀ cmds, (answer cmds).Fits 8)
    (run : Trace RedisContext.Step redisContextInit log c) (hserved : Served answer log) :
    c.Dead ∨ c.obuf = [] ∧ c.Alive (received log) (answers answer (commands log)) := by
  induction run with
  | nil => exact .inr ⟨rfl, rfl, waits_redisReaderCreate, .refl⟩
  | snoc run last ih =>
    obtain hdead | ⟨hobuf, halive⟩ := ih fun part hpart => hserved part (hpart.trans (by simp))
    · exact .inl (hdead.step last).1
    · obtain ⟨-, hdead⟩ | ⟨-, -, hrest⟩ := hserved.step hfits hobuf halive last
      · exact .inl hdead
      · exact .inr hrest

/-- **Request and reply.** With a server that answers every command, a call of a session writes
its command and returns the answer to it, or it fails. -/
theorem served (hfits : ∀ cmds, (answer cmds).Fits 8) {t : Transition RedisContext Request Exchange}
    {before after : Session}
    (run : Trace RedisContext.Step redisContextInit (before ++ t :: after) c)
    (hserved : Served answer (before ++ t :: after)) :
    t.out.outcome = .failed ∨ t.out.outcome = .reply (answer (before.commands ++ [t.action.cmd])) ∧
      t.out.sent = t.action.cmd := by
  obtain ⟨hbefore, hstep, -⟩ := run.split_cons
  have hpart₀ : Served answer (before ++ [t]) := fun part hpart =>
    hserved part (hpart.trans ⟨after, by simp⟩)
  obtain hdead | ⟨hobuf, halive⟩ := Served.alive hfits hbefore fun part hpart =>
    hpart₀ part (hpart.trans (by simp))
  · exact .inl (congrArg Exchange.outcome (hdead.step hstep).2.2)
  · obtain ⟨hfailed, -⟩ | ⟨hreply, hsent, -⟩ := hpart₀.step hfits hobuf halive hstep
    · exact .inl hfailed
    · exact .inr ⟨hreply, hsent⟩

/-- The server that answers everything with `PONG`. -/
def pong (_ : List Bytes) : Reply := .status (ascii "PONG")

theorem served_pinged : pinged.out.outcome = .failed ∨
    pinged.out.outcome = .reply (.status (ascii "PONG")) ∧ pinged.out.sent = ping.cmd := by
  have hserved : Served pong ([] ++ [pinged]) := served_nil.snoc ⟨[], rfl⟩
  have hfits : ∀ cmds, (pong cmds).Fits 8 := fun _ => rfl
  exact served hfits run_pinged hserved

end Session

end EsbProxy
