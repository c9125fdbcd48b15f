import EsbProxy.RedisReplies

/-!
# Replies in a row

A reader that delivers one reply after the other is a reader again: the replies that
`redisReaderGetReply` delivers are those of the stream, in their order, however the stream is cut
into pieces and whenever they are asked for.

## Main definitions

* `replyReader`: the reader with the replies that it delivered.
* `RedisReader.view`: a reader between two calls.

## Main results

* `steps_encodeAll_replies`: the replies of a stream are those that it was made of.
* `getReply_spec`: what `redisReaderGetReply` returns, in terms of the stream.
-/

namespace EsbProxy

open Foundation

/-! ### The reader of replies -/

/-- Deliver a complete reply, or go on with the one at hand. -/
def nextReply (x : ReadState × List Reply) :
    Except ReaderFault (Option (ReadState × List Reply)) :=
  if x.1.err then .ok none
  else
    match x.1.rstack, x.1.reply with
    | [], some obj =>
      .ok (some ({ x.1 with rstack := [.fresh (-1)], reply := none }, x.2 ++ [obj]))
    | _, _ => x.1.next.map (Option.map (·, x.2))

section

variable {r r' : ReadState} {replies : List Reply} {obj : Reply} {fault : ReaderFault}

theorem nextReply_of_reply (herr : r.err = false) (hstack : r.rstack = [])
    (hreply : r.reply = some obj) : nextReply (r, replies) =
      .ok (some ({ r with rstack := [.fresh (-1)], reply := none }, replies ++ [obj])) := by
  rw [nextReply, if_neg (by simp [herr])]
  simp only [hstack, hreply]

theorem nextReply_of_stack (hstack : r.rstack ≠ []) :
    nextReply (r, replies) = r.next.map (Option.map (·, replies)) := by
  rw [nextReply]
  split_ifs with herr
  · rw [next_of_err herr]
    rfl
  · cases hcons : r.rstack with
    | nil => exact absurd hcons hstack
    | cons cur parents => rfl

/-- A reader delivers a reply that is complete, or takes an item. -/
theorem nextReply_cases {x x' : ReadState × List Reply} (hnext : nextReply x = .ok (some x')) :
    (∃ obj, x.1.err = false ∧ x.1.rstack = [] ∧ x.1.reply = some obj ∧
      x' = ({ x.1 with rstack := [.fresh (-1)], reply := none }, x.2 ++ [obj])) ∨
      x.1.next = .ok (some x'.1) ∧ x'.2 = x.2 := by
  rw [nextReply] at hnext
  split_ifs at hnext with herr
  · simp at hnext
  split at hnext
  · rename_i obj hstack hreply
    exact .inl ⟨obj, by simpa using herr, hstack, hreply,
      (Option.some.inj (Except.ok.inj hnext)).symm⟩
  · refine .inr ?_
    cases hitem : x.1.next with
    | error fault => simp [hitem, Except.map] at hnext
    | ok y =>
      cases y with
      | none => simp [hitem, Except.map] at hnext
      | some r =>
        rw [hitem] at hnext
        obtain rfl : (r, x.2) = x' := Option.some.inj (Except.ok.inj hnext)
        exact ⟨rfl, rfl⟩

theorem nextReply_error {x : ReadState × List Reply} (hnext : nextReply x = .error fault) :
    x.1.next = .error fault := by
  rw [nextReply] at hnext
  split_ifs at hnext
  split at hnext
  · simp at hnext
  · cases hitem : x.1.next with
    | error fault' =>
      rw [hitem] at hnext
      exact congrArg Except.error (Except.error.inj hnext)
    | ok y => simp [hitem, Except.map] at hnext

theorem rstack_ne_nil_of_next {y : ReadState} (hnext : r.next = .ok (some y)) :
    r.rstack ≠ [] := by
  intro hstack
  rw [next_of_nil hstack] at hnext
  simp at hnext

theorem rstack_ne_nil_of_next_error (hnext : r.next = .error fault) : r.rstack ≠ [] := by
  intro hstack
  rw [next_of_nil hstack] at hnext
  simp at hnext

theorem nextReply_of_next (hnext : r.next = .ok (some r')) :
    nextReply (r, replies) = .ok (some (r', replies)) := by
  rw [nextReply_of_stack (rstack_ne_nil_of_next hnext), hnext]
  rfl

theorem nextReply_of_next_error (hnext : r.next = .error fault) :
    nextReply (r, replies) = .error fault := by
  rw [nextReply_of_stack (rstack_ne_nil_of_next_error hnext), hnext]
  rfl

end

/-- The reader of the replies of a stream. -/
def replyReader : Reader (ReadState × List Reply) UInt8 ReaderFault where
  next := nextReply
  feed b x := (x.1.feed b, x.2)
  left x := 2 * x.1.rest.length + if x.1.err then 0 else if x.1.rstack = [] then 2 else 1
  left_lt {x x'} hnext := by
    obtain ⟨obj, herr, hstack, -, rfl⟩ | ⟨hitem, -⟩ := nextReply_cases hnext
    · simp [herr, hstack]
    · have herr := err_eq_false_of_next hitem
      have hstack := rstack_ne_nil_of_next hitem
      obtain hfailed | ⟨herr', hless⟩ := shortens_next x'.1 hitem
      · simp [herr, hstack, hfailed, readerError]
      · simp only [herr, herr', hstack, Bool.false_eq_true, if_false]
        split_ifs <;> omega
  next_feed {x x'} b hnext := by
    obtain ⟨obj, herr, hstack, hreply, rfl⟩ | ⟨hitem, hreplies⟩ := nextReply_cases hnext
    · have hfeed : x.1.feed b = { x.1 with rest := x.1.rest ++ b } := by
        simp [ReadState.feed, herr]
      have hdeliver : nextReply (x.1.feed b, x.2) = .ok (some
          ({ x.1.feed b with rstack := [.fresh (-1)], reply := none }, x.2 ++ [obj])) :=
        nextReply_of_reply (by simp [hfeed, herr]) (by simp [hfeed, hstack])
          (by simp [hfeed, hreply])
      rw [hdeliver]
      simp [ReadState.feed, herr]
    · rw [nextReply_of_next (extends_next.1 _ hitem), hreplies]
  next_feed_error b hnext := nextReply_of_next_error (extends_next.2 _ (nextReply_error hnext))
  feed_nil x := by rw [show x.1.feed [] = x.1 from itemReader.feed_nil x.1]
  feed_feed b c x := by
    rw [show (x.1.feed b).feed c = x.1.feed (b ++ c) from itemReader.feed_feed b c x.1]

/-- The reader of replies takes the items that the reader takes. -/
theorem steps_replyReader {r r' : ReadState} (replies : List Reply)
    (hsteps : itemReader.Steps r r') : replyReader.Steps (r, replies) (r', replies) := by
  induction hsteps with
  | refl => exact .refl
  | tail _ hlast ih => exact .tail ih (nextReply_of_next hlast)

/-- The replies that were delivered stay. -/
theorem prefix_of_steps {x x' : ReadState × List Reply} (hsteps : replyReader.Steps x x') :
    x.2 <+: x'.2 := by
  refine hsteps.invariant (I := fun y => x.2 <+: y.2) ?_ (List.prefix_refl _)
  intro y y' hmore hnext
  obtain ⟨obj, -, -, -, rfl⟩ | ⟨-, hreplies⟩ := nextReply_cases hnext
  · exact hmore.trans (List.prefix_append _ _)
  · rwa [hreplies]

/-! ### Between two calls -/

namespace RedisReader

/-- A reader between two calls: the first task of a reply is there, or a task to go on with. -/
def view (r : RedisReader) : ReadState := r.toReadState.start

/-- A reader of a stream between two calls. Without input at hand it waits for more. -/
structure Waits (stream : Bytes) (r : RedisReader) : Prop where
  err : r.err = false
  reads : Reads stream r.view
  next : r.rest = [] → r.view.next = .ok none

end RedisReader

section

variable {r : ReadState}

theorem start_eq (hstack : r.rstack ≠ []) : r.start = r := if_neg hstack

theorem start_rstack (r : ReadState) : r.start.rstack ≠ [] := by
  rw [ReadState.start]
  split_ifs with hstack
  · simp
  · exact hstack

@[simp] theorem start_err (r : ReadState) : r.start.err = r.err := by
  rw [ReadState.start]
  split_ifs <;> rfl

@[simp] theorem start_rest (r : ReadState) : r.start.rest = r.rest := by
  rw [ReadState.start]
  split_ifs <;> rfl

theorem start_feed (b : Bytes) (r : ReadState) : (r.feed b).start = r.start.feed b := by
  rw [ReadState.feed, ReadState.feed, start_err]
  split_ifs with herr
  · rfl
  · rw [ReadState.start, ReadState.start]
    dsimp only
    split_ifs <;> rfl

end

/-- A reader without a task to go on with needs input. -/
theorem next_of_rest_nil {r : ReadState} (hstack : r.rstack = [.fresh (-1)])
    (hrest : r.rest = []) : r.next = .ok none := by
  by_cases herr : r.err = true
  · exact next_of_err herr
  · rw [next_of_fresh (by simpa using herr) hstack rfl, ReadState.readType, hrest]

/-- What a call of `redisReaderGetReply` does to a reader of a stream: it delivers the next reply,
waits for more input, fails on the stream, or does what no reader may do. -/
inductive Got (stream : Bytes) (r : RedisReader) :
    Except ReaderFault (RedisReader × GetReply) → Prop
  | reply (r' : RedisReader) (obj : Reply) (hwaits : r'.Waits stream)
      (hsteps : ∀ replies, replyReader.Steps (r.view, replies) (r'.view, replies ++ [obj])) :
      Got stream r (.ok (r', .reply obj))
  | pending (r' : RedisReader) (hwaits : r'.Waits stream)
      (hsteps : ∀ replies, replyReader.Steps (r.view, replies) (r'.view, replies))
      (hnext : r'.view.next = .ok none) : Got stream r (.ok (r', .pending))
  | failed (r' : RedisReader) (herr : r'.err = true)
      (hsteps : ∀ replies, replyReader.Steps (r.view, replies) (readerError, replies)) :
      Got stream r (.ok (r', .failed))
  | faulted (fault : ReaderFault) (s : ReadState) (hreads : Reads stream s)
      (hsteps : ∀ replies, replyReader.Steps (r.view, replies) (s, replies))
      (hnext : s.next = .error fault) : Got stream r (.error fault)

/-- A reader that fails is an erroneous one. -/
theorem eq_readerError_of_steps {r d : ReadState} (hsteps : itemReader.Steps r d)
    (hr : r.err = false) (hd : d.err = true) : d = readerError := by
  obtain heq | ⟨s, -, hlast⟩ := Relation.ReflTransGen.cases_tail hsteps
  · rw [heq, hr] at hd
    simp at hd
  · refine (shortens_next d hlast).resolve_right ?_
    rintro ⟨herr, -⟩
    rw [herr] at hd
    simp at hd

/-- **One call.** What `redisReaderGetReply` does to a reader of a stream. -/
theorem RedisReader.Waits.got {stream : Bytes} {r : RedisReader} (hr : r.Waits stream) :
    Got stream r (redisReaderGetReply r) := by
  rw [redisReaderGetReply, if_neg (by simp [hr.err])]
  split_ifs with hempty
  · have hrest : r.rest = [] := List.length_eq_zero_iff.mp (by omega)
    exact .pending r hr (fun _ => .refl) (hr.next hrest)
  have hstart : r.start.err = false := by rw [start_err, hr.err]
  have hleft : itemReader.left r.start < r.rest.length + 2 := by
    have hbound : itemReader.left r.start = r.rest.length + 1 := by
      simp [itemReader, hr.err]
    omega
  rw [processItems_eq_drain hstart hleft]
  cases hdrain : itemReader.drain r.start with
  | error fault =>
    obtain ⟨s, hsteps, hnext⟩ := Reader.exists_steps_of_drain_error hdrain
    exact .faulted fault s (hsteps.invariant (fun s s' hs => hs.next.2 s') hr.reads)
      (fun replies => steps_replyReader replies hsteps) hnext
  | ok d =>
    have hsteps := Reader.steps_of_drain hdrain
    have hreads : Reads stream d := hsteps.invariant (fun s s' hs => hs.next.2 s') hr.reads
    have hnext : d.next = .ok none := Reader.next_of_drain hdrain
    dsimp only
    generalize (if r.pos + (r.rest.length - d.rest.length) ≥ 1024 then 0
      else r.pos + (r.rest.length - d.rest.length)) = pos
    by_cases herr : d.err = true
    · have hd := eq_readerError_of_steps hsteps hstart herr
      rw [if_pos herr]
      exact .failed _ herr fun replies => hd ▸ steps_replyReader replies hsteps
    have herr : d.err = false := by simpa using herr
    rw [if_neg (by simp [herr])]
    cases hstack : d.rstack with
    | nil =>
      obtain ⟨obj, hobj⟩ := Option.isSome_iff_exists.mp ((hreads.reply_iff herr).mpr hstack)
      simp only [hobj]
      have hview : RedisReader.view ⟨{ d with rstack := [], reply := none }, pos⟩ =
          { d with rstack := [.fresh (-1)], reply := none } := by
        simp [RedisReader.view, ReadState.start]
      refine .reply _ obj ⟨herr, ?_, fun hrest => ?_⟩ fun replies => ?_
      · rw [hview]
        refine ⟨hreads.rest, ?_, by simp, by simp⟩
        rintro _ _ ⟨⟩
        simp [ReadTask.fresh, Linked]
      · rw [hview]
        exact next_of_rest_nil rfl hrest
      · rw [hview]
        exact .tail (steps_replyReader replies hsteps) (nextReply_of_reply herr hstack hobj)
    | cons cur parents =>
      have hview : RedisReader.view ⟨d, pos⟩ = d := start_eq (by simp [hstack])
      refine .pending ⟨d, pos⟩ ⟨herr, ?_, fun _ => ?_⟩ (fun replies => ?_) ?_
      · rwa [hview]
      · rwa [hview]
      · rw [hview]
        exact steps_replyReader replies hsteps
      · rwa [hview]

/-! ### More input -/

theorem Moderate.of_append {stream b : Bytes} (hmoderate : Moderate (stream ++ b)) :
    Moderate stream := by
  rintro header n ⟨before, rfl⟩ hread
  exact hmoderate (header ++ b) n ⟨before, by simp⟩ (readLongLong_append_of_ok b hread)

theorem suffix_append_append {s t : Bytes} (b : Bytes) (h : s <:+ t) : s ++ b <:+ t ++ b := by
  obtain ⟨before, rfl⟩ := h
  exact ⟨before, by simp⟩

theorem Reads.feed {stream : Bytes} {r : ReadState} (b : Bytes) (hr : Reads stream r)
    (herr : r.err = false) : Reads (stream ++ b) (r.feed b) := by
  have hfeed : r.feed b = { r with rest := r.rest ++ b } := by simp [ReadState.feed, herr]
  rw [hfeed]
  refine ⟨suffix_append_append b hr.rest, ?_, fun h => hr.fits h.of_append, hr.reply_iff⟩
  intro cur parents hstack
  obtain ⟨hnil, hheader, hdepth, hlinked⟩ := hr.stack _ _ hstack
  exact ⟨hnil, fun h => suffix_append_append b (hheader h), hdepth,
    fun h => hlinked h.of_append⟩

/-- The reader before the first byte of a stream. -/
def ReadState.idle : ReadState := ⟨false, [], [.fresh (-1)], none⟩

theorem view_redisReaderCreate : redisReaderCreate.view = .idle := rfl

theorem waits_redisReaderCreate : redisReaderCreate.Waits [] where
  err := rfl
  reads := by
    rw [view_redisReaderCreate]
    refine ⟨List.nil_suffix, ?_, by simp [ReadState.idle], by simp [ReadState.idle]⟩
    rintro _ _ ⟨⟩
    simp [ReadTask.fresh, Linked]
  next _ := next_of_rest_nil rfl rfl

theorem view_redisReaderFeed (b : Bytes) (r : RedisReader) :
    (redisReaderFeed b r).view = r.view.feed b := by
  rw [RedisReader.view, RedisReader.view, ← start_feed, redisReaderFeed, ReadState.feed]
  split_ifs <;> rfl

theorem RedisReader.Waits.feed {stream : Bytes} {r : RedisReader} (b : Bytes)
    (hr : r.Waits stream) : (redisReaderFeed b r).Waits (stream ++ b) := by
  have herr : r.view.err = false := by rw [view, start_err, hr.err]
  have hfeed : redisReaderFeed b r = { r with rest := r.rest ++ b } := by
    simp [redisReaderFeed, hr.err]
  refine ⟨by rw [hfeed]; exact hr.err, ?_, fun hrest => ?_⟩
  · rw [view_redisReaderFeed]
    exact hr.reads.feed b herr
  · -- nothing was fed
    rw [hfeed] at hrest
    obtain ⟨hnil, rfl⟩ := List.append_eq_nil_iff.mp (show r.rest ++ b = [] from hrest)
    rw [view_redisReaderFeed]
    have hsame : r.view.feed [] = r.view := itemReader.feed_nil r.view
    rw [hsame]
    exact hr.next hnil

/-! ### The replies of a stream -/

/-- The replies of a stream, up to the first byte on which the reader fails. -/
def repliesOf (stream : Bytes) : List Reply := (replyReader.stop (ReadState.idle.feed stream, [])).2

/-- The replies that a reader delivered are the first ones of the stream. -/
theorem prefix_repliesOf {stream : Bytes} {s : ReadState} {replies : List Reply}
    (hsteps : replyReader.Steps (ReadState.idle.feed stream, []) (s, replies)) :
    replies <+: repliesOf stream := by
  rw [repliesOf, Reader.stop_eq_of_steps hsteps]
  exact prefix_of_steps (Reader.steps_stop (R := replyReader) (s, replies))

/-- A reader that waits for input has delivered all replies. -/
theorem eq_repliesOf {stream : Bytes} {s : ReadState} {replies : List Reply}
    (hsteps : replyReader.Steps (ReadState.idle.feed stream, []) (s, replies))
    (hnext : nextReply (s, replies) = .ok none) : replies = repliesOf stream := by
  rw [repliesOf, Reader.stop_eq_of_steps hsteps, Reader.stop_of_none (R := replyReader) hnext]

/-- More bytes have the same replies, and perhaps others behind them. -/
theorem repliesOf_mono (stream b : Bytes) : repliesOf stream <+: repliesOf (stream ++ b) := by
  refine prefix_repliesOf
    (s := (replyReader.stop (ReadState.idle.feed stream, [])).1.feed b) ?_
  have hsteps := (Reader.steps_stop (R := replyReader) (ReadState.idle.feed stream, [])).feed b
  have hfeed : replyReader.feed b (ReadState.idle.feed stream, []) =
      (ReadState.idle.feed (stream ++ b), []) := replyReader.feed_feed stream b (.idle, [])
  rw [hfeed] at hsteps
  exact hsteps

/-- The replies of a moderate stream fit. -/
theorem fits_of_mem_repliesOf {stream : Bytes} (hmoderate : Moderate stream) {obj : Reply}
    (hobj : obj ∈ repliesOf stream) : obj.Fits 8 := by
  have hstart : Reads stream (ReadState.idle.feed stream) := by
    have hread := waits_redisReaderCreate.reads.feed stream rfl
    rwa [List.nil_append] at hread
  have hkeep : ∀ x x' : ReadState × List Reply, (Reads stream x.1 ∧ ∀ obj ∈ x.2, obj.Fits 8) →
      nextReply x = .ok (some x') → Reads stream x'.1 ∧ ∀ obj ∈ x'.2, obj.Fits 8 := by
    rintro x x' ⟨hreads, hfits⟩ hnext
    obtain ⟨obj, -, hstack, hreply, rfl⟩ | ⟨hitem, hsame⟩ := nextReply_cases hnext
    · refine ⟨⟨hreads.rest, ?_, by simp, by simp⟩, fun o ho => ?_⟩
      · rintro _ _ ⟨⟩
        simp [ReadTask.fresh, Linked]
      · obtain ho | ho := List.mem_append.mp ho
        · exact hfits o ho
        · exact List.mem_singleton.mp ho ▸ hreads.fits hmoderate obj hreply
    · rw [hsame]
      exact ⟨hreads.next.2 _ hitem, hfits⟩
  have hall := (Reader.steps_stop (R := replyReader) (ReadState.idle.feed stream, [])).invariant
    hkeep ⟨hstart, by simp⟩
  exact hall.2 obj hobj

/-- The replies that a stream is made of are read one by one. -/
theorem steps_replies (rest : Bytes) : ∀ {objs : List Reply} (replies : List Reply),
    Reply.AllFit 8 objs →
      replyReader.Steps (ReadState.idle.feed (Reply.encodeAll objs ++ rest), replies)
        (ReadState.idle.feed rest, replies ++ objs)
  | [], replies, _ => by
      rw [Reply.encodeAll, List.nil_append, List.append_nil]
      exact .refl
  | obj :: objs, replies, hall => by
      obtain ⟨hobj, hobjs⟩ : obj.Fits 8 ∧ Reply.AllFit 8 objs := hall
      have hbytes : Reply.encodeAll (obj :: objs) ++ rest =
          obj.encode ++ (Reply.encodeAll objs ++ rest) := by
        simp [Reply.encodeAll]
      have hfirst : replyReader.Steps
          (ReadState.idle.feed (obj.encode ++ (Reply.encodeAll objs ++ rest)), replies)
          (⟨false, Reply.encodeAll objs ++ rest, [], some obj⟩, replies) :=
        steps_replyReader replies (steps_encode obj hobj rfl (by simp) rfl _)
      have hrest := steps_replies rest (replies ++ [obj]) hobjs
      rw [List.append_assoc] at hrest
      have hdeliver : nextReply (⟨false, Reply.encodeAll objs ++ rest, [], some obj⟩, replies) =
          .ok (some (ReadState.idle.feed (Reply.encodeAll objs ++ rest), replies ++ [obj])) :=
        nextReply_of_reply rfl rfl rfl
      rw [hbytes]
      exact (hfirst.tail hdeliver).trans hrest

/-- **Round trip.** The replies of a stream are those that it was made of. -/
theorem repliesOf_encodeAll {objs : List Reply} (hall : Reply.AllFit 8 objs) :
    repliesOf (Reply.encodeAll objs) = objs := by
  have hsteps := steps_replies [] [] hall
  rw [List.append_nil, List.nil_append] at hsteps
  have hidle : ReadState.idle.feed [] = .idle := itemReader.feed_nil .idle
  rw [hidle] at hsteps
  refine (eq_repliesOf hsteps ?_).symm
  rw [nextReply_of_stack (by simp [ReadState.idle]), next_of_rest_nil rfl rfl]
  rfl

end EsbProxy
