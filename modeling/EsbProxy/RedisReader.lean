import EsbProxy.Bytes
import EsbProxy.Foundation.Feed

/-!
# The reader of replies

The replies of Redis arrive on a socket in pieces. The reader of `hiredis.c` keeps the bytes that it
has not used, and a stack with one task for each array that it is inside of and one for the item
that comes next. `redisReaderGetReply` processes items until a reply is complete, or until the bytes
at hand do not suffice.

The bytes of the buffer before `pos` are never read again; `ReadState.rest` are those behind it. An
array is linked into its parent when its last element is, and not when it is created, which nothing
can observe before. Memory and numbers are unbounded, except the conversion of the number of
elements to `int`.

## Main definitions

* `Reply`, `ReadTask`, `ReadState`, `RedisReader`.
* `processItem`, `redisReaderFeed`, `redisReaderGetReply`.
* `itemReader`: the loop of `redisReaderGetReply` as a `Foundation.Reader`.

## Main results

* `processItems_eq_drain`: the loop drains this reader, so that the pieces of a stream play no
  part.
-/

namespace EsbProxy

open Foundation

/-! ### Replies -/

/-- The types of replies (`REDIS_REPLY_*`). -/
inductive ReplyType
  | string
  | array
  | integer
  | nil
  | status
  | error
  deriving DecidableEq

/-- `redisReply`. The field `elements` of an array is a `size_t`, and `element` a vector. -/
inductive Reply
  | string (str : Bytes)
  | array (elements : ℕ) (element : List Reply)
  | integer (integer : ℤ)
  | nil
  | status (str : Bytes)
  | error (str : Bytes)

/-- An `int` converted to `size_t`. -/
def sizeT (n : ℤ) : ℕ := (n % 2 ^ 64).toNat

/-! ### The reader -/

/-- What a reader must never do: read behind its buffer, write to a vector that was not allocated or
behind its end, grow its stack past nine tasks, or fail an assertion. -/
inductive ReaderFault
  | pastBuffer
  | pastVector
  | pastStack
  | assertionFailed
  deriving DecidableEq

/-- `redisReadTask`. The type is `none` as long as it is not read (`-1`). Of an array, `element` are
the elements linked so far. -/
structure ReadTask where
  type : Option ReplyType
  elements : ℤ
  idx : ℤ
  element : List Reply

/-- A task whose type is not read yet. -/
def ReadTask.fresh (idx : ℤ) : ReadTask := ⟨none, -1, idx, []⟩

/-- The part of `redisReader` that processing an item reads and writes. The task at hand is the
first one of `rstack`. -/
structure ReadState where
  err : Bool
  rest : Bytes
  rstack : List ReadTask
  reply : Option Reply

/-- `redisReader`. -/
structure RedisReader extends ReadState where
  pos : ℕ

/-- `redisReaderCreate`. -/
def redisReaderCreate : RedisReader where
  err := false
  rest := []
  rstack := []
  reply := none
  pos := 0

/-- `__redisReaderSetError`. -/
def readerError : ReadState := ⟨true, [], [], none⟩

/-- The byte `'\r'`. -/
def cr : UInt8 := 13

/-- The byte `'\n'`. -/
def lf : UInt8 := 10

/-- `seekNewline`: how many bytes stand before the first `"\r\n"`. -/
def seekNewline : Bytes → Option ℕ
  | a :: b :: s => if a = cr ∧ b = lf then some 0 else (seekNewline (b :: s)).map (· + 1)
  | _ => none

/-- The digits of `readLongLong`, up to the first `'\r'`; `none` for anything else. -/
def readDigits (v : ℤ) : Bytes → Except ReaderFault (Option ℤ)
  | [] => .error .pastBuffer
  | c :: s =>
    if c = cr then .ok (some v)
    else if 48 ≤ c ∧ c ≤ 57 then readDigits (v * 10 + (c.toNat - 48)) s
    else .ok none

/-- The sign of a number, and what stands behind it. -/
def readSign : Bytes → ℤ × Bytes
  | [] => (1, [])
  | c :: s => if c = 45 then (-1, s) else if c = 43 then (1, s) else (1, c :: s)

/-- `readLongLong`. -/
def readLongLong (s : Bytes) : Except ReaderFault ℤ :=
  match readDigits 0 (readSign s).2 with
  | .error fault => .error fault
  | .ok (some v) => .ok ((readSign s).1 * v)
  | .ok none => .ok (-1)

/-- Link an object into the array of the parent task, and `moveToNextTask`. The first task is gone
from the stack, `idx` was its index. -/
def moveToNextTask (obj : Reply) (idx : ℤ) : List ReadTask →
    Except ReaderFault (List ReadTask × Option Reply)
  | [] => .ok ([], some obj)
  | prv :: parents =>
    if prv.type ≠ some .array then .error .assertionFailed
    else if ¬ (0 ≤ idx ∧ idx < prv.elements) then .error .pastVector
    else
      let element := prv.element ++ [obj]
      if idx = prv.elements - 1 then
        moveToNextTask (.array (sizeT prv.elements) element) prv.idx parents
      else .ok (ReadTask.fresh (idx + 1) :: { prv with element := element } :: parents, none)

/-- An object was read: `rest` is left behind it. -/
def ReadState.created (r : ReadState) (obj : Reply) (cur : ReadTask) (parents : List ReadTask)
    (rest : Bytes) : Except ReaderFault (Option ReadState) :=
  match moveToNextTask obj cur.idx parents with
  | .error fault => .error fault
  | .ok (rstack, reply) => .ok (some { r with rest := rest, rstack := rstack, reply := reply })

/-- `processLineItem`. Here and below, `none` says that the bytes at hand do not suffice. -/
def processLineItem (type : ReplyType) (cur : ReadTask) (parents : List ReadTask) (r : ReadState) :
    Except ReaderFault (Option ReadState) :=
  match seekNewline r.rest with
  | none => .ok none
  | some len =>
    let line := r.rest.take len
    let rest := r.rest.drop (len + 2)
    match type with
    | .integer =>
      match readLongLong r.rest with
      | .error fault => .error fault
      | .ok v => r.created (.integer v) cur parents rest
    | .status => r.created (.status line) cur parents rest
    | _ => r.created (.error line) cur parents rest

/-- `processBulkItem`. -/
def processBulkItem (cur : ReadTask) (parents : List ReadTask) (r : ReadState) :
    Except ReaderFault (Option ReadState) :=
  match seekNewline r.rest with
  | none => .ok none
  | some s =>
    match readLongLong r.rest with
    | .error fault => .error fault
    | .ok len =>
      let rest := r.rest.drop (s + 2)
      if len < 0 then r.created .nil cur parents rest
      else if len.toNat + 2 ≤ rest.length then
        r.created (.string (rest.take len.toNat)) cur parents (rest.drop (len.toNat + 2))
      else .ok none

/-- `processMultiBulkItem`. -/
def processMultiBulkItem (cur : ReadTask) (parents : List ReadTask) (r : ReadState) :
    Except ReaderFault (Option ReadState) :=
  -- no room for the elements of another array
  if parents.length = 8 then .ok (some readerError)
  else
    match seekNewline r.rest with
    | none => .ok none
    | some len =>
      match readLongLong r.rest with
      | .error fault => .error fault
      | .ok elements =>
        let rest := r.rest.drop (len + 2)
        if elements = -1 then r.created .nil cur parents rest
        else if elements > 0 then
          if parents.length ≥ 8 then .error .pastStack
          else
            let cur := { cur with type := some .array, elements := int32 elements, element := [] }
            .ok (some { r with rest := rest, rstack := .fresh 0 :: cur :: parents })
        else r.created (.array (sizeT (int32 elements)) []) cur parents rest

/-- The type that the first byte of an item announces. -/
def replyType (byte : UInt8) : Option ReplyType :=
  if byte = 45 then some .error
  else if byte = 43 then some .status
  else if byte = 58 then some .integer
  else if byte = 36 then some .string
  else if byte = 42 then some .array
  else none

/-- The second half of `processItem`: process an item whose type was read. -/
def processTyped (type : ReplyType) (cur : ReadTask) (parents : List ReadTask) (r : ReadState) :
    Except ReaderFault (Option ReadState) :=
  match type with
  | .error | .status | .integer => processLineItem type cur parents r
  | .string => processBulkItem cur parents r
  | .array => processMultiBulkItem cur parents r
  | .nil => .error .assertionFailed

/-- What `processItem` returns after an item whose type was read: whether it is `REDIS_OK`. -/
def itemResult (r : ReadState) :
    Except ReaderFault (Option ReadState) → Except ReaderFault (ReadState × Bool)
  | .error fault => .error fault
  | .ok none => .ok (r, false)
  | .ok (some r') => .ok (r', !r'.err)

/-- `processItem`. -/
def processItem (r : ReadState) : Except ReaderFault (ReadState × Bool) :=
  match r.rstack with
  | [] => .ok (r, false)
  | cur :: parents =>
    match cur.type with
    | some type => itemResult r (processTyped type cur parents r)
    | none =>
      match r.rest with
      | [] => .ok (r, false)
      | byte :: rest =>
        match replyType byte with
        | none => .ok (readerError, false)
        | some type =>
          let cur := { cur with type := some type }
          let r := { r with rest := rest, rstack := cur :: parents }
          itemResult r (processTyped type cur parents r)

/-- `while (r->ridx >= 0) if (processItem(r) != REDIS_OK) break;`, at most `n` times. -/
def processItems : ℕ → ReadState → Except ReaderFault ReadState
  | 0, r => .ok r
  | n + 1, r =>
    match processItem r with
    | .error fault => .error fault
    | .ok (r', false) => .ok r'
    | .ok (r', true) => processItems n r'

/-- `redisReaderFeed`. -/
def redisReaderFeed (b : Bytes) (r : RedisReader) : RedisReader :=
  if r.err then r else { r with rest := r.rest ++ b }

/-- What `redisReaderGetReply` returns: `REDIS_ERR`, or `REDIS_OK` with a reply or without. -/
inductive GetReply
  | failed
  | pending
  | reply (obj : Reply)

/-- The first task of a reader whose stack is empty. -/
def ReadState.start (r : ReadState) : ReadState :=
  if r.rstack = [] then { r with rstack := [.fresh (-1)] } else r

/-- `redisReaderGetReply`. Every item but the last one uses a byte at least, so that their number
bounds the turns of the loop (`processItems_eq_drain`). -/
def redisReaderGetReply (r : RedisReader) : Except ReaderFault (RedisReader × GetReply) :=
  if r.err then .ok (r, .failed)
  else if r.pos + r.rest.length = 0 then .ok (r, .pending)
  else
    match processItems (r.rest.length + 2) r.start with
    | .error fault => .error fault
    | .ok r' =>
      if r'.err then .ok (⟨r', 0⟩, .failed)
      else
        let pos := r.pos + (r.rest.length - r'.rest.length)
        -- discard the part of the buffer that is used up when it is large
        let pos := if pos ≥ 1024 then 0 else pos
        match r'.rstack, r'.reply with
        | [], some obj => .ok (⟨{ r' with reply := none }, pos⟩, .reply obj)
        | _, _ => .ok (⟨r', pos⟩, .pending)

/-! ### The loop as a reader -/

/-- The first half of `processItem`: read the type of an item. -/
def ReadState.readType (cur : ReadTask) (parents : List ReadTask) (r : ReadState) :
    Option ReadState :=
  match r.rest with
  | [] => none
  | byte :: rest =>
    match replyType byte with
    | none => some readerError
    | some type =>
      some { r with rest := rest, rstack := { cur with type := some type } :: parents }

/-- A turn of the loop, or its first half. -/
def ReadState.next (r : ReadState) : Except ReaderFault (Option ReadState) :=
  if r.err then .ok none
  else
    match r.rstack with
    | [] => .ok none
    | cur :: parents =>
      match cur.type with
      | some type => processTyped type cur parents r
      | none => .ok (r.readType cur parents)

/-- More bytes are at hand. -/
def ReadState.feed (b : Bytes) (r : ReadState) : ReadState :=
  if r.err then r else { r with rest := r.rest ++ b }

theorem seekNewline_append (b : Bytes) : ∀ {s : Bytes} {n : ℕ}, seekNewline s = some n →
    seekNewline (s ++ b) = some n
  | x :: y :: s, n, h => by
      rw [seekNewline] at h
      rw [List.cons_append, List.cons_append, seekNewline]
      split_ifs at h ⊢
      · exact h
      · obtain ⟨m, hm, rfl⟩ := Option.map_eq_some_iff.mp h
        rw [← List.cons_append, seekNewline_append b hm, Option.map_some]

/-- The newline that was found lies in the string. -/
theorem mem_take_of_seekNewline : ∀ {s : Bytes} {n : ℕ}, seekNewline s = some n →
    n + 2 ≤ s.length ∧ cr ∈ s
  | x :: y :: s, n, h => by
      rw [seekNewline] at h
      split_ifs at h with hnewline
      · obtain rfl := Option.some.inj h
        exact ⟨by simp, by simp [hnewline.1]⟩
      · obtain ⟨m, hm, rfl⟩ := Option.map_eq_some_iff.mp h
        obtain ⟨hle, hmem⟩ := mem_take_of_seekNewline hm
        exact ⟨by simpa using hle, List.mem_cons_of_mem _ hmem⟩

theorem exists_readDigits : ∀ {s : Bytes} (v : ℤ), cr ∈ s → ∃ x, readDigits v s = .ok x
  | c :: s, v, hmem => by
      rw [readDigits]
      split_ifs with hend hdigit
      · exact ⟨_, rfl⟩
      · exact exists_readDigits _ ((List.mem_cons.mp hmem).resolve_left (Ne.symm hend))
      · exact ⟨_, rfl⟩

theorem readDigits_append (b : Bytes) : ∀ {s : Bytes} {v : ℤ} {x : Option ℤ},
    readDigits v s = .ok x → readDigits v (s ++ b) = .ok x
  | c :: s, v, x, h => by
      rw [readDigits] at h
      rw [List.cons_append, readDigits]
      split_ifs at h ⊢
      · exact h
      · exact readDigits_append b h
      · exact h

theorem cr_mem_readSign {s : Bytes} (hmem : cr ∈ s) : cr ∈ (readSign s).2 := by
  cases s with
  | nil => simp at hmem
  | cons c s =>
    rw [readSign]
    split_ifs with hminus hplus
    · exact (List.mem_cons.mp hmem).resolve_left (by rw [hminus]; decide)
    · exact (List.mem_cons.mp hmem).resolve_left (by rw [hplus]; decide)
    · exact hmem

theorem readSign_append (b : Bytes) {s : Bytes} (hs : s ≠ []) :
    readSign (s ++ b) = ((readSign s).1, (readSign s).2 ++ b) := by
  cases s with
  | nil => exact absurd rfl hs
  | cons c s =>
    rw [List.cons_append, readSign, readSign]
    split_ifs <;> rfl

/-- A number is read up to a `'\r'`, which is there. -/
theorem exists_readLongLong {s : Bytes} (hmem : cr ∈ s) : ∃ v, readLongLong s = .ok v := by
  obtain ⟨x, hx⟩ := exists_readDigits 0 (cr_mem_readSign hmem)
  rw [readLongLong, hx]
  cases x with
  | none => exact ⟨_, rfl⟩
  | some v => exact ⟨_, rfl⟩

theorem readLongLong_append (b : Bytes) {s : Bytes} (hmem : cr ∈ s) :
    readLongLong (s ++ b) = readLongLong s := by
  obtain ⟨x, hx⟩ := exists_readDigits 0 (cr_mem_readSign hmem)
  rw [readLongLong, readLongLong, readSign_append b (List.ne_nil_of_mem hmem), hx,
    readDigits_append b hx]

theorem readLongLong_append_of_ok (b : Bytes) {s : Bytes} {n : ℤ} (hread : readLongLong s = .ok n) :
    readLongLong (s ++ b) = .ok n := by
  have hne : s ≠ [] := by
    rintro rfl
    simp [readLongLong, readSign, readDigits] at hread
  rw [readLongLong] at hread ⊢
  rw [readSign_append b hne]
  cases hdigits : readDigits 0 (readSign s).2 with
  | error fault => simp [hdigits] at hread
  | ok x =>
    rw [hdigits] at hread
    rw [readDigits_append b hdigits]
    exact hread

/-! ### More input -/

/-- What is made of the bytes at hand is made of more bytes as well. -/
def Extends (b : Bytes) (x y : Except ReaderFault (Option ReadState)) : Prop :=
  (∀ r, x = .ok (some r) → y = .ok (some (r.feed b))) ∧ ∀ fault, x = .error fault → y = .error fault

section

variable {r r' : ReadState} {cur : ReadTask} {parents : List ReadTask} {b : Bytes}

theorem extends_created (hr : r.err = false) (obj : Reply) (rest : Bytes) :
    Extends b (r.created obj cur parents rest)
      ((r.feed b).created obj cur parents (rest ++ b)) := by
  unfold ReadState.created
  cases moveToNextTask obj cur.idx parents with
  | error fault => simp [Extends]
  | ok next => simp [Extends, ReadState.feed, hr]

theorem extends_none (y : Except ReaderFault (Option ReadState)) : Extends b (.ok none) y := by
  simp [Extends]

theorem feed_rest (hr : r.err = false) : (r.feed b).rest = r.rest ++ b := by
  simp [ReadState.feed, hr]

theorem extends_processLineItem (hr : r.err = false) (type : ReplyType) :
    Extends b (processLineItem type cur parents r) (processLineItem type cur parents (r.feed b)) := by
  unfold processLineItem
  rw [feed_rest hr]
  cases hline : seekNewline r.rest with
  | none => exact extends_none _
  | some len =>
    obtain ⟨hle, hcr⟩ := mem_take_of_seekNewline hline
    rw [seekNewline_append b hline]
    dsimp only
    rw [List.take_append_of_le_length (by omega), List.drop_append_of_le_length hle,
      readLongLong_append b hcr]
    cases type with
    | integer =>
      obtain ⟨v, hv⟩ := exists_readLongLong hcr
      simp only [hv]
      exact extends_created hr _ _
    | string => exact extends_created hr _ _
    | array => exact extends_created hr _ _
    | nil => exact extends_created hr _ _
    | status => exact extends_created hr _ _
    | error => exact extends_created hr _ _

theorem extends_processBulkItem (hr : r.err = false) :
    Extends b (processBulkItem cur parents r) (processBulkItem cur parents (r.feed b)) := by
  unfold processBulkItem
  rw [feed_rest hr]
  cases hline : seekNewline r.rest with
  | none => exact extends_none _
  | some n =>
    obtain ⟨hle, hcr⟩ := mem_take_of_seekNewline hline
    obtain ⟨len, hlen⟩ := exists_readLongLong hcr
    rw [seekNewline_append b hline]
    simp only [readLongLong_append b hcr, hlen, List.drop_append_of_le_length hle]
    split_ifs with hnil hfits hfits'
    · exact extends_created hr _ _
    · rw [List.take_append_of_le_length (by omega), List.drop_append_of_le_length hfits]
      exact extends_created hr _ _
    · rw [List.length_append] at hfits'
      omega
    · exact extends_none _
    · exact extends_none _

theorem extends_processMultiBulkItem (hr : r.err = false) :
    Extends b (processMultiBulkItem cur parents r) (processMultiBulkItem cur parents (r.feed b)) := by
  unfold processMultiBulkItem
  rw [feed_rest hr]
  by_cases hdepth : parents.length = 8
  · rw [if_pos hdepth, if_pos hdepth]
    simp [Extends, ReadState.feed, readerError]
  · rw [if_neg hdepth, if_neg hdepth]
    cases hline : seekNewline r.rest with
    | none => exact extends_none _
    | some n =>
      obtain ⟨hle, hcr⟩ := mem_take_of_seekNewline hline
      obtain ⟨elements, helements⟩ := exists_readLongLong hcr
      rw [seekNewline_append b hline]
      simp only [readLongLong_append b hcr, helements, List.drop_append_of_le_length hle]
      split_ifs with hnil hsome hstack
      · exact extends_created hr _ _
      · simp [Extends]
      · simp [Extends, ReadState.feed, hr]
      · exact extends_created hr _ _

theorem extends_processTyped (hr : r.err = false) (type : ReplyType) :
    Extends b (processTyped type cur parents r) (processTyped type cur parents (r.feed b)) := by
  cases type with
  | string => exact extends_processBulkItem hr
  | array => exact extends_processMultiBulkItem hr
  | integer => exact extends_processLineItem hr .integer
  | nil => simp [Extends, processTyped]
  | status => exact extends_processLineItem hr .status
  | error => exact extends_processLineItem hr .error

/-! ### The turns of the loop -/

theorem next_of_err (hr : r.err = true) : r.next = .ok none := by
  rw [ReadState.next, if_pos hr]

theorem next_of_nil (hstack : r.rstack = []) : r.next = .ok none := by
  rw [ReadState.next, hstack]
  split_ifs <;> rfl

theorem next_of_typed (hr : r.err = false) (hstack : r.rstack = cur :: parents) {type : ReplyType}
    (htype : cur.type = some type) : r.next = processTyped type cur parents r := by
  rw [ReadState.next, if_neg (by simp [hr]), hstack]
  simp only [htype]

theorem next_of_fresh (hr : r.err = false) (hstack : r.rstack = cur :: parents)
    (htype : cur.type = none) :
    r.next = .ok (r.readType cur parents) := by
  rw [ReadState.next, if_neg (by simp [hr]), hstack]
  simp only [htype]

theorem extends_next : Extends b r.next (r.feed b).next := by
  by_cases herr : r.err = true
  · rw [next_of_err herr]
    exact extends_none _
  have hr : r.err = false := by simpa using herr
  have hfeed : r.feed b = { r with rest := r.rest ++ b } := by simp [ReadState.feed, hr]
  have hr' : (r.feed b).err = false := by rw [hfeed, hr]
  cases hstack : r.rstack with
  | nil =>
    rw [next_of_nil hstack]
    exact extends_none _
  | cons cur parents =>
    have hstack' : (r.feed b).rstack = cur :: parents := by rw [hfeed, hstack]
    cases htype : cur.type with
    | some type =>
      rw [next_of_typed hr hstack htype, next_of_typed hr' hstack' htype]
      exact extends_processTyped hr type
    | none =>
      rw [next_of_fresh hr hstack htype, next_of_fresh hr' hstack' htype, ReadState.readType,
        ReadState.readType, feed_rest hr]
      cases r.rest with
      | nil => exact extends_none _
      | cons byte rest =>
        rw [List.cons_append]
        dsimp only
        cases replyType byte with
        | none => simp [Extends, ReadState.feed, readerError]
        | some type => simp [Extends, ReadState.feed, hr]

/-! ### Every item uses some bytes -/

/-- An error, or fewer bytes are left. -/
def Shortens (r : ReadState) (x : Except ReaderFault (Option ReadState)) : Prop :=
  ∀ r', x = .ok (some r') → r' = readerError ∨ r'.err = false ∧ r'.rest.length < r.rest.length

theorem shortens_created (hr : r.err = false) (obj : Reply) {rest : Bytes}
    (hrest : rest.length < r.rest.length) : Shortens r (r.created obj cur parents rest) := by
  unfold ReadState.created
  cases moveToNextTask obj cur.idx parents with
  | error fault => simp [Shortens]
  | ok next =>
    rintro _ ⟨⟩
    exact .inr ⟨hr, hrest⟩

theorem shortens_processLineItem (hr : r.err = false) (type : ReplyType) :
    Shortens r (processLineItem type cur parents r) := by
  unfold processLineItem
  cases hline : seekNewline r.rest with
  | none => simp [Shortens]
  | some len =>
    obtain ⟨hle, hcr⟩ := mem_take_of_seekNewline hline
    have hrest : (r.rest.drop (len + 2)).length < r.rest.length := by
      rw [List.length_drop]
      omega
    obtain ⟨v, hv⟩ := exists_readLongLong hcr
    simp only [hv]
    split <;> exact shortens_created hr _ hrest

theorem shortens_processBulkItem (hr : r.err = false) :
    Shortens r (processBulkItem cur parents r) := by
  unfold processBulkItem
  cases hline : seekNewline r.rest with
  | none => simp [Shortens]
  | some n =>
    obtain ⟨hle, hcr⟩ := mem_take_of_seekNewline hline
    obtain ⟨len, hlen⟩ := exists_readLongLong hcr
    simp only [hlen]
    split_ifs
    · exact shortens_created hr _ (by rw [List.length_drop]; omega)
    · exact shortens_created hr _ (by rw [List.drop_drop, List.length_drop]; omega)
    · simp [Shortens]

theorem shortens_processMultiBulkItem (hr : r.err = false) :
    Shortens r (processMultiBulkItem cur parents r) := by
  unfold processMultiBulkItem
  by_cases hdepth : parents.length = 8
  · rw [if_pos hdepth]
    rintro _ ⟨⟩
    exact .inl rfl
  · rw [if_neg hdepth]
    cases hline : seekNewline r.rest with
    | none => simp [Shortens]
    | some n =>
      obtain ⟨hle, hcr⟩ := mem_take_of_seekNewline hline
      have hrest : (r.rest.drop (n + 2)).length < r.rest.length := by
        rw [List.length_drop]
        omega
      obtain ⟨elements, helements⟩ := exists_readLongLong hcr
      simp only [helements]
      split_ifs
      · exact shortens_created hr _ hrest
      · simp [Shortens]
      · rintro _ ⟨⟩
        exact .inr ⟨hr, hrest⟩
      · exact shortens_created hr _ hrest

theorem shortens_processTyped (hr : r.err = false) (type : ReplyType) :
    Shortens r (processTyped type cur parents r) := by
  cases type with
  | string => exact shortens_processBulkItem hr
  | array => exact shortens_processMultiBulkItem hr
  | integer => exact shortens_processLineItem hr .integer
  | nil => simp [Shortens, processTyped]
  | status => exact shortens_processLineItem hr .status
  | error => exact shortens_processLineItem hr .error

theorem err_eq_false_of_next {x : ReadState} (hnext : r.next = .ok (some x)) : r.err = false := by
  by_contra herr
  rw [next_of_err (by simpa using herr)] at hnext
  simp at hnext

theorem shortens_next : Shortens r r.next := by
  intro r' hnext
  have hr := err_eq_false_of_next hnext
  cases hstack : r.rstack with
  | nil =>
    rw [next_of_nil hstack] at hnext
    simp at hnext
  | cons cur parents =>
    cases htype : cur.type with
    | some type =>
      rw [next_of_typed hr hstack htype] at hnext
      exact shortens_processTyped hr type r' hnext
    | none =>
      rw [next_of_fresh hr hstack htype, ReadState.readType] at hnext
      cases hrest : r.rest with
      | nil => simp [hrest] at hnext
      | cons byte rest =>
        simp only [hrest] at hnext
        cases htype : replyType byte with
        | none =>
          rw [htype] at hnext
          cases hnext
          exact .inl rfl
        | some type =>
          rw [htype] at hnext
          cases hnext
          exact .inr ⟨hr, by simp⟩

end

/-- The loop of `redisReaderGetReply`, with the type byte of an item as an item of its own. -/
def itemReader : Reader ReadState UInt8 ReaderFault where
  next := ReadState.next
  feed := ReadState.feed
  left r := r.rest.length + if r.err then 0 else 1
  left_lt {r r'} hnext := by
    have hr := err_eq_false_of_next hnext
    obtain rfl | ⟨hr', hless⟩ := shortens_next r' hnext
    · simp [hr, readerError]
    · simp [hr, hr', hless]
  next_feed b hnext := extends_next.1 _ hnext
  next_feed_error b hnext := extends_next.2 _ hnext
  feed_nil r := by simp [ReadState.feed]
  feed_feed b c r := by
    by_cases hr : r.err = true
    · simp [ReadState.feed, hr]
    · simp [ReadState.feed, hr]

/-! ### The loop of `redisReaderGetReply` -/

/-- **The loop.** It drains the reader. -/
theorem processItems_eq_drain : ∀ {n : ℕ} {r : ReadState}, r.err = false →
    itemReader.left r < n → processItems n r = itemReader.drain r
  | n + 1, r, hr, hn => by
      -- the rest of the loop, when the type of the item was read
      have loop : ∀ typed : ReadState, itemReader.left typed < n + 1 →
          processItem r = itemResult typed typed.next →
            processItems (n + 1) r = itemReader.drain typed := by
        intro typed hleft hitem
        rw [processItems, hitem]
        cases hnext : typed.next with
        | error fault => exact (Reader.drain_of_error (R := itemReader) hnext).symm
        | ok x =>
          cases x with
          | none => exact (Reader.drain_of_none (R := itemReader) hnext).symm
          | some r' =>
            have hless : itemReader.left r' < itemReader.left typed := itemReader.left_lt hnext
            rw [Reader.drain_of_some (R := itemReader) hnext]
            cases herr : r'.err with
            | true =>
              simp only [itemResult, herr, Bool.not_true]
              exact (Reader.drain_of_none (R := itemReader) (next_of_err herr)).symm
            | false =>
              simp only [itemResult, herr, Bool.not_false]
              exact processItems_eq_drain herr (by omega)
      cases hstack : r.rstack with
      | nil =>
        rw [Reader.drain_of_none (R := itemReader) (next_of_nil hstack), processItems, processItem,
          hstack]
      | cons cur parents =>
        cases htype : cur.type with
        | some type =>
          refine loop r hn ?_
          rw [next_of_typed hr hstack htype, processItem, hstack]
          simp only [htype]
        | none =>
          have hnext := next_of_fresh hr hstack htype
          rw [ReadState.readType] at hnext
          cases hrest : r.rest with
          | nil =>
            rw [hrest] at hnext
            rw [Reader.drain_of_none (R := itemReader) hnext, processItems, processItem, hstack]
            simp only [htype, hrest]
          | cons byte rest =>
            rw [hrest] at hnext
            cases hbyte : replyType byte with
            | none =>
              simp only [hbyte] at hnext
              have hlast : itemReader.next readerError = .ok none := rfl
              rw [Reader.drain_of_some (R := itemReader) hnext, Reader.drain_of_none hlast,
                processItems, processItem, hstack]
              simp only [htype, hrest, hbyte]
            | some type =>
              simp only [hbyte] at hnext
              have hless := itemReader.left_lt hnext
              rw [Reader.drain_of_some (R := itemReader) hnext]
              have htyped : ReadState.next
                  { r with rest := rest, rstack := { cur with type := some type } :: parents } =
                    processTyped type { cur with type := some type } parents
                      { r with
                        rest := rest
                        rstack := { cur with type := some type } :: parents } := by
                refine next_of_typed ?_ rfl rfl
                exact hr
              refine loop _ (by omega) ?_
              rw [htyped, processItem, hstack]
              simp only [htype, hrest, hbyte]

end EsbProxy
