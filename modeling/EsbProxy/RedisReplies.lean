import EsbProxy.RedisReader

/-!
# Replies on the wire

What the reader makes of the bytes of a reply, whatever the pieces in which they arrive, and of any
other bytes.

## Main definitions

* `Reply.encode`: the bytes with which Redis sends a reply.
* `Reply.Fits`: a reply that the reader has room for.

## Main results

* `steps_encode`: the reader takes the bytes of a reply off its input, and nothing else.
-/

namespace EsbProxy

open Foundation

/-! ### Numbers and lines -/

theorem readDigits_digits (rest : Bytes) : ∀ (digits : List Char) (n : ℕ),
    (∀ c ∈ digits, c.isDigit) →
      readDigits n (digits.map (fun c => c.toNat.toUInt8) ++ rest) =
        readDigits (Nat.ofDigitChars 10 digits n) rest
  | [], n, _ => by rw [List.map_nil, List.nil_append, Nat.ofDigitChars_nil]
  | c :: digits, n, hdigits => by
      obtain ⟨htoNat, hlower, hupper⟩ := toNat_of_isDigit (hdigits c List.mem_cons_self)
      have hcr : c.toNat.toUInt8 ≠ cr := by
        intro heq
        rw [heq] at htoNat
        have h13 : cr.toNat = 13 := rfl
        omega
      have hrange : 48 ≤ c.toNat.toUInt8 ∧ c.toNat.toUInt8 ≤ 57 := by
        rw [UInt8.le_iff_toNat_le, UInt8.le_iff_toNat_le, htoNat]
        exact ⟨hlower, hupper⟩
      have hvalue : (n : ℤ) * 10 + (c.toNat - 48) = (10 * n + (c.toNat - '0'.toNat) : ℕ) := by
        have h48 : '0'.toNat = 48 := rfl
        omega
      rw [List.map_cons, List.cons_append, readDigits, if_neg hcr, if_pos hrange, htoNat, hvalue,
        readDigits_digits rest digits _ fun c' hc' => hdigits c' (List.mem_cons_of_mem c hc'),
        Nat.ofDigitChars_cons]

/-- A printed number is read. -/
theorem readLongLong_decimal (n : ℤ) (rest : Bytes) :
    readLongLong (decimal n ++ cr :: rest) = .ok n := by
  have hdigits : ∀ c ∈ Nat.toDigits 10 n.natAbs, c.isDigit := fun c hc =>
    Nat.isDigit_of_mem_toDigits (by omega) le_rfl hc
  have hread : readDigits 0 ((Nat.toDigits 10 n.natAbs).map (fun c => c.toNat.toUInt8) ++
      cr :: rest) = .ok (some (n.natAbs : ℤ)) := by
    have hfirst := readDigits_digits (cr :: rest) _ 0 hdigits
    rw [Nat.ofDigitChars_ten_toDigits] at hfirst
    rw [← Nat.cast_zero, hfirst, readDigits, if_pos rfl]
  rw [readLongLong, decimal]
  split_ifs with hneg
  · have hminus : ascii "-" = [45] := by decide
    rw [hminus, List.append_assoc, List.singleton_append, readSign, if_pos rfl]
    dsimp only
    rw [hread]
    exact congrArg Except.ok (by omega)
  · -- no sign stands before the first digit
    have hsign : readSign ((Nat.toDigits 10 n.natAbs).map (fun c => c.toNat.toUInt8) ++
        cr :: rest) = (1, (Nat.toDigits 10 n.natAbs).map (fun c => c.toNat.toUInt8) ++
          cr :: rest) := by
      cases hall : Nat.toDigits 10 n.natAbs with
      | nil => exact absurd hall Nat.toDigits_ne_nil
      | cons c digits =>
        obtain ⟨htoNat, hlower, -⟩ := toNat_of_isDigit (hdigits c (by rw [hall]; simp))
        have h45 : (45 : UInt8).toNat = 45 := rfl
        have h43 : (43 : UInt8).toNat = 43 := rfl
        rw [List.map_cons, List.cons_append, readSign, if_neg, if_neg]
        · intro heq
          rw [heq] at htoNat
          omega
        · intro heq
          rw [heq] at htoNat
          omega
    rw [List.nil_append, hsign]
    dsimp only
    rw [hread]
    exact congrArg Except.ok (by omega)

/-- A line without a newline in it ends at the newline behind it. -/
theorem seekNewline_line (rest : Bytes) : ∀ {line : Bytes}, seekNewline line = none →
    seekNewline (line ++ cr :: lf :: rest) = some line.length
  | [], _ => by simp [seekNewline]
  | [a], _ => by
      have hlf : cr ≠ lf := by decide
      simp [seekNewline, hlf]
  | a :: b :: line, hline => by
      rw [seekNewline] at hline
      split_ifs at hline with hnewline
      rw [List.cons_append, List.cons_append, seekNewline, if_neg hnewline, ← List.cons_append,
        seekNewline_line rest (Option.map_eq_none_iff.mp hline)]
      rfl

theorem seekNewline_of_notMem : ∀ {s : Bytes}, cr ∉ s → seekNewline s = none
  | [], _ => rfl
  | [a], _ => rfl
  | a :: b :: s, hs => by
      obtain ⟨ha, hs⟩ := not_or.mp (mt List.mem_cons.mpr hs)
      rw [seekNewline, if_neg fun hnewline => ha hnewline.1.symm, seekNewline_of_notMem hs]
      rfl

theorem seekNewline_decimal (n : ℤ) (rest : Bytes) :
    seekNewline (decimal n ++ cr :: lf :: rest) = some (decimal n).length :=
  seekNewline_line rest
    (seekNewline_of_notMem (notMem_decimal n (by decide) (.inl (by decide))))

/-! ### The encoding -/

mutual

/-- The bytes with which Redis sends a reply. -/
def Reply.encode : Reply → Bytes
  | .string str => 36 :: decimal str.length ++ [cr, lf] ++ str ++ [cr, lf]
  | .array _ element => 42 :: decimal element.length ++ [cr, lf] ++ encodeAll element
  | .integer n => 58 :: decimal n ++ [cr, lf]
  | .nil => 36 :: decimal (-1) ++ [cr, lf]
  | .status str => 43 :: str ++ [cr, lf]
  | .error str => 45 :: str ++ [cr, lf]

/-- The bytes of the elements of an array. -/
def Reply.encodeAll : List Reply → Bytes
  | [] => []
  | obj :: element => obj.encode ++ encodeAll element

end

mutual

/-- A reply with `depth` levels of arrays at most. The number of elements of an array is that of its
vector and fits an `int`, and no status or error has a newline in it. -/
def Reply.Fits : (depth : ℕ) → Reply → Prop
  | _, .string _ | _, .integer _ | _, .nil => True
  | _, .status str | _, .error str => seekNewline str = none
  | 0, .array _ _ => False
  | depth + 1, .array elements element =>
    elements = element.length ∧ element.length < 2 ^ 31 ∧ AllFit depth element

/-- Replies with `depth` levels of arrays at most. -/
def Reply.AllFit : (depth : ℕ) → List Reply → Prop
  | _, [] => True
  | depth, obj :: element => obj.Fits depth ∧ AllFit depth element

end

/-! ### The round trip -/

theorem sizeT_int32 {n : ℕ} (hn : n < 2 ^ 31) : sizeT (int32 n) = n := by
  rw [int32_eq_self (by omega) (by omega), sizeT]
  omega

section

variable {cur : ReadTask} {parents rstack : List ReadTask} {reply reply' : Option Reply}
  {obj : Reply} {rest : Bytes}

/-- The first byte of an item is read, and then the item. -/
theorem steps_of_byte {byte : UInt8} {type : ReplyType} {r : ReadState}
    (hfresh : cur.type = none) (hbyte : replyType byte = some type)
    (hitem : processTyped type { cur with type := some type } parents
      ⟨false, rest, { cur with type := some type } :: parents, reply⟩ = .ok (some r)) :
    itemReader.Steps ⟨false, byte :: rest, cur :: parents, reply⟩ r := by
  have hfirst : itemReader.next ⟨false, byte :: rest, cur :: parents, reply⟩ =
      .ok (some ⟨false, rest, { cur with type := some type } :: parents, reply⟩) := by
    have hnext := next_of_fresh (r := ⟨false, byte :: rest, cur :: parents, reply⟩) rfl rfl hfresh
    simp only [ReadState.readType, hbyte] at hnext
    exact hnext
  have hsecond : itemReader.next ⟨false, rest, { cur with type := some type } :: parents, reply⟩ =
      .ok (some r) :=
    (next_of_typed (r := ⟨false, rest, _, reply⟩) rfl rfl rfl).trans hitem
  exact .tail (.single hfirst) hsecond

theorem drop_line (line rest : Bytes) :
    (line ++ cr :: lf :: rest).drop (line.length + 2) = rest := by
  rw [← List.drop_drop, List.drop_left]
  rfl

theorem created_eq {r : ReadState} {idx : ℤ} (hr : r.err = false) (hidx : cur.idx = idx)
    (hmove : moveToNextTask obj idx parents = .ok (rstack, reply')) :
    r.created obj cur parents rest = .ok (some ⟨false, rest, rstack, reply'⟩) := by
  rw [ReadState.created, hidx, hmove]
  simp [hr]

mutual

/-- **Round trip.** The reader takes the bytes of a reply off its input, and nothing else; the reply
is linked into the array at hand. -/
theorem steps_encode : ∀ (obj : Reply) {depth : ℕ} {cur : ReadTask}
    {parents rstack : List ReadTask} {reply reply' : Option Reply}, obj.Fits depth →
    cur.type = none → parents.length + depth ≤ 8 →
    moveToNextTask obj cur.idx parents = .ok (rstack, reply') → ∀ rest,
      itemReader.Steps ⟨false, obj.encode ++ rest, cur :: parents, reply⟩
        ⟨false, rest, rstack, reply'⟩
  | .string str, depth, cur, parents, rstack, reply, reply', _, hfresh, _, hmove, rest => by
      have hbytes : (Reply.string str).encode ++ rest =
          36 :: (decimal str.length ++ cr :: lf :: (str ++ cr :: lf :: rest)) := by
        simp [Reply.encode]
      rw [hbytes]
      refine steps_of_byte hfresh rfl ?_
      have hfits : (str.length : ℤ).toNat + 2 ≤ (str ++ cr :: lf :: rest).length := by simp
      simp only [processTyped, processBulkItem, seekNewline_decimal, readLongLong_decimal, drop_line]
      rw [if_neg (by omega), if_pos hfits, Int.toNat_natCast, List.take_left, drop_line]
      exact created_eq rfl rfl hmove
  | .array elements element, 0, cur, parents, rstack, reply, reply', hfits, _, _, _, rest => by
      simp [Reply.Fits] at hfits
  | .array elements [], depth + 1, cur, parents, rstack, reply, reply', hfits, hfresh,
      hdepth, hmove, rest => by
      obtain rfl : elements = 0 := hfits.1
      have hbytes : (Reply.array 0 []).encode ++ rest = 42 :: (decimal 0 ++ cr :: lf :: rest) := by
        simp [Reply.encode, Reply.encodeAll]
      rw [hbytes]
      refine steps_of_byte hfresh rfl ?_
      simp only [processTyped, processMultiBulkItem, seekNewline_decimal, readLongLong_decimal,
        drop_line]
      rw [if_neg (by omega), if_neg (by omega), if_neg (by omega)]
      exact created_eq rfl rfl hmove
  | .array elements (obj :: element), depth + 1, cur, parents, rstack, reply, reply', hfits,
      hfresh, hdepth, hmove, rest => by
      obtain ⟨rfl, hsize, hall⟩ := hfits
      obtain ⟨n, hn⟩ : ∃ n, n = (obj :: element).length := ⟨_, rfl⟩
      rw [← hn] at hmove hsize
      have hbytes : (Reply.array (obj :: element).length (obj :: element)).encode ++ rest =
          42 :: (decimal n ++ cr :: lf :: (Reply.encodeAll (obj :: element) ++ rest)) := by
        simp [Reply.encode, hn]
      rw [hbytes]
      have hpos : 0 < n := by rw [hn]; simp
      have hint : int32 n = n := int32_eq_self (by omega) (by omega)
      have hsizeT : sizeT n = n := by rw [← hint, sizeT_int32 hsize]
      refine (steps_of_byte (r := ⟨false, Reply.encodeAll (obj :: element) ++ rest, .fresh 0 ::
        { cur with type := some .array, elements := n, element := [] } :: parents, reply⟩)
        hfresh rfl ?_).trans ?_
      · simp only [processTyped, processMultiBulkItem, seekNewline_decimal, readLongLong_decimal,
          drop_line]
        rw [if_neg (by omega), if_neg (by omega), if_pos (by omega), if_neg (by omega), hint]
      · have hlength : n = ([] : List Reply).length + (element.length + 1) := by
          rw [hn, List.length_cons, List.length_nil, Nat.zero_add]
        rw [hlength] at hmove hsizeT ⊢
        refine steps_encodeAll obj element [] hall (by omega) ?_ rest
        rw [hsizeT]
        exact hmove
  | .integer n, depth, cur, parents, rstack, reply, reply', _, hfresh, _, hmove, rest => by
      have hbytes : (Reply.integer n).encode ++ rest = 58 :: (decimal n ++ cr :: lf :: rest) := by
        simp [Reply.encode]
      rw [hbytes]
      refine steps_of_byte hfresh rfl ?_
      simp only [processTyped, processLineItem, seekNewline_decimal, readLongLong_decimal, drop_line]
      exact created_eq rfl rfl hmove
  | .nil, depth, cur, parents, rstack, reply, reply', _, hfresh, _, hmove, rest => by
      have hbytes : Reply.nil.encode ++ rest = 36 :: (decimal (-1) ++ cr :: lf :: rest) := by
        simp [Reply.encode]
      rw [hbytes]
      refine steps_of_byte hfresh rfl ?_
      simp only [processTyped, processBulkItem, seekNewline_decimal, readLongLong_decimal, drop_line]
      exact created_eq rfl rfl hmove
  | .status str, depth, cur, parents, rstack, reply, reply', hfits, hfresh, _, hmove, rest => by
      have hline : seekNewline str = none := by simpa [Reply.Fits] using hfits
      have hbytes : (Reply.status str).encode ++ rest = 43 :: (str ++ cr :: lf :: rest) := by
        simp [Reply.encode]
      rw [hbytes]
      refine steps_of_byte hfresh rfl ?_
      simp only [processTyped, processLineItem, seekNewline_line rest hline, drop_line,
        List.take_left]
      exact created_eq rfl rfl hmove
  | .error str, depth, cur, parents, rstack, reply, reply', hfits, hfresh, _, hmove, rest => by
      have hline : seekNewline str = none := by simpa [Reply.Fits] using hfits
      have hbytes : (Reply.error str).encode ++ rest = 45 :: (str ++ cr :: lf :: rest) := by
        simp [Reply.encode]
      rw [hbytes]
      refine steps_of_byte hfresh rfl ?_
      simp only [processTyped, processLineItem, seekNewline_line rest hline, drop_line,
        List.take_left]
      exact created_eq rfl rfl hmove
termination_by obj => sizeOf obj

/-- The elements of an array, when those before them are linked already. -/
theorem steps_encodeAll : ∀ (obj : Reply) (element linked : List Reply) {depth : ℕ} {idx : ℤ}
    {parents rstack : List ReadTask} {reply reply' : Option Reply},
    Reply.AllFit depth (obj :: element) → parents.length + 1 + depth ≤ 8 →
    moveToNextTask (.array (sizeT (linked.length + (element.length + 1) : ℕ))
      (linked ++ obj :: element)) idx parents = .ok (rstack, reply') → ∀ rest,
      itemReader.Steps
        ⟨false, Reply.encodeAll (obj :: element) ++ rest, .fresh linked.length ::
          ⟨some .array, (linked.length + (element.length + 1) : ℕ), idx, linked⟩ :: parents, reply⟩
        ⟨false, rest, rstack, reply'⟩
  | obj, [], linked, depth, idx, parents, rstack, reply, reply', hfits, hdepth, hmove, rest => by
      obtain ⟨hobj, -⟩ : obj.Fits depth ∧ Reply.AllFit depth [] := hfits
      have hbytes : Reply.encodeAll [obj] ++ rest = obj.encode ++ rest := by
        simp [Reply.encodeAll]
      rw [hbytes]
      refine steps_encode obj hobj rfl (by simpa using hdepth) ?_ rest
      have hlast : (linked.length : ℤ) = (linked.length + (0 + 1) : ℕ) - 1 := by omega
      rw [moveToNextTask, if_neg (by simp), if_neg (by simp [ReadTask.fresh])]
      exact (if_pos hlast).trans hmove
  | obj, obj₂ :: element, linked, depth, idx, parents, rstack, reply, reply', hfits, hdepth,
      hmove, rest => by
      obtain ⟨hobj, hall⟩ : obj.Fits depth ∧ Reply.AllFit depth (obj₂ :: element) := hfits
      have hbytes : Reply.encodeAll (obj :: obj₂ :: element) ++ rest =
          obj.encode ++ (Reply.encodeAll (obj₂ :: element) ++ rest) := by
        simp [Reply.encodeAll]
      have hnext : ((linked ++ [obj]).length + (element.length + 1) : ℕ) =
          linked.length + ((obj₂ :: element).length + 1) := by
        simp
        omega
      have hmore : (linked.length : ℤ) ≠
          (linked.length + ((obj₂ :: element).length + 1) : ℕ) - 1 := by
        rw [List.length_cons]
        omega
      have hlinked : moveToNextTask obj (ReadTask.fresh linked.length).idx
          (⟨some .array, (linked.length + ((obj₂ :: element).length + 1) : ℕ), idx, linked⟩ ::
            parents) = .ok (.fresh (linked ++ [obj]).length ::
              ⟨some .array, ((linked ++ [obj]).length + (element.length + 1) : ℕ), idx,
                linked ++ [obj]⟩ :: parents, none) := by
        rw [moveToNextTask, if_neg (by simp), if_neg (by simp [ReadTask.fresh]; omega)]
        refine (if_neg hmore).trans ?_
        rw [hnext, List.length_append]
        rfl
      rw [hbytes]
      exact (steps_encode obj hobj rfl (by simpa using hdepth) hlinked _).trans
        (steps_encodeAll obj₂ element (linked ++ [obj]) hall hdepth
          (by rw [hnext, List.append_assoc]; exact hmove) rest)
termination_by obj element => sizeOf obj + sizeOf element

end

end

/-! ### What an item is made of -/

theorem seekNewline_take : ∀ {s : Bytes} {n : ℕ}, seekNewline s = some n →
    seekNewline (s.take n) = none
  | [], _, h => by simp [seekNewline] at h
  | [_], _, h => by simp [seekNewline] at h
  | a :: b :: s, n, h => by
      rw [seekNewline] at h
      split_ifs at h with hnewline
      · obtain rfl := Option.some.inj h
        rfl
      · obtain ⟨m, hm, rfl⟩ := Option.map_eq_some_iff.mp h
        have ih := seekNewline_take hm
        rw [List.take_succ_cons]
        cases m with
        | zero => rfl
        | succ m =>
          rw [List.take_succ_cons] at ih ⊢
          rw [seekNewline, if_neg hnewline, ih]
          rfl

section

variable {r r' : ReadState} {cur : ReadTask} {parents : List ReadTask}

/-- What a processed item does: it waits for input, fails the reader, creates an object, or begins
an array. An object that does not fit is an array with a negative number of elements. -/
inductive Processed (type : ReplyType) (cur : ReadTask) (parents : List ReadTask) (r : ReadState) :
    Except ReaderFault (Option ReadState) → Prop
  | waits : Processed type cur parents r (.ok none)
  | fails : Processed type cur parents r (.ok (some readerError))
  | creates (obj : Reply) (rest : Bytes) (hrest : rest <:+ r.rest)
      (hobj : obj.Fits (8 - parents.length) ∨
        ∃ n < -1, type = .array ∧ readLongLong r.rest = .ok n) :
      Processed type cur parents r (r.created obj cur parents rest)
  | begins (n : ℤ) (rest : Bytes) (hrest : rest <:+ r.rest) (htype : type = .array) (hn : 0 < n)
      (hread : readLongLong r.rest = .ok n) (hdepth : parents.length < 8) :
      Processed type cur parents r (.ok (some { r with
        rest := rest
        rstack := .fresh 0 ::
          { cur with type := some .array, elements := int32 n, element := [] } :: parents }))

theorem processed_line {type : ReplyType} (htype : type ≠ .array) :
    Processed type cur parents r (processLineItem type cur parents r) := by
  rw [processLineItem]
  cases hline : seekNewline r.rest with
  | none => exact .waits
  | some len =>
    obtain ⟨v, hv⟩ := exists_readLongLong (mem_take_of_seekNewline hline).2
    have hnone := seekNewline_take hline
    have hrest : r.rest.drop (len + 2) <:+ r.rest := List.drop_suffix _ _
    cases type with
    | integer =>
      simp only [hv]
      exact .creates _ _ hrest (.inl trivial)
    | array => exact absurd rfl htype
    | string | nil | status | error =>
      refine .creates _ _ hrest (.inl ?_)
      simpa [Reply.Fits] using hnone

theorem processed_bulk : Processed .string cur parents r (processBulkItem cur parents r) := by
  rw [processBulkItem]
  cases hline : seekNewline r.rest with
  | none => exact .waits
  | some n =>
    obtain ⟨len, hlen⟩ := exists_readLongLong (mem_take_of_seekNewline hline).2
    have hrest : r.rest.drop (n + 2) <:+ r.rest := List.drop_suffix _ _
    simp only [hlen]
    split_ifs with hneg hfits
    · exact .creates _ _ hrest (.inl trivial)
    · exact .creates _ _ ((List.drop_suffix _ _).trans hrest) (.inl trivial)
    · exact .waits

theorem processed_multiBulk (hdepth : parents.length ≤ 8) :
    Processed .array cur parents r (processMultiBulkItem cur parents r) := by
  rw [processMultiBulkItem]
  by_cases hfull : parents.length = 8
  · rw [if_pos hfull]
    exact .fails
  · rw [if_neg hfull]
    cases hline : seekNewline r.rest with
    | none => exact .waits
    | some len =>
      obtain ⟨elements, helements⟩ := exists_readLongLong (mem_take_of_seekNewline hline).2
      have hrest : r.rest.drop (len + 2) <:+ r.rest := List.drop_suffix _ _
      simp only [helements]
      split_ifs with hnil hsome hstack
      · exact .creates _ _ hrest (.inl trivial)
      · omega
      · exact .begins elements _ hrest rfl hsome helements (by omega)
      · refine .creates _ _ hrest ?_
        by_cases hzero : elements = 0
        · -- an array without elements
          obtain ⟨depth, hroom⟩ : ∃ depth, 8 - parents.length = depth + 1 :=
            ⟨7 - parents.length, by omega⟩
          rw [hroom, hzero]
          exact .inl ⟨rfl, by decide, trivial⟩
        · exact .inr ⟨elements, by omega, rfl, helements⟩

theorem processed {type : ReplyType} (htype : type ≠ .nil) (hdepth : parents.length ≤ 8) :
    Processed type cur parents r (processTyped type cur parents r) := by
  cases type with
  | string => exact processed_bulk
  | array => exact processed_multiBulk hdepth
  | nil => exact absurd rfl htype
  | integer | status | error => exact processed_line (by decide)

end

/-! ### Any bytes -/

theorem replyType_ne_nil (byte : UInt8) : replyType byte ≠ some .nil := by
  rw [replyType]
  split_ifs <;> simp

theorem eq_of_replyType_array {byte : UInt8} (hbyte : replyType byte = some .array) :
    byte = 42 := by
  by_contra hne
  rw [replyType] at hbyte
  split_ifs at hbyte <;> simp at hbyte

/-- The headers of arrays in a stream announce at least `-1` elements, and no more than an `int`
counts. -/
def Moderate (stream : Bytes) : Prop :=
  ∀ header n, 42 :: header <:+ stream → readLongLong header = .ok n → -1 ≤ n ∧ n < 2 ^ 31

/-- The parent tasks of an item with the index `idx` are arrays. Their elements fit, are as many as
the index of the child says, and are not all there. -/
def Linked : (idx : ℤ) → List ReadTask → Prop
  | _, [] => True
  | idx, prv :: parents =>
    prv.type = some .array ∧ idx = prv.element.length ∧ idx < prv.elements ∧
      prv.elements < 2 ^ 31 ∧ Reply.AllFit (7 - parents.length) prv.element ∧
        Linked prv.idx parents

theorem allFit_append {depth : ℕ} {obj : Reply} (hobj : obj.Fits depth) :
    ∀ {element : List Reply}, Reply.AllFit depth element → Reply.AllFit depth (element ++ [obj])
  | [], _ => ⟨hobj, trivial⟩
  | _ :: _, hall => ⟨hall.1, allFit_append hobj hall.2⟩

section

variable {stream : Bytes} {r r' : ReadState} {cur : ReadTask} {parents rstack : List ReadTask}
  {reply : Option Reply}

/-- When an object was linked, the next item is fresh, or a reply is complete. -/
theorem of_moveToNextTask : ∀ {parents : List ReadTask} {obj : Reply} {idx : ℤ},
    moveToNextTask obj idx parents = .ok (rstack, reply) →
      (∀ cur parents', rstack = cur :: parents' →
        cur.type = none ∧ parents'.length ≤ parents.length) ∧ (reply.isSome ↔ rstack = [])
  | [], obj, idx, hmove => by
      obtain ⟨rfl, rfl⟩ : [] = rstack ∧ some obj = reply := by simpa [moveToNextTask] using hmove
      simp
  | prv :: parents, obj, idx, hmove => by
      rw [moveToNextTask] at hmove
      dsimp only at hmove
      split_ifs at hmove with hassert hvector hlast
      · obtain ⟨hfresh, hreply⟩ := of_moveToNextTask hmove
        refine ⟨fun cur parents' hstack => ?_, hreply⟩
        obtain ⟨htype, hdepth⟩ := hfresh cur parents' hstack
        exact ⟨htype, hdepth.trans (Nat.le_succ _)⟩
      · obtain ⟨rfl, rfl⟩ := Prod.mk.inj (Except.ok.inj hmove)
        refine ⟨?_, by simp⟩
        rintro _ _ ⟨⟩
        exact ⟨rfl, Nat.le_refl _⟩

/-- An object that fits is linked without a fault. -/
theorem exists_moveToNextTask : ∀ {parents : List ReadTask} {obj : Reply} {idx : ℤ},
    parents.length ≤ 8 → obj.Fits (8 - parents.length) → Linked idx parents →
      ∃ rstack reply, moveToNextTask obj idx parents = .ok (rstack, reply) ∧
        (∀ cur parents', rstack = cur :: parents' → Linked cur.idx parents') ∧
          ∀ o, reply = some o → o.Fits 8
  | [], obj, idx, _, hobj, _ =>
      ⟨[], some obj, rfl, by simp, fun _ h => Option.some.inj h ▸ hobj⟩
  | prv :: parents, obj, idx, hdepth, hobj, hlinked => by
      obtain ⟨harray, hidx, hless, hint, hall, hparents⟩ := hlinked
      rw [List.length_cons] at hdepth hobj
      have hroom : 8 - (parents.length + 1) = 7 - parents.length := by omega
      rw [hroom] at hobj
      have hall' := allFit_append hobj hall
      rw [moveToNextTask, if_neg (by simp [harray]), if_neg (by omega)]
      dsimp only
      split_ifs with hlast
      · -- the array is complete
        have hlength : (prv.element ++ [obj]).length = prv.elements.toNat := by
          rw [List.length_append, List.length_singleton]
          omega
        have hsizeT : sizeT prv.elements = (prv.element ++ [obj]).length := by
          rw [hlength, sizeT]
          omega
        have hdepth' : 8 - parents.length = (7 - parents.length) + 1 := by omega
        refine exists_moveToNextTask (by omega) ?_ hparents
        rw [hdepth', hsizeT]
        exact ⟨rfl, by omega, hall'⟩
      · refine ⟨_, _, rfl, ?_, by simp⟩
        rintro _ _ ⟨⟩
        refine ⟨harray, ?_, ?_, hint, hall', hparents⟩
        · simp [ReadTask.fresh, hidx]
        · simp only [ReadTask.fresh]
          omega

/-- What holds of a reader of a stream. -/
structure Reads (stream : Bytes) (r : ReadState) : Prop where
  rest : r.rest <:+ stream
  stack : ∀ cur parents, r.rstack = cur :: parents → cur.type ≠ some .nil ∧
    (cur.type = some .array → 42 :: r.rest <:+ stream) ∧ parents.length ≤ 8 ∧
      (Moderate stream → Linked cur.idx parents)
  fits : Moderate stream → ∀ obj, r.reply = some obj → obj.Fits 8
  reply_iff : r.err = false → (r.reply.isSome ↔ r.rstack = [])

theorem reads_readerError : Reads stream readerError where
  rest := List.nil_suffix
  stack := by simp [readerError]
  fits := by simp [readerError]
  reply_iff := by simp [readerError]

theorem Reads.processed (hr : Reads stream r) (herr : r.err = false)
    (hstack : r.rstack = cur :: parents) {type : ReplyType} (htype : cur.type = some type)
    {x : Except ReaderFault (Option ReadState)} (hx : Processed type cur parents r x) :
    (Moderate stream → ∃ y, x = .ok y) ∧ ∀ r', x = .ok (some r') → Reads stream r' := by
  obtain ⟨-, hheader, hdepth, hlinked⟩ := hr.stack _ _ hstack
  cases hx with
  | waits => exact ⟨fun _ => ⟨_, rfl⟩, by simp⟩
  | fails =>
    refine ⟨fun _ => ⟨_, rfl⟩, ?_⟩
    rintro _ ⟨⟩
    exact reads_readerError
  | creates obj rest hrest hobj =>
    -- in a moderate stream, the object fits
    have hmoved : Moderate stream → ∃ rstack reply,
        moveToNextTask obj cur.idx parents = .ok (rstack, reply) ∧
          (∀ cur parents', rstack = cur :: parents' → Linked cur.idx parents') ∧
            ∀ o, reply = some o → o.Fits 8 := by
      intro hmoderate
      refine exists_moveToNextTask hdepth (hobj.resolve_right ?_) (hlinked hmoderate)
      rintro ⟨n, hn, rfl, hread⟩
      have hlower := (hmoderate _ n (hheader htype) hread).1
      omega
    rw [ReadState.created]
    cases hmove : moveToNextTask obj cur.idx parents with
    | error fault =>
      refine ⟨fun hmoderate => ?_, by simp⟩
      obtain ⟨rstack, reply, hok, -⟩ := hmoved hmoderate
      rw [hmove] at hok
      simp at hok
    | ok next =>
      obtain ⟨hfresh, hreply⟩ := of_moveToNextTask hmove
      refine ⟨fun _ => ⟨_, rfl⟩, ?_⟩
      rintro _ ⟨⟩
      refine ⟨hrest.trans hr.rest, ?_, fun hmoderate => ?_, fun _ => hreply⟩
      · intro cur' parents' hstack'
        obtain ⟨hnone, hless⟩ := hfresh cur' parents' hstack'
        refine ⟨by simp [hnone], by simp [hnone], hless.trans hdepth, fun hmoderate => ?_⟩
        obtain ⟨rstack, reply, hok, hlinked', -⟩ := hmoved hmoderate
        rw [hmove] at hok
        obtain rfl := Except.ok.inj hok
        exact hlinked' cur' parents' hstack'
      · obtain ⟨rstack, reply, hok, -, hfits⟩ := hmoved hmoderate
        rw [hmove] at hok
        obtain rfl := Except.ok.inj hok
        exact hfits
  | begins n rest hrest harray hn hread hroom =>
    subst harray
    refine ⟨fun _ => ⟨_, rfl⟩, ?_⟩
    rintro _ ⟨⟩
    refine ⟨hrest.trans hr.rest, ?_, hr.fits, fun _ => ?_⟩
    · rintro _ _ ⟨⟩
      refine ⟨by simp [ReadTask.fresh], by simp [ReadTask.fresh], by simpa using hroom,
        fun hmoderate => ?_⟩
      obtain ⟨hlower, hupper⟩ := hmoderate _ n (hheader htype) hread
      have hint : int32 n = n := int32_eq_self (by omega) hupper
      exact ⟨rfl, rfl, hint.symm ▸ hn, hint.symm ▸ hupper, trivial, hlinked hmoderate⟩
    · rw [hr.reply_iff herr, hstack]
      simp

/-- **Any bytes.** Every turn of the loop keeps what holds of a reader, and in a moderate stream it
does not fail. -/
theorem Reads.next (hr : Reads stream r) :
    (Moderate stream → ∃ y, r.next = .ok y) ∧ ∀ r', r.next = .ok (some r') → Reads stream r' := by
  by_cases herr : r.err = true
  · rw [next_of_err herr]
    exact ⟨fun _ => ⟨_, rfl⟩, by simp⟩
  have herr : r.err = false := by simpa using herr
  cases hstack : r.rstack with
  | nil =>
    rw [next_of_nil hstack]
    exact ⟨fun _ => ⟨_, rfl⟩, by simp⟩
  | cons cur parents =>
    obtain ⟨hnil, -, hdepth, hlinked⟩ := hr.stack _ _ hstack
    cases htype : cur.type with
    | some type =>
      rw [next_of_typed herr hstack htype]
      rw [htype] at hnil
      exact hr.processed herr hstack htype
        (EsbProxy.processed (fun h => hnil (congrArg some h)) hdepth)
    | none =>
      rw [next_of_fresh herr hstack htype, ReadState.readType]
      cases hrest : r.rest with
      | nil => exact ⟨fun _ => ⟨_, rfl⟩, by simp⟩
      | cons byte rest =>
        have hsuffix : byte :: rest <:+ stream := hrest ▸ hr.rest
        dsimp only
        cases hbyte : replyType byte with
        | none =>
          refine ⟨fun _ => ⟨_, rfl⟩, ?_⟩
          rintro _ ⟨⟩
          exact reads_readerError
        | some type =>
          refine ⟨fun _ => ⟨_, rfl⟩, ?_⟩
          rintro _ ⟨⟩
          refine ⟨(List.suffix_cons _ _).trans hsuffix, ?_, hr.fits, fun h => ?_⟩
          · rintro _ _ ⟨⟩
            refine ⟨?_, ?_, hdepth, hlinked⟩
            · rintro ⟨⟩
              exact replyType_ne_nil byte hbyte
            · rintro ⟨⟩
              rwa [← eq_of_replyType_array hbyte]
          · rw [hr.reply_iff herr, hstack]
            simp

end

end EsbProxy
