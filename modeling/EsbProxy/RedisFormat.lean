import EsbProxy.Handshake
import EsbProxy.RedisStream

/-!
# The commands for Redis

`redisvFormatCommand` of `hiredis.c` makes a command of a format and its arguments. It goes through
the format byte by byte, collects the arguments of the command, adds up how many bytes they need,
and writes them into a buffer of that size.

What libc prints for a conversion of `printf` is a parameter. An allocation fails only when its size
is negative.

## Main definitions

* `VaArg`, `FormatFault`, `FormatState`.
* `formatTurn`, `formatLoop`, `formatArgv`, `redisvFormatCommand`.

## Main results

* `formatArgv_eq`: the buffer is filled exactly, with the bytes of an array of strings.
* `formatLoop_shape`: the arguments decide what the pieces of a command are, and never how many.
* `format_zadd`, `format_zrevrange`, `format_zrem`: the commands of the proxy.
-/

namespace EsbProxy

open Foundation

/-! ### The format -/

/-- An argument behind the format, with its C type. A `%b` takes a pointer and a size. -/
inductive VaArg
  | cString (s : Bytes)
  | buffer (data : Bytes)
  | int (n : ℤ)
  | long (n : ℤ)
  | longLong (n : ℤ)
  | double (bits : UInt64)

/-- What formatting a command must never do: take an argument that is not there or has another type,
read behind the end of the format, write behind the end of the buffer, or fail the assertion. -/
inductive FormatFault
  | wrongArgument
  | pastFormat
  | pastBuffer
  | assertionFailed
  deriving DecidableEq

/-- The argument of the command at hand, whether it was touched, and those before it. -/
structure FormatState where
  curarg : Bytes
  touched : Bool
  curargv : List Bytes

/-- A space ends an argument that was touched. -/
def FormatState.space (s : FormatState) : FormatState :=
  if s.touched then ⟨[], false, s.curargv ++ [s.curarg]⟩ else s

/-- `sdscatlen` and `touched = 1`. -/
def FormatState.add (b : Bytes) (s : FormatState) : FormatState :=
  { s with curarg := s.curarg ++ b, touched := true }

/-- Skip a flag of a conversion. -/
def skipFlag (flag : UInt8) : Bytes → Bytes
  | c :: s => if c = flag then s else c :: s
  | [] => []

/-- Skip the digits of a width or a precision. -/
def skipDigits (s : Bytes) : Bytes := s.dropWhile fun c => 48 ≤ c ∧ c ≤ 57

/-- Skip the flags `#0- +`, the width and the precision of a conversion. -/
def skipModifiers (s : Bytes) : Bytes :=
  let s := skipFlag 43 (skipFlag 32 (skipFlag 45 (skipFlag 48 (skipFlag 35 s))))
  match skipDigits s with
  | 46 :: s => skipDigits s
  | s => s

/-- The types that a conversion of `printf` takes. -/
inductive Conversion
  | int
  | double
  | longLong
  | long
  deriving DecidableEq

/-- Whether an argument has the type that a conversion takes. -/
def VaArg.HasType : VaArg → Conversion → Bool
  | int _, .int | double _, .double | longLong _, .longLong | long _, .long => true
  | _, _ => false

/-- The conversion, and what stands behind it. The texts that `strchr` searches end with a NUL, so
that it finds the end of the format in them as well: then there is nothing behind the conversion,
not even an empty string. -/
def conversion (s : Bytes) : Option (Conversion × Option Bytes) :=
  let intfmts := ascii "diouxX"
  match s with
  | [] => some (.int, none)
  | c :: s =>
    if c ∈ intfmts then some (.int, some s)
    else if c ∈ ascii "eEfFgGaA" then some (.double, some s)
    else
      match c, s with
      | 104, 104 :: d :: s => if d ∈ intfmts then some (.int, some s) else none
      | 104, d :: s => if d ∈ intfmts then some (.int, some s) else none
      | 108, 108 :: d :: s => if d ∈ intfmts then some (.longLong, some s) else none
      | 108, d :: s => if d ∈ intfmts then some (.long, some s) else none
      | _, _ => none

/-- `va_arg`, for a type. -/
def vaArg (type : Conversion) : List VaArg → Except FormatFault (VaArg × List VaArg)
  | arg :: ap => if arg.HasType type then .ok (arg, ap) else .error .wrongArgument
  | [] => .error .wrongArgument

/-- What a turn of the loop leads to: the format that is left, the arguments that are left and the
state, or `fmt_invalid`. -/
abbrev FormatTurn := Option (Bytes × List VaArg × FormatState)

/-- A conversion of `printf`; `s` stands behind the `'%'`. A conversion that does not fit into
`_format` takes its argument and adds nothing, and what stands behind its first byte is read as a
part of the format. -/
def formatConversion (printf : Bytes → VaArg → Bytes) (s : Bytes) (ap : List VaArg)
    (st : FormatState) : Except FormatFault FormatTurn :=
  match conversion (skipModifiers s) with
  | none => .ok none
  | some (type, behind) =>
    match vaArg type ap with
    | .error fault => .error fault
    | .ok (arg, ap) =>
      match behind with
      | none =>
        if s.length + 2 < 14 then .error .pastFormat else .ok (some (s.drop 1, ap, st.add []))
      | some rest =>
        let format := 37 :: s.take (s.length - rest.length)
        if format.length < 14 then .ok (some (rest, ap, st.add (printf format arg)))
        else .ok (some (s.drop 1, ap, st.add []))

/-- A turn of the loop of `redisvFormatCommand` at the byte `c`, with `s` behind it. -/
def formatTurn (printf : Bytes → VaArg → Bytes) (c : UInt8) (s : Bytes) (ap : List VaArg)
    (st : FormatState) : Except FormatFault FormatTurn :=
  if c ≠ 37 then .ok (some (s, ap, if c = 32 then st.space else st.add [c]))
  else
    match s with
    | [] => .ok (some (s, ap, st.add [c]))
    | d :: rest =>
      if d = 115 then
        match ap with
        | .cString arg :: ap => .ok (some (rest, ap, st.add (cStr arg)))
        | _ => .error .wrongArgument
      else if d = 98 then
        match ap with
        | .buffer arg :: ap => .ok (some (rest, ap, st.add arg))
        | _ => .error .wrongArgument
      else if d = 37 then .ok (some (rest, ap, st.add [37]))
      else formatConversion printf s ap st

/-- The loop of `redisvFormatCommand`, at most `n` turns: the arguments of the command. -/
def formatLoop (printf : Bytes → VaArg → Bytes) :
    ℕ → Bytes → List VaArg → FormatState → Except FormatFault (Option (List Bytes))
  | 0, _, _, st => .ok (some st.space.curargv)
  | _ + 1, [], _, st => .ok (some st.space.curargv)
  | n + 1, c :: s, ap, st =>
    match formatTurn printf c s ap st with
    | .error fault => .error fault
    | .ok none => .ok none
    | .ok (some (s, ap, st)) => formatLoop printf n s ap st

/-! ### The buffer -/

/-- The loop of `intlen`. -/
def digitCount (n : ℕ) : ℕ := if n < 10 then 1 else digitCount (n / 10) + 1

/-- `intlen`. -/
def intlen (i : ℤ) : ℤ := (if i < 0 then 1 else 0) + digitCount i.natAbs

/-- `bulklen`. -/
def bulklen (len : ℕ) : ℤ := 1 + intlen (int32 len) + 2 + len + 2

/-- The command at the level of the protocol. -/
def protocolBytes (argv : List Bytes) : Bytes :=
  42 :: decimal argv.length ++ [cr, lf] ++
    argv.flatMap fun arg => 36 :: decimal arg.length ++ [cr, lf] ++ arg ++ [cr, lf]

/-- The `int` that the sizes add up to. -/
def totlen (argv : List Bytes) : ℤ :=
  int32 (argv.foldl (fun totlen arg => int32 (totlen + bulklen arg.length)) 0 +
    (1 + intlen (int32 argv.length) + 2))

/-- The second half of `redisvFormatCommand`: write the command into a buffer. `none` is `-1`. -/
def formatArgv (argv : List Bytes) : Except FormatFault (Option Bytes) :=
  -- a negative size is a very large one
  if totlen argv + 1 < 0 then .ok none
  else if totlen argv < (protocolBytes argv).length then .error .pastBuffer
  else if totlen argv ≠ (protocolBytes argv).length then .error .assertionFailed
  else .ok (some (protocolBytes argv))

/-- `redisvFormatCommand`. A turn of the loop takes a byte of the format at least. -/
def redisvFormatCommand (printf : Bytes → VaArg → Bytes) (format : Bytes) (ap : List VaArg) :
    Except FormatFault (Option Bytes) :=
  match formatLoop printf format.length format ap ⟨[], false, []⟩ with
  | .error fault => .error fault
  | .ok none => .ok none
  | .ok (some argv) => formatArgv argv

/-! ### The size of the buffer -/

theorem length_toDigits (n : ℕ) : (Nat.toDigits 10 n).length = digitCount n := by
  induction n using Nat.strongRecOn with
  | _ n ih =>
    rw [Nat.toDigits_eq_if (by omega), digitCount]
    split_ifs with hn
    · rfl
    · rw [List.length_append, ih (n / 10) (by omega), List.length_singleton]

theorem length_decimal (n : ℕ) : (decimal n).length = digitCount n := by
  rw [decimal, if_neg (by omega), List.nil_append, List.length_map, Int.natAbs_natCast,
    length_toDigits]

/-- `intlen` is the number of bytes that `%d` and `%zu` print. -/
theorem intlen_int32 {n : ℕ} (hn : n < 2 ^ 31) : intlen (int32 n) = (decimal n).length := by
  rw [int32_eq_self (by omega) (by omega), intlen, if_neg (by omega), Int.natAbs_natCast,
    length_decimal, zero_add]

/-- A bulk string on the wire. -/
def bulkBytes (arg : Bytes) : Bytes := 36 :: decimal arg.length ++ [cr, lf] ++ arg ++ [cr, lf]

theorem bulklen_eq {arg : Bytes} (harg : arg.length < 2 ^ 31) :
    bulklen arg.length = (bulkBytes arg).length := by
  rw [bulklen, intlen_int32 harg]
  simp only [bulkBytes, List.length_append, List.length_cons, List.length_nil]
  omega

theorem length_le_bulkBytes (arg : Bytes) : arg.length ≤ (bulkBytes arg).length := by
  simp only [bulkBytes, List.length_append, List.length_cons, List.length_nil]
  omega

/-- The sizes of the arguments add up without an overflow. -/
theorem foldl_bulklen : ∀ (argv : List Bytes) (n : ℕ),
    n + (argv.flatMap bulkBytes).length < 2 ^ 31 →
      argv.foldl (fun totlen arg => int32 (totlen + bulklen arg.length)) n =
        (n + (argv.flatMap bulkBytes).length : ℕ)
  | [], n, _ => by simp
  | arg :: argv, n, hn => by
      rw [List.flatMap_cons, List.length_append] at hn ⊢
      have hle := length_le_bulkBytes arg
      have hstep : int32 (n + bulklen arg.length) = (n + (bulkBytes arg).length : ℕ) := by
        rw [bulklen_eq (by omega), int32_eq_self (by omega) (by omega)]
        omega
      rw [List.foldl_cons, hstep, foldl_bulklen argv _ (by omega)]
      omega

theorem length_le_length_flatMap (argv : List Bytes) :
    argv.length ≤ (argv.flatMap bulkBytes).length := by
  induction argv with
  | nil => simp
  | cons arg argv ih =>
    rw [List.flatMap_cons, List.length_append, List.length_cons]
    have hpos : 0 < (bulkBytes arg).length := by simp [bulkBytes]
    omega

theorem length_protocolBytes (argv : List Bytes) : (protocolBytes argv).length =
    1 + (decimal argv.length).length + 2 + (argv.flatMap bulkBytes).length := by
  change (42 :: decimal argv.length ++ [cr, lf] ++ argv.flatMap bulkBytes).length = _
  simp only [List.length_append, List.length_cons, List.length_nil]
  omega

theorem totlen_eq {argv : List Bytes} (hsize : (protocolBytes argv).length < 2 ^ 31) :
    totlen argv = (protocolBytes argv).length := by
  have hlength := length_protocolBytes argv
  have hle := length_le_length_flatMap argv
  have hsum := foldl_bulklen argv 0 (by omega)
  rw [Nat.cast_zero, zero_add] at hsum
  rw [totlen, hsum, intlen_int32 (by omega), int32_eq_self (by omega) (by omega)]
  omega

/-- **The buffer.** A command that an `int` counts the bytes of fills its buffer exactly. -/
theorem formatArgv_eq {argv : List Bytes} (hsize : (protocolBytes argv).length < 2 ^ 31) :
    formatArgv argv = .ok (some (protocolBytes argv)) := by
  rw [formatArgv, totlen_eq hsize, if_neg (by omega), if_neg (by omega), if_neg (by omega)]

/-- A command that was formatted has as many bytes as an `int` counts. -/
theorem of_formatArgv {argv : List Bytes} {cmd : Bytes} (hformat : formatArgv argv = .ok (some cmd)) :
    cmd = protocolBytes argv ∧ (protocolBytes argv).length < 2 ^ 31 := by
  rw [formatArgv] at hformat
  split_ifs at hformat with hneg hpast hassert
  · simp at hformat
  · refine ⟨(Option.some.inj (Except.ok.inj hformat)).symm, ?_⟩
    have hint : totlen argv < 2 ^ 31 := by
      rw [totlen, int32]
      omega
    rw [ne_eq, not_not] at hassert
    omega

/-! ### What a server reads -/

theorem encodeAll_map_string (argv : List Bytes) :
    Reply.encodeAll (argv.map .string) = argv.flatMap bulkBytes := by
  induction argv with
  | nil => rfl
  | cons arg argv ih =>
    rw [List.map_cons, Reply.encodeAll, List.flatMap_cons, ih]
    rfl

/-- A command is an array of strings. -/
theorem protocolBytes_eq (argv : List Bytes) :
    protocolBytes argv = (Reply.array argv.length (argv.map .string)).encode := by
  rw [Reply.encode, encodeAll_map_string, List.length_map]
  rfl

theorem allFit_map_string (depth : ℕ) (argv : List Bytes) :
    Reply.AllFit depth (argv.map .string) := by
  induction argv with
  | nil => trivial
  | cons arg argv ih => exact ⟨trivial, ih⟩

/-- A server that reads a command finds the arguments that it was made of, and nothing else. -/
theorem repliesOf_protocolBytes {argv : List Bytes}
    (hsize : (protocolBytes argv).length < 2 ^ 31) :
    repliesOf (protocolBytes argv) = [.array argv.length (argv.map .string)] := by
  have hle := length_le_length_flatMap argv
  have hlength := length_protocolBytes argv
  have hfits : Reply.AllFit 8 [.array argv.length (argv.map .string)] := by
    refine ⟨⟨by simp, ?_, allFit_map_string 7 argv⟩, trivial⟩
    rw [List.length_map]
    omega
  have hbytes : protocolBytes argv = Reply.encodeAll [.array argv.length (argv.map .string)] := by
    rw [Reply.encodeAll, Reply.encodeAll, List.append_nil, protocolBytes_eq]
  rw [hbytes, repliesOf_encodeAll hfits]

/-! ### The arguments decide nothing but the pieces -/

/-- Two arguments of the same C type. -/
inductive SameType : VaArg → VaArg → Prop
  | cString (s s' : Bytes) : SameType (.cString s) (.cString s')
  | buffer (data data' : Bytes) : SameType (.buffer data) (.buffer data')
  | int (n n' : ℤ) : SameType (.int n) (.int n')
  | long (n n' : ℤ) : SameType (.long n) (.long n')
  | longLong (n n' : ℤ) : SameType (.longLong n) (.longLong n')
  | double (bits bits' : UInt64) : SameType (.double bits) (.double bits')

/-- Two states with as many arguments, both with the argument at hand touched or not. -/
def SameShape (st st' : FormatState) : Prop :=
  st.touched = st'.touched ∧ st.curargv.length = st'.curargv.length

/-- Two turns that end at the same byte of the format, with states of the same shape. -/
inductive SameTurn : Except FormatFault FormatTurn → Except FormatFault FormatTurn → Prop
  | faulted (fault : FormatFault) : SameTurn (.error fault) (.error fault)
  | invalid : SameTurn (.ok none) (.ok none)
  | turn (s : Bytes) {ap ap' : List VaArg} {st st' : FormatState}
      (hap : List.Forall₂ SameType ap ap') (hst : SameShape st st') :
      SameTurn (.ok (some (s, ap, st))) (.ok (some (s, ap', st')))

section

variable {ap ap' : List VaArg} {st st' : FormatState} {printf : Bytes → VaArg → Bytes}

theorem SameShape.space (hst : SameShape st st') : SameShape st.space st'.space := by
  rw [FormatState.space, FormatState.space, hst.1]
  split_ifs
  · exact ⟨rfl, by simp [hst.2]⟩
  · exact hst

theorem SameShape.add (b b' : Bytes) (hst : SameShape st st') :
    SameShape (st.add b) (st'.add b') := ⟨rfl, hst.2⟩

theorem SameType.hasType {arg arg' : VaArg} (h : SameType arg arg') (type : Conversion) :
    arg.HasType type = arg'.HasType type := by
  cases h <;> cases type <;> rfl

theorem sameTurn_formatConversion (s : Bytes) (hap : List.Forall₂ SameType ap ap')
    (hst : SameShape st st') :
    SameTurn (formatConversion printf s ap st) (formatConversion printf s ap' st') := by
  rw [formatConversion, formatConversion]
  cases conversion (skipModifiers s) with
  | none => exact .invalid
  | some x =>
    obtain ⟨type, behind⟩ := x
    cases hap with
    | nil => exact .faulted _
    | @cons arg arg' ap ap' harg hap =>
      dsimp only
      rw [vaArg, vaArg, harg.hasType type]
      by_cases htype : arg'.HasType type = true
      · rw [if_pos htype, if_pos htype]
        cases behind with
        | none =>
          dsimp only
          split_ifs
          · exact .faulted _
          · exact .turn _ hap (hst.add _ _)
        | some rest =>
          dsimp only
          split_ifs
          · exact .turn rest hap (hst.add _ _)
          · exact .turn _ hap (hst.add _ _)
      · rw [if_neg htype, if_neg htype]
        exact .faulted _

theorem sameTurn_formatTurn (c : UInt8) (s : Bytes) (hap : List.Forall₂ SameType ap ap')
    (hst : SameShape st st') :
    SameTurn (formatTurn printf c s ap st) (formatTurn printf c s ap' st') := by
  unfold formatTurn
  by_cases hc : c ≠ 37
  · rw [if_pos hc, if_pos hc]
    refine .turn s hap ?_
    split_ifs
    · exact hst.space
    · exact hst.add _ _
  rw [if_neg hc, if_neg hc]
  cases s with
  | nil => exact .turn _ hap (hst.add _ _)
  | cons d rest =>
    dsimp only
    split_ifs
    · -- `%s`
      cases hap with
      | nil => exact .faulted _
      | cons harg hap =>
        cases harg with
        | cString s s' => exact .turn _ hap (hst.add _ _)
        | buffer | int | long | longLong | double => exact .faulted _
    · -- `%b`
      cases hap with
      | nil => exact .faulted _
      | cons harg hap =>
        cases harg with
        | buffer data data' => exact .turn _ hap (hst.add _ _)
        | cString | int | long | longLong | double => exact .faulted _
    · exact .turn _ hap (hst.add _ _)
    · exact sameTurn_formatConversion _ hap hst

/-- **Shape.** How many arguments a command has depends on its format and the types of what stands
behind the format, and not on the values. -/
theorem formatLoop_shape : ∀ {n : ℕ} {s : Bytes} {ap ap' : List VaArg} {st st' : FormatState},
    List.Forall₂ SameType ap ap' → SameShape st st' →
      (formatLoop printf n s ap st).map (Option.map List.length) =
        (formatLoop printf n s ap' st').map (Option.map List.length)
  | 0, s, ap, ap', st, st', _, hst =>
      congrArg (fun l => Except.ok (some l)) hst.space.2
  | n + 1, [], ap, ap', st, st', _, hst =>
      congrArg (fun l => Except.ok (some l)) hst.space.2
  | n + 1, c :: s, ap, ap', st, st', hap, hst => by
      rw [formatLoop, formatLoop]
      have hturn : SameTurn (formatTurn printf c s ap st) (formatTurn printf c s ap' st') :=
        sameTurn_formatTurn c s hap hst
      generalize formatTurn printf c s ap st = x at hturn ⊢
      generalize formatTurn printf c s ap' st' = x' at hturn ⊢
      cases hturn with
      | faulted fault => rfl
      | invalid => rfl
      | turn s hap hst => exact formatLoop_shape hap hst

end

/-! ### Formats made of pieces -/

/-- A piece of a format, with its argument. -/
inductive Piece
  | text (word : Bytes)
  | space
  | cString (s : Bytes)
  | int (n : ℤ)

namespace Piece

/-- The bytes of a piece in the format. -/
def format : Piece → Bytes
  | text word => word
  | space => [32]
  | cString _ => [37, 115]
  | int _ => [37, 105]

/-- The argument that a piece takes. -/
def args : Piece → List VaArg
  | text _ | space => []
  | cString s => [.cString s]
  | int n => [.int n]

/-- What a piece adds to a command. -/
def apply (st : FormatState) : Piece → FormatState
  | text word => st.add word
  | space => st.space
  | cString s => st.add (cStr s)
  | int n => st.add (decimal n)

/-- A text has a byte, and neither a `'%'` nor a space. -/
def valid : Piece → Bool
  | text word => word ≠ [] ∧ 37 ∉ word ∧ 32 ∉ word
  | space | cString _ | int _ => true

end Piece

section

variable {printf : Bytes → VaArg → Bytes} {s : Bytes} {ap : List VaArg} {st : FormatState}

theorem formatLoop_step {n : ℕ} {c : UInt8} {s s' : Bytes} {ap ap' : List VaArg}
    {st st' : FormatState} (hturn : formatTurn printf c s ap st = .ok (some (s', ap', st'))) :
    formatLoop printf (n + 1) (c :: s) ap st = formatLoop printf n s' ap' st' := by
  rw [formatLoop, hturn]

theorem FormatState.add_add (b b' : Bytes) (st : FormatState) :
    (st.add b).add b' = st.add (b ++ b') := by
  simp [add]

theorem formatLoop_text : ∀ {word : Bytes} {n : ℕ} {st : FormatState}, word ≠ [] → 37 ∉ word →
    32 ∉ word → (word ++ s).length ≤ n →
      ∃ m, s.length ≤ m ∧
        formatLoop printf n (word ++ s) ap st = formatLoop printf m s ap (st.add word)
  | c :: word, n + 1, st, _, hpercent, hspace, hn => by
      obtain ⟨hc, hpercent⟩ := not_or.mp (mt List.mem_cons.mpr hpercent)
      obtain ⟨hc', hspace⟩ := not_or.mp (mt List.mem_cons.mpr hspace)
      have hturn : formatTurn printf c (word ++ s) ap st =
          .ok (some (word ++ s, ap, st.add [c])) := by
        unfold formatTurn
        rw [if_pos (Ne.symm hc), if_neg (Ne.symm hc')]
      rw [List.cons_append, List.length_cons] at hn
      rw [List.cons_append, formatLoop_step hturn]
      cases word with
      | nil => exact ⟨n, by simpa using hn, rfl⟩
      | cons d word =>
        obtain ⟨m, hm, hloop⟩ : ∃ m, s.length ≤ m ∧
            formatLoop printf n (d :: word ++ s) ap (st.add [c]) =
              formatLoop printf m s ap ((st.add [c]).add (d :: word)) :=
          formatLoop_text (List.cons_ne_nil d word) hpercent hspace (by omega)
        refine ⟨m, hm, ?_⟩
        rw [hloop, FormatState.add_add]
        rfl

theorem formatLoop_piece (hprintf : ∀ n, printf (ascii "%i") (.int n) = decimal n) {piece : Piece}
    (hvalid : piece.valid) {n : ℕ} (hn : (piece.format ++ s).length ≤ n) :
    ∃ m, s.length ≤ m ∧ formatLoop printf n (piece.format ++ s) (piece.args ++ ap) st =
      formatLoop printf m s ap (piece.apply st) := by
  cases piece with
  | text word =>
    obtain ⟨hne, hpercent, hspace⟩ : word ≠ [] ∧ 37 ∉ word ∧ 32 ∉ word := of_decide_eq_true hvalid
    exact formatLoop_text hne hpercent hspace hn
  | space =>
    obtain ⟨m, rfl⟩ : ∃ m, n = m + 1 := ⟨n - 1, by simp [Piece.format] at hn; omega⟩
    refine ⟨m, by simpa [Piece.format] using hn, ?_⟩
    exact formatLoop_step rfl
  | cString arg =>
    obtain ⟨m, rfl⟩ : ∃ m, n = m + 1 := ⟨n - 1, by simp [Piece.format] at hn; omega⟩
    refine ⟨m, by simp [Piece.format] at hn; omega, ?_⟩
    exact formatLoop_step rfl
  | int k =>
    obtain ⟨m, rfl⟩ : ∃ m, n = m + 1 := ⟨n - 1, by simp [Piece.format] at hn; omega⟩
    refine ⟨m, by simp [Piece.format] at hn; omega, ?_⟩
    refine formatLoop_step ?_
    have htake : 37 :: (105 :: s).take ((105 :: s).length - s.length) = ascii "%i" := by
      rw [List.length_cons, Nat.add_sub_cancel_left]
      rfl
    have hread : conversion (skipModifiers (105 :: s)) = some (.int, some s) := rfl
    have harg : vaArg .int (.int k :: ap) = .ok (.int k, ap) := rfl
    have hconversion : formatConversion printf (105 :: s) (.int k :: ap) st =
        .ok (some (s, ap, st.add (decimal k))) := by
      rw [formatConversion, hread]
      dsimp only
      rw [harg]
      dsimp only
      rw [htake, hprintf]
      rfl
    exact hconversion

/-- **Formats.** A format of pieces makes a command of what the pieces add up to. -/
theorem formatLoop_pieces (hprintf : ∀ n, printf (ascii "%i") (.int n) = decimal n) :
    ∀ {pieces : List Piece} {n : ℕ} {st : FormatState}, pieces.all Piece.valid →
      (pieces.flatMap Piece.format).length ≤ n →
        formatLoop printf n (pieces.flatMap Piece.format) (pieces.flatMap Piece.args) st =
          .ok (some (pieces.foldl Piece.apply st).space.curargv)
  | [], 0, st, _, _ => rfl
  | [], n + 1, st, _, _ => rfl
  | piece :: pieces, n, st, hvalid, hn => by
      rw [List.flatMap_cons] at hn
      rw [List.all_cons, Bool.and_eq_true] at hvalid
      rw [List.flatMap_cons, List.flatMap_cons, List.foldl_cons]
      obtain ⟨m, hm, hloop⟩ := formatLoop_piece hprintf hvalid.1 hn
      rw [hloop]
      exact formatLoop_pieces hprintf hvalid.2 hm

theorem redisvFormatCommand_pieces (hprintf : ∀ n, printf (ascii "%i") (.int n) = decimal n)
    (pieces : List Piece) (hvalid : pieces.all Piece.valid) :
    redisvFormatCommand printf (pieces.flatMap Piece.format) (pieces.flatMap Piece.args) =
      formatArgv (pieces.foldl Piece.apply ⟨[], false, []⟩).space.curargv := by
  rw [redisvFormatCommand, formatLoop_pieces hprintf hvalid le_rfl]

end

/-! ### The integrity of commands -/

/-- **Integrity.** A server that reads a formatted command finds one array of strings. How many
strings it has depends on the format and the types of the arguments only: no argument, whatever its
bytes, ends an argument of the command or begins another one. -/
theorem format_integrity {printf : Bytes → VaArg → Bytes} {format : Bytes} {ap ap' : List VaArg}
    (hap : List.Forall₂ SameType ap ap') {cmd cmd' : Bytes}
    (hcmd : redisvFormatCommand printf format ap = .ok (some cmd))
    (hcmd' : redisvFormatCommand printf format ap' = .ok (some cmd')) :
    ∃ argv argv' : List Bytes, argv.length = argv'.length ∧
      repliesOf cmd = [.array argv.length (argv.map .string)] ∧
      repliesOf cmd' = [.array argv'.length (argv'.map .string)] := by
  have hshape : (formatLoop printf format.length format ap ⟨[], false, []⟩).map
        (Option.map List.length) =
      (formatLoop printf format.length format ap' ⟨[], false, []⟩).map (Option.map List.length) :=
    formatLoop_shape hap ⟨rfl, rfl⟩
  rw [redisvFormatCommand] at hcmd hcmd'
  split at hcmd
  · simp at hcmd
  · simp at hcmd
  rename_i argv hargv
  split at hcmd'
  · simp at hcmd'
  · simp at hcmd'
  rename_i argv' hargv'
  rw [hargv, hargv'] at hshape
  obtain ⟨rfl, hsize⟩ := of_formatArgv hcmd
  obtain ⟨rfl, hsize'⟩ := of_formatArgv hcmd'
  refine ⟨argv, argv', ?_, repliesOf_protocolBytes hsize, repliesOf_protocolBytes hsize'⟩
  exact Option.some.inj (Except.ok.inj hshape)

/-- `printf` for `%i` alone. -/
def printfInt (_ : Bytes) : VaArg → Bytes
  | .int n => decimal n
  | _ => []

theorem format_integrity_get : ∃ argv argv' : List Bytes, argv.length = argv'.length ∧
    repliesOf (protocolBytes [ascii "GET", ascii "a"]) =
      [.array argv.length (argv.map .string)] ∧
    repliesOf (protocolBytes [ascii "GET", ascii "b SET c"]) =
      [.array argv'.length (argv'.map .string)] := by
  have hget : ∀ key : Bytes, 0 ∉ key → (protocolBytes [ascii "GET", key]).length < 2 ^ 31 →
      redisvFormatCommand printfInt (ascii "GET %s") [.cString key] =
        .ok (some (protocolBytes [ascii "GET", key])) := by
    intro key hkey hsize
    have hprintf : ∀ n, printfInt (ascii "%i") (.int n) = decimal n := fun _ => rfl
    have hpieces := redisvFormatCommand_pieces hprintf
      [.text (ascii "GET"), .space, .cString key] rfl
    refine hpieces.trans ?_
    have hargv : ([.text (ascii "GET"), .space, .cString key].foldl Piece.apply
        ⟨[], false, []⟩).space.curargv = [ascii "GET", key] := by
      simp [Piece.apply, FormatState.space, FormatState.add, cStr_eq_self hkey]
    rw [hargv, formatArgv_eq hsize]
  exact format_integrity (.cons (.cString _ _) .nil) (hget (ascii "a") (by decide) (by decide))
    (hget (ascii "b SET c") (by decide) (by decide))

/-! ### The commands of the proxy -/

/-- The arguments of a command to Redis. -/
def RedisCommand.argv : RedisCommand → List Bytes
  | zadd score member => [ascii "ZADD", ascii "ZSET:PROXIES", decimal score, member]
  | zrem member => [ascii "ZREM", ascii "ZSET:PROXIES", member]

/-- The arguments with which `PingRedis` asks for the members. -/
def zrevrangeArgv : List Bytes := [ascii "ZREVRANGE", ascii "ZSET:PROXIES", ascii "0", ascii "-1"]

section

variable {printf : Bytes → VaArg → Bytes}

/-- `PingRedis` adds the member of the proxy, whatever its guid and its host. -/
theorem format_zadd (hprintf : ∀ n, printf (ascii "%i") (.int n) = decimal n) {s : Proxy}
    (hguid : 0 ∉ s.guid) (hhost : 0 ∉ s.host) (now : ℤ) :
    redisvFormatCommand printf (ascii "ZADD ZSET:PROXIES %i %s#tcp://%s:%i")
        [.int (int32 now), .cString s.guid, .cString s.host, .int s.responderPort] =
      formatArgv (RedisCommand.zadd (int32 now) s.member).argv := by
  have hpieces := redisvFormatCommand_pieces hprintf [.text (ascii "ZADD"), .space,
    .text (ascii "ZSET:PROXIES"), .space, .int (int32 now), .space, .cString s.guid,
    .text (ascii "#tcp://"), .cString s.host, .text (ascii ":"), .int s.responderPort] rfl
  have htext : ascii "#tcp://" = hash :: ascii "tcp://" := by decide
  refine hpieces.trans (congrArg formatArgv ?_)
  simp [Piece.apply, FormatState.space, FormatState.add, RedisCommand.argv, cStr_eq_self hguid,
    cStr_eq_self hhost, Proxy.member, address, htext]

/-- `PingRedis` asks for all members. -/
theorem format_zrevrange (hprintf : ∀ n, printf (ascii "%i") (.int n) = decimal n) :
    redisvFormatCommand printf (ascii "ZREVRANGE ZSET:PROXIES 0 -1") [] =
      formatArgv zrevrangeArgv :=
  redisvFormatCommand_pieces hprintf [.text (ascii "ZREVRANGE"), .space,
    .text (ascii "ZSET:PROXIES"), .space, .text (ascii "0"), .space, .text (ascii "-1")] rfl

/-- A member is deleted, whatever its bytes. -/
theorem format_zrem (hprintf : ∀ n, printf (ascii "%i") (.int n) = decimal n) {member : Bytes}
    (hmember : 0 ∉ member) :
    redisvFormatCommand printf (ascii "ZREM ZSET:PROXIES %s") [.cString member] =
      formatArgv (RedisCommand.zrem member).argv := by
  have hpieces := redisvFormatCommand_pieces hprintf [.text (ascii "ZREM"), .space,
    .text (ascii "ZSET:PROXIES"), .space, .cString member] rfl
  refine hpieces.trans (congrArg formatArgv ?_)
  simp [Piece.apply, FormatState.space, FormatState.add, RedisCommand.argv, cStr_eq_self hmember]

/-- **The commands of the proxy.** A server reads of a `ZADD` the member of the proxy, and of a
`ZREM` the member to delete, whatever their bytes. -/
theorem commands_read (hprintf : ∀ n, printf (ascii "%i") (.int n) = decimal n) {s : Proxy}
    (hguid : 0 ∉ s.guid) (hhost : 0 ∉ s.host) (now : ℤ) {member : Bytes} (hmember : 0 ∉ member)
    (hzadd : (protocolBytes (RedisCommand.zadd (int32 now) s.member).argv).length < 2 ^ 31)
    (hzrem : (protocolBytes (RedisCommand.zrem member).argv).length < 2 ^ 31) :
    (∃ cmd, redisvFormatCommand printf (ascii "ZADD ZSET:PROXIES %i %s#tcp://%s:%i")
        [.int (int32 now), .cString s.guid, .cString s.host, .int s.responderPort] =
          .ok (some cmd) ∧
      repliesOf cmd = [.array 4 ((RedisCommand.zadd (int32 now) s.member).argv.map .string)]) ∧
    ∃ cmd, redisvFormatCommand printf (ascii "ZREM ZSET:PROXIES %s") [.cString member] =
        .ok (some cmd) ∧
      repliesOf cmd = [.array 3 ((RedisCommand.zrem member).argv.map .string)] := by
  rw [format_zadd hprintf hguid hhost, format_zrem hprintf hmember, formatArgv_eq hzadd,
    formatArgv_eq hzrem]
  exact ⟨⟨_, rfl, repliesOf_protocolBytes hzadd⟩, ⟨_, rfl, repliesOf_protocolBytes hzrem⟩⟩

end

theorem commands_read_first :
    (∃ cmd, redisvFormatCommand printfInt (ascii "ZADD ZSET:PROXIES %i %s#tcp://%s:%i")
        [.int (int32 100), .cString (Proxy.init (Config.ofSite .first 7770 7780)).guid,
          .cString (Proxy.init (Config.ofSite .first 7770 7780)).host,
          .int (Proxy.init (Config.ofSite .first 7770 7780)).responderPort] = .ok (some cmd) ∧
      repliesOf cmd = [.array 4 ((RedisCommand.zadd (int32 100)
        (Proxy.init (Config.ofSite .first 7770 7780)).member).argv.map .string)]) ∧
    ∃ cmd, redisvFormatCommand printfInt (ascii "ZREM ZSET:PROXIES %s")
        [.cString (ascii "a b#c")] = .ok (some cmd) ∧
      repliesOf cmd = [.array 3 ((RedisCommand.zrem (ascii "a b#c")).argv.map .string)] :=
  commands_read (fun _ => rfl) (by decide) (by decide) 100 (by decide) (by decide) (by decide)

end EsbProxy
