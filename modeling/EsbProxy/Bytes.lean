import Mathlib

/-!
# Byte strings and machine integers

Strings of the proxy are byte strings. A `std::string` may hold any bytes; wherever the code
hands one on as a C string (`c_str()` into `strcpy`, `strcmp`, `sprintf` or a constructor from
`const char*`) only the bytes before the first NUL count, which `cStr` takes. The clock
`time(NULL)` is an integer, and what the code stores of it in an `int` is `int32` of it.

## Main definitions

* `Bytes`, `cStr`, `ascii`, `decimal`: byte strings and the texts of format strings.
* `split`: the pieces that repeated `std::getline` reads.
* `int32`: conversion to a 32-bit `int`.
* `GUID_SIZE`: the length of a guid.
-/

namespace EsbProxy

/-- A string of bytes. -/
abbrev Bytes := List UInt8

/-- The number of bytes of a guid (`globals.h`). -/
def GUID_SIZE : ℕ := 16

/-- The bytes of an ASCII text. -/
def ascii (text : String) : Bytes := text.toList.map fun c => c.toNat.toUInt8

/-- The text that `%i` and `%lu` print for a number. -/
def decimal (n : ℤ) : Bytes :=
  (if n < 0 then ascii "-" else []) ++ (Nat.toDigits 10 n.natAbs).map fun c => c.toNat.toUInt8

/-- The byte `'#'` between the parts of a member and of a hello payload. -/
def hash : UInt8 := 35

/-- The byte `'\t'` between the topic of a frame and the command. -/
def tab : UInt8 := 9

/-! ### C strings -/

/-- A byte string read as a C string: the bytes before the first NUL. -/
def cStr (s : Bytes) : Bytes := s.takeWhile (· != 0)

theorem cStr_eq_self {s : Bytes} (hs : 0 ∉ s) : cStr s = s := by
  refine List.takeWhile_eq_self_iff.mpr fun b hb => ?_
  simp only [bne_iff_ne, ne_eq]
  rintro rfl
  exact hs hb

theorem zero_notMem_cStr (s : Bytes) : 0 ∉ cStr s := by
  intro h
  simpa using List.mem_takeWhile_imp h

/-! ### Splitting -/

/-- The pieces that `std::getline` with delimiter `delim` reads from the rest of a stream when
`item` has been read of the current one. At the end of the stream a piece without characters is
not read. -/
def getlines (delim : UInt8) : (item : Bytes) → Bytes → List Bytes
  | item, [] => if item = [] then [] else [item]
  | item, b :: rest =>
    if b = delim then item :: getlines delim [] rest else getlines delim (item ++ [b]) rest

/-- `split` of `proxy.cc`: the pieces of `s` between the bytes `delim`. -/
def split (s : Bytes) (delim : UInt8) : List Bytes := getlines delim [] s

theorem getlines_append {delim : UInt8} : ∀ (s item rest : Bytes), delim ∉ s →
    getlines delim item (s ++ delim :: rest) = (item ++ s) :: getlines delim [] rest
  | [], item, rest, _ => by simp [getlines]
  | b :: s, item, rest, h => by
      obtain ⟨hb, hs⟩ := not_or.mp (mt List.mem_cons.mpr h)
      rw [List.cons_append, getlines, if_neg (Ne.symm hb), getlines_append s _ rest hs]
      simp

theorem getlines_of_notMem {delim : UInt8} : ∀ (s item : Bytes), delim ∉ s → item ++ s ≠ [] →
    getlines delim item s = [item ++ s]
  | [], item, _, hne => by
      rw [List.append_nil] at hne ⊢
      rw [getlines, if_neg hne]
  | b :: s, item, h, _ => by
      obtain ⟨hb, hs⟩ := not_or.mp (mt List.mem_cons.mpr h)
      rw [getlines, if_neg (Ne.symm hb), getlines_of_notMem s _ hs (by simp)]
      simp

/-- A piece without the delimiter, followed by it, is read first. -/
theorem split_append {delim : UInt8} {s : Bytes} (rest : Bytes) (hs : delim ∉ s) :
    split (s ++ delim :: rest) delim = s :: split rest delim := by
  rw [split, getlines_append s [] rest hs, List.nil_append, split]

/-- A nonempty string without the delimiter is read in one piece. -/
theorem split_of_notMem {delim : UInt8} {s : Bytes} (hs : delim ∉ s) (hne : s ≠ []) :
    split s delim = [s] := by
  rw [split, getlines_of_notMem s [] hs (by simpa using hne), List.nil_append]

/-- The pieces have no other bytes than the string. -/
theorem mem_of_mem_getlines {delim b : UInt8} : ∀ {s item piece : Bytes},
    piece ∈ getlines delim item s → b ∈ piece → b ∈ item ∨ b ∈ s
  | [], item, piece, hpiece, hb => by
      rw [getlines] at hpiece
      split_ifs at hpiece
      · simp at hpiece
      · rw [List.mem_singleton.mp hpiece] at hb
        exact .inl hb
  | a :: s, item, piece, hpiece, hb => by
      rw [getlines] at hpiece
      split_ifs at hpiece
      · rcases List.mem_cons.mp hpiece with rfl | hpiece
        · exact .inl hb
        · refine .inr (List.mem_cons_of_mem _ ?_)
          simpa using mem_of_mem_getlines hpiece hb
      · rcases mem_of_mem_getlines hpiece hb with hitem | hs
        · rcases List.mem_append.mp hitem with hitem | ha
          · exact .inl hitem
          · exact .inr (List.mem_singleton.mp ha ▸ List.mem_cons_self)
        · exact .inr (List.mem_cons_of_mem _ hs)

theorem mem_of_mem_split {delim b : UInt8} {s piece : Bytes} (hpiece : piece ∈ split s delim)
    (hb : b ∈ piece) : b ∈ s := by
  simpa using mem_of_mem_getlines hpiece hb

/-- The pieces of a C string have no NUL. -/
theorem zero_notMem_of_mem_split {delim : UInt8} {s piece : Bytes}
    (hpiece : piece ∈ split (cStr s) delim) : 0 ∉ piece :=
  fun hb => zero_notMem_cStr s (mem_of_mem_split hpiece hb)

theorem split_eq_nil_iff {delim : UInt8} {s : Bytes} : split s delim = [] ↔ s = [] := by
  constructor
  · intro h
    by_cases hs : delim ∈ s
    · obtain ⟨first, after, rfl, hfirst⟩ := List.eq_append_cons_of_mem hs
      rw [split_append after hfirst] at h
      simp at h
    · by_contra hne
      rw [split_of_notMem hs hne] at h
      simp at h
  · rintro rfl
    rfl

/-- A string of two pieces or more has a first piece, the delimiter, and the other pieces. -/
theorem exists_of_split_eq_cons_cons {delim : UInt8} {s first second : Bytes} {rest : List Bytes}
    (h : split s delim = first :: second :: rest) :
    ∃ after, s = first ++ delim :: after ∧ delim ∉ first ∧ split after delim = second :: rest := by
  by_cases hs : delim ∈ s
  · obtain ⟨before, after, rfl, hbefore⟩ := List.eq_append_cons_of_mem hs
    rw [split_append after hbefore] at h
    obtain ⟨rfl, hafter⟩ := List.cons.inj h
    exact ⟨after, rfl, hbefore, hafter⟩
  · have hne : s ≠ [] := by
      rintro rfl
      simp [split, getlines] at h
    rw [split_of_notMem hs hne] at h
    simp at h

/-- A string has two pieces or more when something stands behind its first delimiter. -/
theorem two_le_length_split_iff {delim : UInt8} {s : Bytes} :
    2 ≤ (split s delim).length ↔
      ∃ first after, s = first ++ delim :: after ∧ delim ∉ first ∧ after ≠ [] := by
  constructor
  · intro hlength
    match h : split s delim with
    | [] => simp [h] at hlength
    | [_] => simp [h] at hlength
    | first :: second :: rest =>
      obtain ⟨after, hs, hfirst, hafter⟩ := exists_of_split_eq_cons_cons h
      refine ⟨first, after, hs, hfirst, ?_⟩
      rintro rfl
      simp [split, getlines] at hafter
  · rintro ⟨first, after, rfl, hfirst, hafter⟩
    have hpos : 0 < (split after delim).length :=
      List.length_pos_of_ne_nil (mt split_eq_nil_iff.mp hafter)
    rw [split_append after hfirst, List.length_cons]
    exact Nat.succ_le_succ hpos

/-! ### Printed numbers -/

/-- The byte of a decimal digit is between those of `'0'` and `'9'`. -/
theorem toNat_of_isDigit {c : Char} (hc : c.isDigit) :
    c.toNat.toUInt8.toNat = c.toNat ∧ 48 ≤ c.toNat ∧ c.toNat ≤ 57 := by
  obtain ⟨hlower, hupper⟩ : 48 ≤ c.toNat ∧ c.toNat ≤ 57 := by
    simp only [Char.isDigit, Bool.and_eq_true, decide_eq_true_eq] at hc
    exact hc
  refine ⟨?_, hlower, hupper⟩
  rw [Nat.toUInt8, UInt8.toNat_ofNat']
  omega

/-- A printed number has signs and digits only. -/
theorem notMem_decimal {b : UInt8} (n : ℤ) (hsign : b ≠ 45) (hdigit : b < 48 ∨ 57 < b) :
    b ∉ decimal n := by
  rw [decimal, List.mem_append]
  rintro (hb | hb)
  · split_ifs at hb
    · have hminus : ascii "-" = [45] := by decide
      rw [hminus, List.mem_singleton] at hb
      exact hsign hb
    · simp at hb
  · obtain ⟨c, hc, rfl⟩ := List.mem_map.mp hb
    obtain ⟨htoNat, hlower, hupper⟩ :=
      toNat_of_isDigit (Nat.isDigit_of_mem_toDigits (by omega) le_rfl hc)
    have h48 : (48 : UInt8).toNat = 48 := rfl
    have h57 : (57 : UInt8).toNat = 57 := rfl
    rw [UInt8.lt_iff_toNat_lt, UInt8.lt_iff_toNat_lt, htoNat] at hdigit
    omega

/-! ### Machine integers -/

/-- Conversion of an integer to a 32-bit `int`. -/
def int32 (n : ℤ) : ℤ := (n + 2 ^ 31) % 2 ^ 32 - 2 ^ 31

theorem int32_eq_self {n : ℤ} (lower : -2 ^ 31 ≤ n) (upper : n < 2 ^ 31) : int32 n = n := by
  unfold int32
  omega

end EsbProxy
