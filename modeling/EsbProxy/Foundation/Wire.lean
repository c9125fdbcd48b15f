import Mathlib

/-!
# The wire format of tagged fields

A message on the wire is a chain of fields. Each field starts with a tag, a variable-length
integer that holds the number of the field and the type of its value: another variable-length
integer, a string of bytes behind its length, or four or eight bytes. A variable-length integer
has seven bits in each byte, the lowest first, and the highest bit of each byte but the last is
set.

Reading a chain returns the fields that were read before the first malformed one, and whether
there was none. Numbers and lengths are unbounded here.

## Main definitions

* `putVarint`, `getVarint`: variable-length integers.
* `Field`, `Field.put`, `getField`: one field.
* `putFields`, `getFields`: chains of fields.
* `optionalField`, `repeatedField`, `valueOf`, `valuesOf`: the values that fields hold, by number.

## Main results

* `getVarint_putVarint`, `getField_put`, `getFields_putFields`: what was written is read.
* `valuesOf_optionalField`, `valuesOf_repeatedField`: so are the values of fields.
-/

namespace Foundation

namespace Wire

/-! ### Variable-length integers -/

/-- A number in at most `fuel + 1` bytes. -/
def putVarintUpTo : (fuel : ℕ) → ℕ → List UInt8
  | 0, n => [n.toUInt8]
  | fuel + 1, n =>
    if n < 128 then [n.toUInt8] else (n % 128 + 128).toUInt8 :: putVarintUpTo fuel (n / 128)

/-- The bytes of a number. A number has no more bytes than units. -/
def putVarint (n : ℕ) : List UInt8 := putVarintUpTo n n

/-- The number at the start of a byte string, and the bytes behind it; `none` when the string
ends inside the number. -/
def getVarint : List UInt8 → Option (ℕ × List UInt8)
  | [] => none
  | b :: rest =>
    if b.toNat < 128 then some (b.toNat, rest)
    else
      match getVarint rest with
      | some (n, rest') => some (b.toNat - 128 + 128 * n, rest')
      | none => none

theorem toNat_toUInt8 {n : ℕ} (hn : n < 256) : n.toUInt8.toNat = n := by
  simp [Nat.mod_eq_of_lt hn]

private theorem getVarint_putVarintUpTo (rest : List UInt8) : ∀ {fuel n : ℕ}, n < 128 + fuel →
    getVarint (putVarintUpTo fuel n ++ rest) = some (n, rest)
  | 0, n, hn => by
      have hbyte : n.toUInt8.toNat = n := toNat_toUInt8 (by omega)
      rw [putVarintUpTo, List.singleton_append, getVarint, hbyte, if_pos (by omega)]
  | fuel + 1, n, hn => by
      rw [putVarintUpTo]
      split_ifs with hsmall
      · have hbyte : n.toUInt8.toNat = n := toNat_toUInt8 (by omega)
        rw [List.singleton_append, getVarint, hbyte, if_pos hsmall]
      · have hbyte : (n % 128 + 128).toUInt8.toNat = n % 128 + 128 := toNat_toUInt8 (by omega)
        have hrest := getVarint_putVarintUpTo rest (show n / 128 < 128 + fuel by omega)
        rw [List.cons_append, getVarint, hbyte, if_neg (by omega), hrest]
        have hvalue : n % 128 + 128 - 128 + 128 * (n / 128) = n := by omega
        simp only [hvalue]

/-- A written number is read, and what stands behind it is left. -/
theorem getVarint_putVarint (n : ℕ) (rest : List UInt8) :
    getVarint (putVarint n ++ rest) = some (n, rest) :=
  getVarint_putVarintUpTo rest (by omega)

theorem putVarint_ne_nil (n : ℕ) : putVarint n ≠ [] := by
  rw [putVarint]
  cases n with
  | zero => simp [putVarintUpTo]
  | succ n =>
    rw [putVarintUpTo]
    split_ifs <;> simp

/-! ### Fields -/

/-- The value of a field. -/
inductive Value
  | varint (n : ℕ)
  | fixed64 (bytes : List UInt8)
  | bytes (bytes : List UInt8)
  | fixed32 (bytes : List UInt8)
  deriving DecidableEq

/-- A field of a message. -/
structure Field where
  number : ℕ
  value : Value
  deriving DecidableEq

/-- The number for the type of a value in a tag. -/
def Value.wireType : Value → ℕ
  | varint _ => 0
  | fixed64 _ => 1
  | bytes _ => 2
  | fixed32 _ => 5

/-- The bytes of a value. -/
def Value.put : Value → List UInt8
  | varint n => putVarint n
  | fixed64 b => b
  | bytes b => putVarint b.length ++ b
  | fixed32 b => b

/-- The first `size` bytes, and those behind them. -/
def getBytes (size : ℕ) (b : List UInt8) : Option (List UInt8 × List UInt8) :=
  if size ≤ b.length then some (b.take size, b.drop size) else none

/-- The value of a type at the start of a byte string, and the bytes behind it. -/
def getValue (wireType : ℕ) (b : List UInt8) : Option (Value × List UInt8) :=
  match wireType with
  | 0 => (getVarint b).map fun r => (.varint r.1, r.2)
  | 1 => (getBytes 8 b).map fun r => (.fixed64 r.1, r.2)
  | 2 =>
    match getVarint b with
    | some (size, rest) => (getBytes size rest).map fun r => (.bytes r.1, r.2)
    | none => none
  | 5 => (getBytes 4 b).map fun r => (.fixed32 r.1, r.2)
  | _ => none

/-- The bytes of a field: the tag and the value. -/
def Field.put (f : Field) : List UInt8 :=
  putVarint (8 * f.number + f.value.wireType) ++ f.value.put

/-- The field at the start of a byte string, and the bytes behind it; `none` when no well-formed
field starts there. -/
def getField (b : List UInt8) : Option (Field × List UInt8) :=
  match getVarint b with
  | some (tag, rest) =>
    if tag / 8 = 0 then none
    else (getValue (tag % 8) rest).map fun r => (⟨tag / 8, r.1⟩, r.2)
  | none => none

/-- Fixed values have their size. -/
def Value.Sized : Value → Prop
  | fixed64 b => b.length = 8
  | fixed32 b => b.length = 4
  | _ => True

/-- A field that can be written: numbers start at 1, and fixed values have their size. -/
def Field.WellFormed (f : Field) : Prop := f.number ≠ 0 ∧ f.value.Sized

theorem getBytes_append (b rest : List UInt8) :
    getBytes b.length (b ++ rest) = some (b, rest) := by
  rw [getBytes, if_pos (by simp), List.take_left, List.drop_left]

/-- A written field is read, and what stands behind it is left. -/
theorem getField_put {f : Field} (hf : f.WellFormed) (rest : List UInt8) :
    getField (f.put ++ rest) = some (f, rest) := by
  obtain ⟨number, value⟩ := f
  obtain ⟨hnumber, hsize⟩ := hf
  have htype : value.wireType < 8 := by cases value <;> simp [Value.wireType]
  have hdiv : (8 * number + value.wireType) / 8 = number := by omega
  have hmod : (8 * number + value.wireType) % 8 = value.wireType := by omega
  have hvalue : getValue value.wireType (value.put ++ rest) = some (value, rest) := by
    cases value with
    | varint n => simp [Value.wireType, Value.put, getValue, getVarint_putVarint]
    | fixed64 b =>
      have hread := getBytes_append b rest
      rw [show b.length = 8 from hsize] at hread
      simp [Value.wireType, Value.put, getValue, hread]
    | bytes b =>
      simp [Value.wireType, Value.put, getValue, getVarint_putVarint, getBytes_append]
    | fixed32 b =>
      have hread := getBytes_append b rest
      rw [show b.length = 4 from hsize] at hread
      simp [Value.wireType, Value.put, getValue, hread]
  rw [getField, Field.put, List.append_assoc, getVarint_putVarint]
  simp only [hdiv, hmod, if_neg hnumber, hvalue, Option.map_some]

theorem Field.put_ne_nil (f : Field) : f.put ≠ [] := by
  rw [Field.put]
  exact fun h => putVarint_ne_nil _ (List.append_eq_nil_iff.mp h).1

/-! ### Chains of fields -/

/-- The bytes of a chain of fields. -/
def putFields (fields : List Field) : List UInt8 := fields.flatMap Field.put

/-- The fields of a chain, at most `fuel` of them. -/
def getFieldsUpTo : (fuel : ℕ) → List UInt8 → List Field × Bool
  | _, [] => ([], true)
  | 0, _ :: _ => ([], false)
  | fuel + 1, b :: bs =>
    match getField (b :: bs) with
    | some (f, rest) =>
      let (fields, ok) := getFieldsUpTo fuel rest
      (f :: fields, ok)
    | none => ([], false)

/-- The fields of a chain before the first malformed one, and whether there is none. A chain has
no more fields than bytes. -/
def getFields (b : List UInt8) : List Field × Bool := getFieldsUpTo b.length b

private theorem getFieldsUpTo_putFields : ∀ {fields : List Field} {fuel : ℕ},
    (∀ f ∈ fields, f.WellFormed) → (putFields fields).length ≤ fuel →
      getFieldsUpTo fuel (putFields fields) = (fields, true)
  | [], 0, _, _ => rfl
  | [], fuel + 1, _, _ => rfl
  | f :: fields, fuel, hfields, hfuel => by
      have hput : putFields (f :: fields) = f.put ++ putFields fields := List.flatMap_cons ..
      obtain ⟨b, bs, hcons⟩ := List.exists_cons_of_ne_nil f.put_ne_nil
      rw [hput, hcons, List.cons_append, List.length_cons, List.length_append] at hfuel
      obtain ⟨fuel, rfl⟩ : ∃ fuel', fuel = fuel' + 1 := ⟨fuel - 1, by omega⟩
      have hread := getField_put (hfields f List.mem_cons_self) (putFields fields)
      have hrest := getFieldsUpTo_putFields (fun g hg => hfields g (List.mem_cons_of_mem _ hg))
        (show (putFields fields).length ≤ fuel by omega)
      rw [hcons, List.cons_append] at hread
      rw [hput, hcons, List.cons_append, getFieldsUpTo, hread]
      simp only [hrest]

/-- **Round trip.** The fields of a written chain are read, up to its end. -/
theorem getFields_putFields {fields : List Field} (hfields : ∀ f ∈ fields, f.WellFormed) :
    getFields (putFields fields) = (fields, true) :=
  getFieldsUpTo_putFields hfields le_rfl

/-! ### Fields by number -/

section ByNumber

variable {α β : Type*} {number number' : ℕ} {decode : Value → Option α}

/-- The field of a value that may be unset. -/
def optionalField (number : ℕ) (encode : α → Value) : Option α → List Field
  | some a => [⟨number, encode a⟩]
  | none => []

/-- The field of each value of a list. -/
def repeatedField (number : ℕ) (encode : α → Value) (values : List α) : List Field :=
  values.map fun a => ⟨number, encode a⟩

/-- The values of the fields with a number. What cannot be decoded is skipped. -/
def valuesOf (number : ℕ) (decode : Value → Option α) (fields : List Field) : List α :=
  fields.filterMap fun f => if f.number = number then decode f.value else none

/-- The value of an optional field: the last one counts. -/
def valueOf (number : ℕ) (decode : Value → Option α) (fields : List Field) : Option α :=
  (valuesOf number decode fields).getLast?

/-- Of one value, if there is one, it is the last. -/
@[simp] theorem getLast?_toList (a : Option α) : a.toList.getLast? = a := by
  cases a <;> rfl

@[simp] theorem valuesOf_append (fields fields' : List Field) :
    valuesOf number decode (fields ++ fields') =
      valuesOf number decode fields ++ valuesOf number decode fields' :=
  List.filterMap_append ..

/-- Fields with other numbers do not count. -/
theorem valuesOf_of_ne {fields : List Field} (h : ∀ f ∈ fields, f.number ≠ number) :
    valuesOf number decode fields = [] :=
  List.filterMap_eq_nil_iff.mpr fun f hf => if_neg (h f hf)

theorem number_of_mem_optionalField {encode : α → Value} {a : Option α} {f : Field}
    (hf : f ∈ optionalField number encode a) : f.number = number := by
  cases a with
  | none => simp [optionalField] at hf
  | some a => rw [List.mem_singleton.mp hf]

theorem number_of_mem_repeatedField {encode : α → Value} {values : List α} {f : Field}
    (hf : f ∈ repeatedField number encode values) : f.number = number := by
  obtain ⟨a, -, rfl⟩ := List.mem_map.mp hf
  rfl

theorem wellFormed_of_mem_optionalField {encode : α → Value} {a : Option α} {f : Field}
    (hf : f ∈ optionalField number encode a) (hnumber : number ≠ 0)
    (hencode : ∀ a, (encode a).Sized) : f.WellFormed := by
  cases a with
  | none => simp [optionalField] at hf
  | some a =>
    rw [List.mem_singleton.mp hf]
    exact ⟨hnumber, hencode a⟩

theorem wellFormed_of_mem_repeatedField {encode : α → Value} {values : List α} {f : Field}
    (hf : f ∈ repeatedField number encode values) (hnumber : number ≠ 0)
    (hencode : ∀ a, (encode a).Sized) : f.WellFormed := by
  obtain ⟨a, -, rfl⟩ := List.mem_map.mp hf
  exact ⟨hnumber, hencode a⟩

/-- A written optional value is the only one with its number. -/
theorem valuesOf_optionalField {encode : α → Value} (h : ∀ a, decode (encode a) = some a)
    (a : Option α) : valuesOf number decode (optionalField number encode a) = a.toList := by
  cases a with
  | none => rfl
  | some a => simp [optionalField, valuesOf, h]

theorem valuesOf_optionalField_of_ne {encode : β → Value} (h : number' ≠ number)
    (b : Option β) : valuesOf number decode (optionalField number' encode b) = [] :=
  valuesOf_of_ne fun _ hf => (number_of_mem_optionalField hf).symm ▸ h

/-- The written values of a repeated field are those with its number. -/
theorem valuesOf_repeatedField {encode : β → Value} {g : β → α}
    (h : ∀ b, decode (encode b) = some (g b)) (values : List β) :
    valuesOf number decode (repeatedField number encode values) = values.map g := by
  induction values with
  | nil => rfl
  | cons b values ih =>
    rw [repeatedField, List.map_cons, valuesOf, List.filterMap_cons_some (b := g b) (by simp [h]),
      List.map_cons]
    exact congrArg (g b :: ·) ih

theorem valuesOf_repeatedField_of_ne {encode : β → Value} (h : number' ≠ number)
    (values : List β) : valuesOf number decode (repeatedField number' encode values) = [] :=
  valuesOf_of_ne fun _ hf => (number_of_mem_repeatedField hf).symm ▸ h

end ByNumber

end Wire

end Foundation
