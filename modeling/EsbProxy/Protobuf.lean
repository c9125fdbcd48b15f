import EsbProxy.Command
import EsbProxy.Foundation.Wire

/-!
# Commands as bytes

The protocol buffers library turns commands into bytes and back. What the proxy relies on is a
`Codec`: parsing the bytes of a serialized command gives the command back, and succeeds exactly
when no required field is missing. A failed parse leaves the fields set that were read before.

The wire format of `command.proto` is a codec. Unknown fields are skipped, and the last one of
several values of an optional field counts. The limits of the library on sizes are left out.

## Main definitions

* `RegistryEntry.IsInitialized`, `Command.IsInitialized`: no required field is missing.
* `Codec`: what is assumed of the library.
* `Command.serialize`, `Command.parse`: the wire format of `command.proto`.
* `protobuf`: the codec they make up.

## Main results

* `Command.parse_serialize`: the round trip.
-/

namespace EsbProxy

open Foundation.Wire

/-- All fields of an entry that `command.proto` marks as required are set. -/
def RegistryEntry.IsInitialized (e : RegistryEntry) : Prop :=
  e.type?.isSome ∧ e.identifier?.isSome ∧ e.methodGuid?.isSome ∧ e.proxyGuid?.isSome

instance (e : RegistryEntry) : Decidable e.IsInitialized :=
  inferInstanceAs (Decidable (_ ∧ _ ∧ _ ∧ _))

namespace Command

/-- All fields of a command that `command.proto` marks as required are set. -/
def IsInitialized (c : Command) : Prop :=
  c.cmd?.isSome ∧ c.sourceProxyGuid?.isSome ∧ c.payload?.isSome ∧
    ∀ e ∈ c.regEntry, e.IsInitialized

instance (c : Command) : Decidable c.IsInitialized :=
  inferInstanceAs (Decidable (_ ∧ _ ∧ _ ∧ ∀ e ∈ c.regEntry, e.IsInitialized))

/-- The values of a command are those of its types: `recursion` is a 32-bit `int`. -/
def Fits (c : Command) : Prop := ∀ r ∈ c.recursion?, int32 r = r

end Command

/-- **What is assumed of the protocol buffers library.** `parse` is `ParseFromArray` with the
command that it leaves behind, whether it succeeds or not. -/
structure Codec where
  serialize : Command → Bytes
  parse : Bytes → Command × Bool
  parse_serialize : ∀ c : Command, c.Fits → parse (serialize c) = (c, decide c.IsInitialized)

/-! ### The wire format of registry entries -/

/-- The type with a number of the enumeration. -/
def RegistryEntryType.ofNumber : ℕ → Option RegistryEntryType
  | 1 => some .invokeMethod
  | _ => none

/-- The bytes that a value holds. -/
def stringOf : Value → Option Bytes
  | .bytes b => some b
  | _ => none

/-- The type of an entry that a value holds. -/
def entryTypeOf : Value → Option RegistryEntryType
  | .varint n => RegistryEntryType.ofNumber (n % 2 ^ 32)
  | _ => none

namespace RegistryEntry

def fields (e : RegistryEntry) : List Field :=
  optionalField 1 (fun _ => .varint 1) e.type? ++ optionalField 2 .bytes e.identifier? ++
    optionalField 3 .bytes e.methodGuid? ++ optionalField 4 .bytes e.proxyGuid?

def ofFields (fields : List Field) : RegistryEntry where
  type? := valueOf 1 entryTypeOf fields
  identifier? := valueOf 2 stringOf fields
  methodGuid? := valueOf 3 stringOf fields
  proxyGuid? := valueOf 4 stringOf fields

def serialize (e : RegistryEntry) : Bytes := putFields e.fields

/-- The entry in a byte string, and whether the string is well formed. -/
def parse (b : Bytes) : RegistryEntry × Bool :=
  let (fields, ok) := getFields b
  (ofFields fields, ok)

end RegistryEntry

/-! ### The wire format of commands -/

/-- The command with a number of the enumeration. -/
def Cmd.ofNumber : ℕ → Option Cmd
  | 1 => some .error
  | 2 => some .response
  | 3 => some .errorResponse
  | 4 => some .nodeHello
  | 5 => some .proxyHello
  | 6 => some .ping
  | 7 => some .pong
  | 8 => some .invoke
  | 9 => some .registerInvoke
  | 10 => some .registerInvokeOk
  | 11 => some .registryExchangeRequest
  | 12 => some .registryExchangeResponse
  | 13 => some .publish
  | 14 => some .subscribe
  | _ => none

/-- The command number that a value holds. -/
def cmdOf : Value → Option Cmd
  | .varint n => Cmd.ofNumber (n % 2 ^ 32)
  | _ => none

/-- An `int` as a number of 64 bits. -/
def signExtended (r : ℤ) : ℕ := (r % 2 ^ 64).toNat

/-- The 32-bit `int` that a value holds. -/
def int32Of : Value → Option ℤ
  | .varint n => some (int32 n)
  | _ => none

/-- The entry that a value holds, and whether its bytes are well formed. -/
def entryOf : Value → Option (RegistryEntry × Bool)
  | .bytes b => some (RegistryEntry.parse b)
  | _ => none

namespace Command

def fields (c : Command) : List Field :=
  optionalField 1 (fun cmd => .varint cmd.number) c.cmd? ++
    optionalField 2 .bytes c.sourceProxyGuid? ++ optionalField 3 .bytes c.payload? ++
    optionalField 4 .bytes c.targetProxyGuid? ++ optionalField 5 .bytes c.identifier? ++
    optionalField 6 .bytes c.guidFrom? ++ optionalField 7 .bytes c.guidTo? ++
    optionalField 8 (fun r => .varint (signExtended r)) c.recursion? ++
    repeatedField 11 (fun e => .bytes e.serialize) c.regEntry

def ofFields (fields : List Field) : Command where
  cmd? := valueOf 1 cmdOf fields
  sourceProxyGuid? := valueOf 2 stringOf fields
  payload? := valueOf 3 stringOf fields
  targetProxyGuid? := valueOf 4 stringOf fields
  identifier? := valueOf 5 stringOf fields
  guidFrom? := valueOf 6 stringOf fields
  guidTo? := valueOf 7 stringOf fields
  recursion? := valueOf 8 int32Of fields
  regEntry := (valuesOf 11 entryOf fields).map Prod.fst

/-- A field with the number of the registry entries whose bytes are malformed. -/
def isMalformed (f : Field) : Bool := (valuesOf 11 entryOf [f]).any fun e => !e.2

def serialize (c : Command) : Bytes := putFields c.fields

/-- The command in a byte string, read up to the first malformed entry, and whether the parse
succeeded. -/
def parse (b : Bytes) : Command × Bool :=
  let (fields, ok) := getFields b
  let c := ofFields (fields.takeWhile (!isMalformed ·) ++ (fields.find? isMalformed).toList)
  (c, ok && !fields.any isMalformed && decide c.IsInitialized)

end Command

/-! ### The round trip -/

theorem Cmd.ofNumber_number (cmd : Cmd) : Cmd.ofNumber (cmd.number % 2 ^ 32) = some cmd := by
  cases cmd <;> rfl

theorem valuesOf_stringOf (number : ℕ) (s : Option Bytes) :
    valuesOf number stringOf (optionalField number .bytes s) = s.toList :=
  valuesOf_optionalField (fun b : Bytes => show stringOf (.bytes b) = some b from rfl) s

theorem RegistryEntry.wellFormed_fields (e : RegistryEntry) : ∀ f ∈ e.fields, f.WellFormed := by
  intro f hf
  simp only [fields, List.mem_append] at hf
  rcases hf with ((hf | hf) | hf) | hf
  all_goals exact wellFormed_of_mem_optionalField hf (by decide) fun _ => trivial

/-- **Round trip of an entry.** -/
theorem RegistryEntry.parse_serialize (e : RegistryEntry) :
    RegistryEntry.parse e.serialize = (e, true) := by
  have htype : valuesOf 1 entryTypeOf (optionalField 1 (fun _ => .varint 1) e.type?) =
      e.type?.toList :=
    valuesOf_optionalField (fun t => by cases t; rfl) _
  rw [parse, serialize, getFields_putFields e.wellFormed_fields]
  simp [ofFields, fields, valueOf, htype, valuesOf_stringOf, valuesOf_optionalField_of_ne]

theorem Command.wellFormed_fields (c : Command) : ∀ f ∈ c.fields, f.WellFormed := by
  intro f hf
  simp only [fields, List.mem_append] at hf
  rcases hf with (((((((hf | hf) | hf) | hf) | hf) | hf) | hf) | hf) | hf
  case inr => exact wellFormed_of_mem_repeatedField hf (by decide) fun _ => trivial
  all_goals exact wellFormed_of_mem_optionalField hf (by decide) fun _ => trivial

/-- The entries of a command are written and read. -/
theorem valuesOf_entryOf (entries : List RegistryEntry) :
    valuesOf 11 entryOf (repeatedField 11 (fun e => .bytes e.serialize) entries) =
      entries.map fun e => (e, true) :=
  valuesOf_repeatedField
    (fun e : RegistryEntry => show entryOf (.bytes e.serialize) = some (e, true) from
      congrArg some e.parse_serialize) entries

/-- The fields of a command make it up. -/
theorem Command.ofFields_fields {c : Command} (hfits : c.Fits) : ofFields c.fields = c := by
  have hcmd : valuesOf 1 cmdOf (optionalField 1 (fun cmd => .varint cmd.number) c.cmd?) =
      c.cmd?.toList :=
    valuesOf_optionalField Cmd.ofNumber_number _
  have hrecursion : valuesOf 8 int32Of
      (optionalField 8 (fun r => .varint (signExtended r)) c.recursion?) = c.recursion?.toList := by
    cases hr : c.recursion? with
    | none => rfl
    | some r =>
      have hvalue : int32 (signExtended r) = r := by
        have hfit : int32 r = r := hfits r hr
        unfold int32 at hfit ⊢
        unfold signExtended
        omega
      simpa [optionalField, valuesOf, int32Of] using hvalue
  have hentries := valuesOf_entryOf c.regEntry
  simp [ofFields, fields, valueOf, hcmd, hrecursion, hentries, valuesOf_stringOf,
    valuesOf_optionalField_of_ne, valuesOf_repeatedField_of_ne, Function.comp_def]

theorem Command.isMalformed_eq_false {c : Command} {f : Field} (hf : f ∈ c.fields) :
    isMalformed f = false := by
  simp only [fields, List.mem_append] at hf
  rcases hf with hf | hf
  · have hnumber : f.number ≠ 11 := by
      rcases hf with ((((((hf | hf) | hf) | hf) | hf) | hf) | hf) | hf
      all_goals
        rw [number_of_mem_optionalField hf]
        decide
    rw [isMalformed, valuesOf_of_ne (by simpa using hnumber), List.any_nil]
  · obtain ⟨e, -, rfl⟩ := List.mem_map.mp hf
    simp [isMalformed, valuesOf, entryOf, RegistryEntry.parse_serialize]

/-- **Round trip of a command.** -/
theorem Command.parse_serialize (c : Command) (hfits : c.Fits) :
    Command.parse c.serialize = (c, decide c.IsInitialized) := by
  have hgood : ∀ f ∈ c.fields, isMalformed f = false := fun f hf => isMalformed_eq_false hf
  have hall : c.fields.takeWhile (!isMalformed ·) = c.fields :=
    List.takeWhile_eq_self_iff.mpr fun f hf => by rw [hgood f hf, Bool.not_false]
  have hnone : c.fields.find? isMalformed = none :=
    List.find?_eq_none.mpr fun f hf => by simp [hgood f hf]
  have hany : c.fields.any isMalformed = false :=
    List.any_eq_false.mpr fun f hf => by simp [hgood f hf]
  rw [parse, serialize, getFields_putFields c.wellFormed_fields]
  simp only [hall, hnone, hany, Option.toList_none, List.append_nil, ofFields_fields hfits,
    Bool.not_false, Bool.true_and]

/-- The wire format of `command.proto`. -/
def protobuf : Codec where
  serialize := Command.serialize
  parse := Command.parse
  parse_serialize := Command.parse_serialize

end EsbProxy
