import EsbProxy.BindLoops
import EsbProxy.Discovery

/-!
# The construction of a proxy

The constructor generates a guid of `GUID_SIZE` digits into an array of one byte more. It writes no
NUL behind the digits, and the object was not cleared, so that byte is what the memory held before.
As a filter on a socket the guid is the first `GUID_SIZE` bytes of the array; everywhere else, in
messages, in Redis and in comparisons, it is the C string that starts there. The ports come from the
bind loops of the responder and the publisher.

## Main definitions

* `generateGuid`: the generator.
* `GuidLaw`: what the guid should be.
* `Config.generate`: the configuration that a generated guid makes.
* `StartsOn`: the ports of the constructor.

## Main results

* `guidLaw_iff`: the guid is what it should be exactly when the array ended with a NUL before.
-/

namespace EsbProxy

open Foundation

/-! ### The generator -/

/-- The memory of `char guid[GUID_SIZE+1]`. -/
abbrev GuidArray := Vector UInt8 (GUID_SIZE + 1)

/-- The character that `GenerateGuid` makes of a random number. -/
def guidDigit (rand : ℕ) : UInt8 :=
  let p : UInt8 := (rand % 16).toUInt8
  if p < 10 then p + 48 else p + 55

/-- `GenerateGuid`: write `len` digits to the start of the array. -/
def generateGuid (rand : ℕ → ℕ) (len : ℕ) (guidStr : GuidArray) : GuidArray :=
  (List.range len).foldl (fun guidStr i => guidStr.setIfInBounds i (guidDigit (rand i))) guidStr

/-- An upper-case hexadecimal digit. -/
def IsHexDigit (b : UInt8) : Prop := (48 ≤ b ∧ b ≤ 57) ∨ (65 ≤ b ∧ b ≤ 70)

theorem isHexDigit_guidDigit (rand : ℕ) : IsHexDigit (guidDigit rand) := by
  have hall : ∀ n < 16, (48 ≤ guidDigit n ∧ guidDigit n ≤ 57) ∨
      (65 ≤ guidDigit n ∧ guidDigit n ≤ 70) := by decide
  have hmod : guidDigit rand = guidDigit (rand % 16) := by rw [guidDigit, guidDigit, Nat.mod_mod]
  rw [IsHexDigit, hmod]
  exact hall _ (Nat.mod_lt _ (by omega))

theorem IsHexDigit.ne {b c : UInt8} (hb : IsHexDigit b) (hc : c < 48) : b ≠ c := by
  rintro rfl
  rw [UInt8.lt_iff_toNat_lt] at hc
  simp only [IsHexDigit, UInt8.le_iff_toNat_le] at hb
  have h48 : (48 : UInt8).toNat = 48 := rfl
  have h65 : (65 : UInt8).toNat = 65 := rfl
  omega

/-- **The generated digits.** The first `len` bytes are digits, the others stay. -/
theorem getElem_generateGuid (rand : ℕ → ℕ) (guidStr : GuidArray) (len : ℕ) {i : ℕ}
    (hi : i < GUID_SIZE + 1) :
    (generateGuid rand len guidStr)[i] = if i < len then guidDigit (rand i) else guidStr[i] := by
  induction len with
  | zero => rfl
  | succ len ih =>
    rw [generateGuid, List.range_succ, List.foldl_append, ← generateGuid, List.foldl_cons,
      List.foldl_nil, Vector.getElem_setIfInBounds]
    split_ifs with hlast hlt hlt
    · rw [hlast]
    · omega
    · rw [ih, if_pos (by omega)]
    · rw [ih, if_neg (by omega)]

variable (rand : ℕ → ℕ) (memory : GuidArray)

/-- The digits of a guid. -/
def guidDigits : Bytes := (List.range GUID_SIZE).map fun i => guidDigit (rand i)

theorem toList_generateGuid :
    (generateGuid rand GUID_SIZE memory).toList = guidDigits rand ++ [memory[GUID_SIZE]] := by
  refine List.ext_getElem (by simp [guidDigits]) fun i hi _ => ?_
  have hlength : i < GUID_SIZE + 1 := by simpa using hi
  rw [Vector.getElem_toList, getElem_generateGuid rand memory GUID_SIZE hlength]
  split_ifs with hlt
  · rw [List.getElem_append_left (by simpa [guidDigits] using hlt)]
    simp [guidDigits]
  · obtain rfl : i = GUID_SIZE := by omega
    simp [guidDigits]

theorem take_generateGuid :
    (generateGuid rand GUID_SIZE memory).toList.take GUID_SIZE = guidDigits rand := by
  rw [toList_generateGuid]
  exact List.take_left' (by simp [guidDigits])

theorem isHexDigit_of_mem {b : UInt8} (hb : b ∈ guidDigits rand) : IsHexDigit b := by
  obtain ⟨i, -, rfl⟩ := List.mem_map.mp hb
  exact isHexDigit_guidDigit _

theorem notMem_guidDigits {c : UInt8} (hc : c < 48) : c ∉ guidDigits rand :=
  fun hmem => (isHexDigit_of_mem rand hmem).ne hc rfl

/-! ### The guid as a C string -/

/-- What the guid should be, when the bytes `behind` follow the array: read as a C string, it is the
bytes that `Subscriber::Connect` installs as a filter; they are digits, and no delimiter is among
them. -/
structure GuidLaw (guid : GuidArray) (behind : Bytes) : Prop where
  eq_filter : cStr (guid.toList ++ behind) = guid.toList.take GUID_SIZE
  digits : ∀ b ∈ cStr (guid.toList ++ behind), IsHexDigit b
  hash_notMem : hash ∉ cStr (guid.toList ++ behind)
  tab_notMem : tab ∉ cStr (guid.toList ++ behind)
  zero_notMem : 0 ∉ cStr (guid.toList ++ behind)

/-- The C string that starts at the guid goes on behind the digits. -/
theorem cStr_generateGuid (behind : Bytes) :
    cStr ((generateGuid rand GUID_SIZE memory).toList ++ behind) =
      guidDigits rand ++ cStr (memory[GUID_SIZE] :: behind) := by
  rw [toList_generateGuid, List.append_assoc, List.singleton_append, cStr, cStr]
  refine List.takeWhile_append_of_pos fun b hb => ?_
  rw [bne_iff_ne]
  rintro rfl
  exact notMem_guidDigits rand (by decide) hb

/-- **The guid.** Whatever the memory held and `rand` returned, the bytes that the filter is made of
are upper-case hexadecimal digits. The guid as a C string is these bytes exactly when the last byte
of the array was NUL before. -/
theorem guidLaw_iff (behind : Bytes) :
    (∀ b ∈ (generateGuid rand GUID_SIZE memory).toList.take GUID_SIZE, IsHexDigit b) ∧
      (GuidLaw (generateGuid rand GUID_SIZE memory) behind ↔ memory[GUID_SIZE] = 0) := by
  rw [take_generateGuid]
  refine ⟨fun b hb => isHexDigit_of_mem rand hb, ?_⟩
  constructor
  · intro hlaw
    have heq := hlaw.eq_filter
    rw [cStr_generateGuid, take_generateGuid] at heq
    have hnil : cStr (memory[GUID_SIZE] :: behind) = [] := by simpa using heq
    by_contra hne
    rw [cStr, List.takeWhile_cons_of_pos (by simpa using hne)] at hnil
    simp at hnil
  · intro hzero
    have hguid : cStr ((generateGuid rand GUID_SIZE memory).toList ++ behind) =
        guidDigits rand := by
      rw [cStr_generateGuid, cStr, List.takeWhile_cons_of_neg (by simp [hzero]), List.append_nil]
    refine ⟨hguid.trans (take_generateGuid rand memory).symm, ?_, ?_, ?_, ?_⟩
    all_goals rw [hguid]
    · exact fun b hb => isHexDigit_of_mem rand hb
    · exact notMem_guidDigits rand (by decide)
    · exact notMem_guidDigits rand (by decide)
    · exact notMem_guidDigits rand (by decide)

/-- **A guid with a `'#'` in it.** The array lay in memory full of `'#'`. -/
theorem not_guidLaw : ¬ ∀ (rand : ℕ → ℕ) (memory : GuidArray) (behind : Bytes),
    GuidLaw (generateGuid rand GUID_SIZE memory) behind := by
  intro claim
  have hlaw := claim (fun _ => 0) (Vector.replicate _ hash) [0]
  exact absurd ((guidLaw_iff _ _ _).2.mp hlaw) (by decide)

/-! ### The constructed proxy -/

theorem cStr_generateGuid_of_eq_zero (hlast : memory[GUID_SIZE] = 0) :
    cStr (generateGuid rand GUID_SIZE memory).toList = guidDigits rand := by
  have hlaw := ((guidLaw_iff rand memory []).2.mpr hlast).eq_filter
  rwa [List.append_nil, take_generateGuid] at hlaw

/-- The configuration that a generated guid makes, when the last byte of the array was NUL. -/
def Config.generate (base : Config) (hlast : memory[GUID_SIZE] = 0) : Config :=
  have hguid := cStr_generateGuid_of_eq_zero rand memory hlast
  { base with
    guid := cStr (generateGuid rand GUID_SIZE memory).toList
    length_guid := by rw [hguid, guidDigits, List.length_map, List.length_range]
    zero_notMem_guid := by rw [hguid]; exact notMem_guidDigits rand (by decide)
    tab_notMem_guid := by rw [hguid]; exact notMem_guidDigits rand (by decide)
    hash_notMem_guid := by rw [hguid]; exact notMem_guidDigits rand (by decide) }

theorem Config.guid_generate (base : Config) (hlast : memory[GUID_SIZE] = 0) :
    (base.generate rand memory hlast).guid = guidDigits rand := by
  have hguid := cStr_generateGuid_of_eq_zero rand memory hlast
  unfold Config.generate
  dsimp only
  exact hguid

/-- The filter for a generated guid is made of the generated bytes. -/
theorem Config.topicOf_generate (base : Config) (hlast : memory[GUID_SIZE] = 0) :
    topicOf (base.generate rand memory hlast).guid GUID_SIZE = guidDigits rand := by
  rw [topicOf_eq_self (Config.length_guid _), Config.guid_generate]

/-- A proxy passes over the member that it wrote to Redis itself. -/
theorem Proxy.visitMember_member {s : Proxy} {config : Config} (hguid : s.guid = config.guid)
    (now : ℤ) (peer : PeerOutcome) : s.visitMember now config.member peer = .ok (s, []) := by
  rw [Proxy.visitMember, config.split_member]
  exact if_pos hguid.symm

/-- The bind loops of the constructor were left with `break`, on the ports of the configuration. -/
structure StartsOn (zmqResponder zmqPublisher : ℤ → BindResult) (config : Config) : Prop where
  responder : ∃ b, Responder.Binds zmqResponder 7770 b ∧ b.outcome = some .success ∧
    b.port = config.responderPort
  publisher : ∃ b, Publisher.Binds zmqPublisher 7771 b ∧ b.outcome = some .success ∧
    b.port = config.publisherPort

/-- The ports on which a proxy starts. -/
theorem StartsOn.ports {zmqResponder zmqPublisher : ℤ → BindResult} {config : Config}
    (hstarts : StartsOn zmqResponder zmqPublisher config) :
    (7770 ≤ config.responderPort ∧ config.responderPort < 7780) ∧
      7771 ≤ config.publisherPort ∧ config.publisherPort < 7781 := by
  obtain ⟨⟨b, hloop, -, hport⟩, ⟨b', hloop', -, hport'⟩⟩ := hstarts
  obtain ⟨n, hb⟩ := Binding.ended_of_loop hloop
  obtain ⟨n', hb'⟩ := Binding.ended_of_loop hloop'
  have hn := hb.lt
  have hn' := hb'.lt
  rw [← hport, ← hport', hb.port_eq, hb'.port_eq]
  omega

end EsbProxy
