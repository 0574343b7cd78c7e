import Sipusu.Foundation.Reader
import Sipusu.Foundation.Utf8
import Sipusu.Foundation.Varint

/-!
# Shared parts of the version 5 packets

`src/protocol/v5/mod.rs` and `src/protocol/v5/malform.rs`: quality of service,
the reasons for refusing a packet, the variable-length integer and the readers
of length-prefixed strings.
-/

namespace Sipusu.Protocol.V5

open Sipusu.Foundation

/-- `enum ServiceLevel`. -/
inductive ServiceLevel where
  | qos0
  | qos1
  | qos2
deriving DecidableEq, Repr

namespace ServiceLevel

/-- `ServiceLevel::code`. -/
def code : ServiceLevel → UInt8
  | .qos0 => 0x00
  | .qos1 => 0x01
  | .qos2 => 0x02

/-- `ServiceLevel::try_from`; its only error is `QoSNotSupported`. -/
def tryFrom : UInt8 → Option ServiceLevel
  | 0x00 => some .qos0
  | 0x01 => some .qos1
  | 0x02 => some .qos2
  | _ => none

@[simp] theorem tryFrom_code (level : ServiceLevel) : tryFrom level.code = some level := by
  cases level <;> rfl

theorem code_of_tryFrom {value : UInt8} {level : ServiceLevel}
    (accepted : tryFrom value = some level) : level.code = value := by
  unfold tryFrom at accepted
  split at accepted <;> cases accepted <;> rfl

theorem min_code_eq_left_iff (left right : ServiceLevel) :
    min left.code right.code = left.code ↔ left.code ≤ right.code := by
  cases left <;> cases right <;> decide

end ServiceLevel

/-- `enum Malformed`. -/
inductive Malformed where
  | malformedPacket
  | protocolError
  | receiveMax
  | packetTooLarge
  | retainNotSupported
  | qosNotSupported
  | sharedSubsUnsuppported
  | subsIdUnSupported
  | wildcardSubsUnSupported
deriving DecidableEq, Repr

namespace RemainingLength

/-- The error of `RemainingLength::decode`. -/
def malformedRemainingLength : String := "Malformed Remaining Length"

/-- The loop of `RemainingLength::decode`. -/
def decodeLoop (multiplier value : Nat) : Reader String Nat
  | [] => .panic
  | encodedByte :: rest =>
      let value := value + (encodedByte &&& 127).toNat * multiplier
      if encodedByte &&& 128 = 0 then .ok (value, rest)
      else
        let multiplier := multiplier * 128
        if multiplier > 128 * 128 * 128 then .err malformedRemainingLength
        else decodeLoop multiplier value rest

/-- `RemainingLength::decode`. -/
def decode : Reader String Nat := decodeLoop 1 0

/-- A number below this bound has a form of at most four octets. -/
def limit : Nat := 128 ^ 4

theorem limit_eq : limit = 268435456 := rfl

/-- The shortest form of a number below the limit. -/
def form (n : Nat) : Bytes := Varint.digits 3 n

theorem length_form_pos (n : Nat) : 0 < (form n).length :=
  List.length_pos_iff.mpr (Varint.digits_ne_nil 3 n)

theorem decodeLoop_cons (multiplier value : Nat) (octet : UInt8) (rest : Bytes) :
    decodeLoop multiplier value (octet :: rest) =
      if octet &&& 128 = 0 then .ok (value + (octet &&& 127).toNat * multiplier, rest)
      else if multiplier * 128 > 128 * 128 * 128 then .err malformedRemainingLength
      else decodeLoop (multiplier * 128) (value + (octet &&& 127).toNat * multiplier) rest := rfl

theorem decodeLoop_digits {extra multiplier value n : Nat} (bound : n < 128 ^ (extra + 1))
    (room : multiplier * 128 ^ extra ≤ 128 * 128 * 128) (rest : Bytes) :
    decodeLoop multiplier value (Varint.digits extra n ++ rest) =
      .ok (value + n * multiplier, rest) := by
  have last : ∀ {n}, n < 128 → ∀ value multiplier,
      decodeLoop multiplier value (UInt8.ofNat n :: rest) = .ok (value + n * multiplier, rest) := by
    intro n small value multiplier
    have octet : (UInt8.ofNat n).toNat = n := by
      rw [UInt8.toNat_ofNat']
      omega
    have only : UInt8.ofNat n &&& 128 = 0 := by
      rw [Varint.and_high_eq_zero_iff, octet]
      exact small
    rw [decodeLoop_cons, if_pos only, Varint.toNat_and_low, octet, Nat.mod_eq_of_lt small]
  induction extra generalizing multiplier value n with
  | zero => exact last (by omega) value multiplier
  | succ extra inductionHypothesis =>
    rw [Varint.digits]
    split
    · exact last ‹n < 128› value multiplier
    · have octet : (UInt8.ofNat (n % 128 + 128)).toNat = n % 128 + 128 := by
        rw [UInt8.toNat_ofNat']
        omega
      have more : ¬ UInt8.ofNat (n % 128 + 128) &&& 128 = 0 := by
        rw [Varint.and_high_eq_zero_iff, octet]
        omega
      have power : 0 < 128 ^ extra := Nat.pow_pos (by omega)
      have quotient : n / 128 < 128 ^ (extra + 1) := by
        rw [Nat.pow_succ] at bound
        exact Nat.div_lt_of_lt_mul (by omega)
      have nextRoom : multiplier * 128 * 128 ^ extra ≤ 128 * 128 * 128 := by
        rw [Nat.pow_succ, Nat.mul_comm (128 ^ extra), ← Nat.mul_assoc] at room
        exact room
      have noOverflow : ¬ multiplier * 128 > 128 * 128 * 128 := by
        have step := Nat.le_mul_of_pos_right (multiplier * 128) power
        omega
      rw [List.cons_append, decodeLoop_cons, if_neg more, if_neg noOverflow, Varint.toNat_and_low, octet,
        inductionHypothesis quotient nextRoom]
      have digit : (n % 128 + 128) % 128 = n % 128 := by omega
      have parts : n % 128 * multiplier + n / 128 * (multiplier * 128) = n * multiplier := by
        rw [Nat.mul_comm multiplier, ← Nat.mul_assoc, ← Nat.add_mul]
        congr 1
        omega
      rw [digit, Nat.add_assoc, parts]

/-- Decoding inverts the shortest form. -/
theorem decode_form {n : Nat} (bound : n < limit) (rest : Bytes) :
    decode (form n ++ rest) = .ok (n, rest) := by
  rw [decode, form, decodeLoop_digits bound (by omega)]
  simp

/-- What follows a number does not change it. -/
theorem decodeLoop_append {multiplier value result : Nat} {buffer rest : Bytes}
    (decoded : decodeLoop multiplier value buffer = .ok (result, rest)) (more : Bytes) :
    decodeLoop multiplier value (buffer ++ more) = .ok (result, rest ++ more) := by
  induction buffer generalizing multiplier value with
  | nil => cases decoded
  | cons octet tail inductionHypothesis =>
    rw [decodeLoop_cons] at decoded
    rw [List.cons_append, decodeLoop_cons]
    split at decoded
    · simp only [Outcome.ok.injEq, Prod.mk.injEq] at decoded
      rw [if_pos ‹_›, decoded.1, decoded.2]
    · rw [if_neg ‹_›]
      split at decoded
      · cases decoded
      · rw [if_neg ‹_›]
        exact inductionHypothesis decoded

theorem decode_append {n : Nat} {buffer rest : Bytes} (decoded : decode buffer = .ok (n, rest))
    (more : Bytes) : decode (buffer ++ more) = .ok (n, rest ++ more) :=
  decodeLoop_append decoded more

theorem decodeLoop_consumes {extra multiplier : Nat} (room : multiplier * 128 ^ extra = 128 ^ 3)
    (value : Nat) : Reader.Consumes (decodeLoop multiplier value) fun result used =>
      0 < used.length ∧ used.length ≤ extra + 1 ∧
        ∃ n, n < 128 ^ used.length ∧ result = value + n * multiplier := by
  intro buffer result rest decoded
  induction buffer generalizing extra multiplier value with
  | nil => cases decoded
  | cons octet tail inductionHypothesis =>
    have digit : (octet &&& 127).toNat < 128 := by
      rw [Varint.toNat_and_low]
      exact Nat.mod_lt _ (by omega)
    rw [decodeLoop_cons] at decoded
    split at decoded
    · simp only [Outcome.ok.injEq, Prod.mk.injEq] at decoded
      obtain ⟨rfl, rfl⟩ := decoded
      exact ⟨[octet], rfl, Nat.one_pos, by simp, (octet &&& 127).toNat, by simpa using digit, rfl⟩
    · split at decoded
      · cases decoded
      · cases extra with
        | zero => omega
        | succ extra =>
          have nextRoom : multiplier * 128 * 128 ^ extra = 128 ^ 3 := by
            rw [← room, Nat.pow_succ, Nat.mul_comm (128 ^ extra), Nat.mul_assoc]
          obtain ⟨used, rfl, positive, short, n, bound, rfl⟩ := inductionHypothesis nextRoom _ decoded
          refine ⟨octet :: used, rfl, Nat.succ_pos _, Nat.succ_le_succ short,
            (octet &&& 127).toNat + n * 128, ?_, ?_⟩
          · rw [List.length_cons, Nat.pow_succ]
            omega
          · rw [Nat.add_mul, Nat.add_assoc, Nat.mul_comm multiplier, Nat.mul_assoc]

/-- A decoded number takes one to four octets and has at most that many digits. -/
theorem decode_consumes : Reader.Consumes decode fun n used =>
    0 < used.length ∧ used.length ≤ 4 ∧ n < 128 ^ used.length := by
  intro buffer n rest decoded
  have room : 1 * 128 ^ 3 = 128 ^ 3 := rfl
  obtain ⟨used, split, positive, short, digits, bound, rfl⟩ := decodeLoop_consumes room 0 decoded
  exact ⟨used, split, positive, short, by simpa using bound⟩

/-- No octets that decode to a number are fewer than its shortest form. -/
theorem length_form_le {n count : Nat} (positive : 0 < count) (bound : n < 128 ^ count) :
    (form n).length ≤ count :=
  Varint.length_digits_le positive bound

/-- The loop of `RemainingLength::encode`, with one unit of fuel for each octet of its
array. -/
def encodeLoop : Nat → Nat → Bytes
  | 0, _ => []
  | fuel + 1, target =>
      if target = 0 then []
      else
        let encodedByte := UInt8.ofNat (target % 128)
        let target := target / 128
        (if 0 < target then encodedByte ||| 128 else encodedByte) :: encodeLoop fuel target

/-- The error of `RemainingLength::encode`. -/
def errorEncodeLength : String := "error encode length"

/-- `RemainingLength::encode`, up to the size it returns. The form of zero is empty. -/
def encode (target : UInt32) : Outcome String Bytes :=
  if 268435455 < target.toNat then .err errorEncodeLength else .ok (encodeLoop 4 target.toNat)

/-- A positive number is written in its shortest form. -/
theorem encodeLoop_eq_digits {extra n : Nat} (positive : 0 < n) (bound : n < 128 ^ (extra + 1)) :
    encodeLoop (extra + 1) n = Varint.digits extra n := by
  have high : ∀ low : Fin 128, UInt8.ofNat low.val ||| 128 = UInt8.ofNat (low.val + 128) := by
    decide
  induction extra generalizing n with
  | zero =>
    have small : n % 128 = n := Nat.mod_eq_of_lt (by omega)
    have none : n / 128 = 0 := Nat.div_eq_of_lt (by omega)
    simp [encodeLoop, Varint.digits, Nat.ne_of_gt positive, small, none]
  | succ extra inductionHypothesis =>
    rw [encodeLoop, if_neg (Nat.ne_of_gt positive), Varint.digits]
    by_cases small : n < 128
    · have none : n / 128 = 0 := Nat.div_eq_of_lt small
      rw [if_pos small]
      simp [none, Nat.mod_eq_of_lt small, encodeLoop]
    · have more : 0 < n / 128 := Nat.div_pos (Nat.not_lt.mp small) (by omega)
      have quotient : n / 128 < 128 ^ (extra + 1) := by
        rw [Nat.pow_succ] at bound
        exact Nat.div_lt_of_lt_mul (by omega)
      simp only [if_neg small, if_pos more, inductionHypothesis more quotient,
        high ⟨n % 128, Nat.mod_lt n (by omega)⟩]

/-- A positive number is encoded in its shortest form, if it is below the limit. -/
theorem encode_eq {target : UInt32} (positive : 0 < target.toNat) :
    encode target =
      if target.toNat < limit then .ok (form target.toNat) else .err errorEncodeLength := by
  have isLimit := limit_eq
  rw [encode]
  by_cases bound : target.toNat < limit
  · rw [if_neg (by omega), if_pos bound, encodeLoop_eq_digits positive bound, form]
  · rw [if_pos (by omega), if_neg bound]

/-- No size above the limit is written. -/
theorem le_of_encode_eq_ok {target : UInt32} {octets : Bytes} (encoded : encode target = .ok octets) :
    target.toNat ≤ 268435455 := by
  unfold encode at encoded
  split at encoded
  · cases encoded
  · exact Nat.not_lt.mp ‹_›

/-- A size below the limit is written in its shortest form, but zero is not written at all. -/
theorem encode_of_size {n : Nat} (bound : n < limit) :
    encode (UInt32.ofNat n) = .ok (if n = 0 then [] else form n) := by
  have same : (UInt32.ofNat n).toNat = n :=
    UInt32.toNat_ofNat_of_lt' (Nat.lt_of_lt_of_le bound (by decide))
  by_cases zero : n = 0
  · rw [zero]
    rfl
  · have positive : 0 < (UInt32.ofNat n).toNat := by omega
    rw [encode_eq positive, same, if_pos bound, if_neg zero]

theorem length_form_le_four {n : Nat} (bound : n < limit) : (form n).length ≤ 4 :=
  length_form_le (by decide) bound

/-- Octets that hold as many as their length says are not cut off from longer ones of the
same length. -/
theorem eq_nil_of_decode {body tail after more : Bytes} {n : Nat} (bound : body.length < limit)
    (split : form body.length ++ body = tail ++ more) (decoded : decode tail = .ok (n, after))
    (enough : n ≤ after.length) : more = [] := by
  have whole := decode_append decoded more
  rw [← split, decode_form bound] at whole
  simp only [Outcome.ok.injEq, Prod.mk.injEq] at whole
  have lengths := congrArg List.length whole.2
  rw [List.length_append] at lengths
  apply List.eq_nil_of_length_eq_zero
  omega

end RemainingLength

/-- The error for a block that the buffer cannot hold. -/
def bufferOutOfCapacity : String := "buffer out of capacity"

/-- The error for a string that is not UTF-8. -/
def invalidUtf8String : String := "Invalid UTF-8 string"

/-- `decode_binary_data`. -/
def decodeBinaryData : Reader String Bytes := do
  let len ← Reader.getU16
  let remaining ← Reader.remaining
  Reader.ensure (len.toNat ≤ remaining) bufferOutOfCapacity
  Reader.splitTo len.toNat

/-- `decode_utf8_string`. -/
def decodeUtf8String : Reader String Str := do
  let len ← Reader.getU16
  let remaining ← Reader.remaining
  Reader.ensure (len.toNat ≤ remaining) bufferOutOfCapacity
  let data ← Reader.splitTo len.toNat
  Reader.ofOption invalidUtf8String (Str.fromUtf8? data)

/-- `decode_string_pair`. -/
def decodeStringPair : Reader String (Str × Str) := do
  let key ← decodeUtf8String
  let value ← decodeUtf8String
  return (key, value)

/-- A block behind its length. -/
def lengthPrefixed (block : Bytes) : Bytes := be16 (UInt16.ofNat block.length) ++ block

@[simp] theorem length_lengthPrefixed (block : Bytes) :
    (lengthPrefixed block).length = 2 + block.length := by
  simp [lengthPrefixed]

/-- The error for a string that is too long. -/
def stringTooLong : String := "String too long"

/-- `encode_utf8_string`. -/
def encodeUtf8String (value : Str) : Outcome String Bytes :=
  if 65535 < value.len then .err stringTooLong
  else .ok (be16 (UInt16.ofNat value.len) ++ value.bytes)

theorem encodeUtf8String_eq {value : Str} (fits : value.len < 65536) :
    encodeUtf8String value = .ok (lengthPrefixed value.bytes) := by
  rw [encodeUtf8String, if_neg (by omega)]
  rfl

/-- A string that is written fits behind its length. -/
theorem encodeUtf8String_eq_ok {value : Str} {octets : Bytes} :
    encodeUtf8String value = .ok octets ↔
      value.len < 65536 ∧ octets = lengthPrefixed value.bytes := by
  by_cases fits : value.len < 65536
  · simp [encodeUtf8String_eq fits, fits, eq_comm]
  · rw [encodeUtf8String, if_pos (by omega)]
    simp [fits]

/-- The error for a block that is too long. -/
def binaryDataTooLong : String := "Binary data too long"

/-- `encode_binary_data`. -/
def encodeBinaryData (data : Bytes) : Outcome String Bytes :=
  if 65535 < data.length then .err binaryDataTooLong
  else .ok (be16 (UInt16.ofNat data.length) ++ data)

theorem encodeBinaryData_eq_ok {data octets : Bytes} :
    encodeBinaryData data = .ok octets ↔ data.length < 65536 ∧ octets = lengthPrefixed data := by
  unfold encodeBinaryData
  by_cases fits : data.length < 65536
  · rw [if_neg (by omega)]
    simp [fits, lengthPrefixed, eq_comm]
  · rw [if_pos (by omega)]
    simp [fits]

theorem decodeBinaryData_form {block : Bytes} (fits : block.length < 65536) (rest : Bytes) :
    decodeBinaryData (lengthPrefixed block ++ rest) = .ok (block, rest) := by
  have length : (UInt16.ofNat block.length).toNat = block.length := UInt16.toNat_ofNat_of_lt' fits
  simp [decodeBinaryData, lengthPrefixed, length]

theorem decodeUtf8String_form {value : Str} (fits : value.len < 65536) (rest : Bytes) :
    decodeUtf8String (lengthPrefixed value.bytes ++ rest) = .ok (value, rest) := by
  have length : (UInt16.ofNat value.bytes.length).toNat = value.bytes.length :=
    UInt16.toNat_ofNat_of_lt' fits
  simp [decodeUtf8String, lengthPrefixed, length]

/-- The block that is read stands behind its own length. -/
theorem decodeBinaryData_takes : Reader.Consumes decodeBinaryData fun block used =>
    block.length < 65536 ∧ used = lengthPrefixed block := by
  have steps := (Reader.Consumes.getU16 : Reader.Consumes (Reader.getU16 : Reader String UInt16) _).bind fun len =>
    Reader.Consumes.remaining.bind fun remaining =>
      (Reader.Consumes.ensure (len.toNat ≤ remaining) bufferOutOfCapacity).bind fun _ =>
        Reader.Consumes.splitTo len.toNat
  refine steps.mono ?_
  rintro _ used ⟨len, _, _, rfl, rfl, _, _, _, rfl, rfl, _, _, block, rfl, ⟨_, rfl⟩, rfl, length⟩
  have fits : block.length < 65536 := Nat.lt_of_le_of_lt (Nat.le_of_eq length) len.toNat_lt
  have same : UInt16.ofNat block.length = len := by rw [length, UInt16.ofNat_toNat]
  exact ⟨fits, by simp [lengthPrefixed, same]⟩

/-- The string that is read stands behind its own length. -/
theorem decodeUtf8String_takes : Reader.Consumes decodeUtf8String fun value used =>
    value.len < 65536 ∧ used = lengthPrefixed value.bytes := by
  have steps := (Reader.Consumes.getU16 : Reader.Consumes (Reader.getU16 : Reader String UInt16) _).bind fun len =>
    Reader.Consumes.remaining.bind fun remaining =>
      (Reader.Consumes.ensure (len.toNat ≤ remaining) bufferOutOfCapacity).bind fun _ =>
        (Reader.Consumes.splitTo len.toNat).bind fun data =>
          Reader.Consumes.ofOption invalidUtf8String (Str.fromUtf8? data)
  refine steps.mono ?_
  rintro value used ⟨len, _, _, rfl, rfl, _, _, _, rfl, rfl, _, _, _, rfl, ⟨_, rfl⟩, data, _, _, rfl,
    ⟨rfl, length⟩, valid, rfl⟩
  rw [Str.fromUtf8?_eq_some] at valid
  rw [valid] at length ⊢
  have fits : value.len < 65536 := Nat.lt_of_le_of_lt (Nat.le_of_eq length) len.toNat_lt
  have same : UInt16.ofNat value.bytes.length = len := by rw [length, UInt16.ofNat_toNat]
  exact ⟨fits, by simp [lengthPrefixed, same]⟩

theorem decodeBinaryData_consumes : Reader.Consumes decodeBinaryData fun block used =>
    block.length < 65536 ∧ used.length = 2 + block.length := by
  refine decodeBinaryData_takes.mono ?_
  rintro block used ⟨fits, rfl⟩
  exact ⟨fits, length_lengthPrefixed block⟩

theorem decodeUtf8String_consumes : Reader.Consumes decodeUtf8String fun value used =>
    value.len < 65536 ∧ used.length = 2 + value.len := by
  refine decodeUtf8String_takes.mono ?_
  rintro value used ⟨fits, rfl⟩
  exact ⟨fits, length_lengthPrefixed value.bytes⟩

theorem decodeStringPair_consumes : Reader.Consumes decodeStringPair fun pair used =>
    pair.1.len < 65536 ∧ pair.2.len < 65536 ∧ used.length = 4 + pair.1.len + pair.2.len := by
  have steps := decodeUtf8String_consumes.bind fun key =>
    decodeUtf8String_consumes.map fun value => (key, value)
  refine steps.mono ?_
  rintro pair used ⟨key, front, back, rfl, ⟨keyFits, keyLength⟩, value, rfl, valueFits, valueLength⟩
  refine ⟨keyFits, valueFits, ?_⟩
  simp only [List.length_append, keyLength, valueLength]
  omega

theorem decodeStringPair_form {key value : Str} (keyFits : key.len < 65536)
    (valueFits : value.len < 65536) (rest : Bytes) :
    decodeStringPair (lengthPrefixed key.bytes ++ (lengthPrefixed value.bytes ++ rest)) =
      .ok ((key, value), rest) := by
  simp [decodeStringPair, decodeUtf8String_form keyFits, decodeUtf8String_form valueFits]

end Sipusu.Protocol.V5
