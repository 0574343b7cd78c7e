import Sipusu.Protocol.V5.AckParser

/-!
# Acknowledgements of PUBLISH packets are read back

The parser of `PUBACK`, `PUBREC`, `PUBREL` and `PUBCOMP` packets takes a packet that ends
behind its reason code for one without properties, so it reads back what the encoder writes
of an empty block.
-/

namespace Sipusu.Protocol.V5

open Sipusu.Foundation

namespace Puback

/-- What an acknowledgement says. -/
structure Content where
  packetType : PubACKType
  packetId : UInt16
  reasonCode : UInt8
  properties : Ack.Properties
deriving DecidableEq

/-- The packet type that the high half of the first octet stands for. -/
def typeOfNibble : UInt8 → Option PubACKType
  | 4 => some .pubAck
  | 5 => some .pubRec
  | 6 => some .pubRel
  | 7 => some .pubComp
  | _ => none

/-- The properties of an acknowledgement: nothing at all, or a length that counts the rest of
the packet, and properties. -/
def parseTail : Reader String Ack.Properties := do
  let left ← Reader.remaining
  if left = 0 then return .empty
  else
    let size ← RemainingLength.decode
    let left ← Reader.remaining
    Reader.ensure (size = left) "property length is not that of the rest"
    Ack.parseProperties

/-- A parser of acknowledgements. -/
def parse : Reader String Content := do
  let header ← Reader.getU8
  let packetType ← Reader.ofOption "not an acknowledgement" (typeOfNibble (header >>> 4))
  let remainingLength ← RemainingLength.decode
  let left ← Reader.remaining
  Reader.ensure (remainingLength = left) "remaining length is not that of the rest"
  let packetId ← Reader.getU16
  let reasonCode ← Reader.getU8
  let properties ← parseTail
  return { packetType, packetId, reasonCode, properties }

theorem typeOfNibble_code (packetType : PubACKType) :
    typeOfNibble (packetType.code >>> 4) = some packetType := by
  cases packetType <;> rfl

end Puback

namespace PubackPacket

/-- What a packet says. Missing properties are the same as empty ones. -/
def content (packet : PubackPacket) : Puback.Content :=
  { packetType := packet.packetType
    packetId := packet.packetId
    reasonCode := packet.reasonCode
    properties := packet.properties.elim .empty Ack.ofPuback }

/-- The octets that the properties of a packet take. -/
def propertySize (packet : PubackPacket) : Nat := packet.properties.elim 0 Ack.size

/-- The properties of a packet that is encoded. -/
theorem properties_eq_ok {packet : PubackPacket} {bufProp : Bytes}
    (encoded : packet.properties.elim (.ok []) Puback.encodeProperties = .ok bufProp) :
    bufProp.length = packet.propertySize ∧
      Ack.parseProperties bufProp = .ok (packet.content.properties, []) := by
  rw [propertySize, content]
  cases present : packet.properties with
  | none =>
    rw [present, Option.elim_none, Outcome.ok.injEq] at encoded
    rw [← encoded]
    exact ⟨rfl, rfl⟩
  | some properties =>
    rw [present, Option.elim_some, Ack.encodeProperties_eq_ok] at encoded
    obtain ⟨fit, rfl⟩ := encoded
    exact ⟨Ack.length_written properties, Ack.parseProperties_written fit⟩

/-- A property block behind its length, or nothing for an empty one. -/
theorem parseTail_block {bufProp : Bytes} {properties : Ack.Properties}
    (bound : bufProp.length < RemainingLength.limit)
    (parsed : Ack.parseProperties bufProp = .ok (properties, [])) :
    Puback.parseTail ((if bufProp.length = 0 then [] else RemainingLength.form bufProp.length) ++
      bufProp) = .ok (properties, []) := by
  by_cases zero : bufProp.length = 0
  · obtain rfl := List.eq_nil_of_length_eq_zero zero
    exact parsed
  · have form := RemainingLength.length_form_pos bufProp.length
    have more : (RemainingLength.form bufProp.length ++ bufProp).length ≠ 0 := by
      rw [List.length_append]
      omega
    rw [if_neg zero, Puback.parseTail, Reader.bind_apply, Reader.remaining_apply, Outcome.ok_bind,
      if_neg more]
    simp only [Reader.bind_apply, RemainingLength.decode_form bound, Outcome.ok_bind,
      Reader.remaining_apply, Reader.ensure_apply, if_true, parsed]

/-- Every acknowledgement that is encoded, with properties of up to 268435000 octets, is read
back. -/
theorem puback_read_back {packet : PubackPacket} {octets : Bytes}
    (encoded : packet.encode = .ok octets) (small : packet.propertySize ≤ 268435000) :
    Puback.parse octets = .ok (packet.content, []) := by
  obtain ⟨bufProp, written, encoded⟩ := Outcome.bind_eq_ok.mp encoded
  obtain ⟨size, parsed⟩ := properties_eq_ok written
  have isLimit := RemainingLength.limit_eq
  have bound : bufProp.length < RemainingLength.limit := by omega
  have tail := parseTail_block bound parsed
  have few := RemainingLength.length_form_le_four bound
  rw [RemainingLength.encode_of_size bound, Outcome.ok_bind] at encoded
  generalize isLeng : (if bufProp.length = 0 then [] else RemainingLength.form bufProp.length) =
    propLeng at encoded tail
  have propLength : propLeng.length ≤ 4 := by
    rw [← isLeng]
    split
    · exact Nat.zero_le 4
    · exact few
  have total : propLeng.length + bufProp.length + 3 < RemainingLength.limit := by omega
  rw [RemainingLength.encode_of_size total, if_neg (Nat.succ_ne_zero _), Outcome.ok_bind,
    Outcome.pure_eq, Outcome.ok.injEq] at encoded
  rw [← encoded]
  have rest : propLeng.length + bufProp.length + 3 =
      (be16 packet.packetId ++ (packet.reasonCode :: (propLeng ++ bufProp))).length := by
    simp only [List.length_append, List.length_cons, length_be16]
    omega
  simp only [Puback.parse, Reader.bind_apply, Reader.getU8_cons, Outcome.ok_bind,
    Puback.typeOfNibble_code, Reader.ofOption_some, RemainingLength.decode_form total,
    Reader.remaining_apply, Reader.ensure_apply, if_pos rest, Reader.getU16_be16, tail,
    Reader.pure_apply]
  rfl

/-- A PUBACK packet with a reason. -/
theorem puback_read_back_reason :
    Puback.parse [0x40, 0x09, 0x04, 0xD2, 0x10, 0x05, 0x1F, 0x00, 0x02, 0x6E, 0x6F] =
      .ok (⟨.pubAck, 1234, 0x10, ⟨some ⟨[0x6E, 0x6F], by decide⟩, []⟩⟩, []) := by
  let packet : PubackPacket :=
    { packetType := .pubAck, packetId := 1234, reasonCode := 0x10
      properties := some ⟨some ⟨[0x6E, 0x6F], by decide⟩, none⟩ }
  exact @puback_read_back packet _ (by decide) (by decide)

end PubackPacket
end Sipusu.Protocol.V5
