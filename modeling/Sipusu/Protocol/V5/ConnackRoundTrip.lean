import Sipusu.Protocol.V5.ConnackEntries

/-!
# CONNACK packets through both coders

The decoder of the tests reads a packet with properties back as it was.
-/

namespace Sipusu.Protocol.V5

open Sipusu.Foundation

namespace Connack.Properties

theorem size_pos_iff {properties : Properties} : 0 < properties.size ↔ properties.written ≠ [] := by
  rw [← length_written, List.length_pos_iff, ne_eq, ne_eq, List.flatMap_eq_nil_iff,
    List.eq_nil_iff_forall_not_mem]
  apply not_congr
  constructor
  · intro nothing entry member
    exact entry.bytes_ne_nil (nothing entry member)
  · intro nothing entry member
    exact absurd member (nothing entry)

/-- The block of properties behind its length. -/
theorem decode_written {properties : Properties}
    (fit : ∀ entry ∈ properties.written, entry.Fits)
    (listed : properties.userProperties ≠ some []) (filled : 0 < properties.size)
    (bound : properties.size < RemainingLength.limit) :
    decode (RemainingLength.form properties.size ++ properties.written.flatMap Entry.bytes) =
      .ok (some properties, []) := by
  have some_ : ¬ (RemainingLength.form properties.size ++
      properties.written.flatMap Entry.bytes).length = 0 := by
    rw [List.length_append, length_written]
    omega
  have size : (RemainingLength.decode.mapErr fun _ => "Failed to decode property length")
      (RemainingLength.form properties.size ++ properties.written.flatMap Entry.bytes) =
        .ok (properties.size, properties.written.flatMap Entry.bytes) := by
    rw [Reader.mapErr_apply, RemainingLength.decode_form bound]
    rfl
  rw [decode, Reader.bind_apply, Reader.remaining_apply, Outcome.ok_bind, if_neg some_,
    Reader.bind_apply, size, Outcome.ok_bind, decodeOfLength, if_neg (Nat.ne_of_gt filled),
    Reader.bind_apply, whileNonempty_written fit listed]
  rfl

end Connack.Properties

namespace ConnackPacket

theorem decode_withProperties {packet : ConnackPacket} {properties : Connack.Properties}
    (given : packet.properties = some properties) (filled : 0 < properties.size)
    (bound : properties.size ≤ 268435449) (fit : ∀ entry ∈ properties.written, entry.Fits)
    (listed : properties.userProperties ≠ some []) :
    decode (packet.withProperties properties) = .ok (packet, []) := by
  have isLimit := RemainingLength.limit_eq
  have small : properties.size < RemainingLength.limit := by omega
  have short := RemainingLength.length_form_le_four small
  have total : properties.size + 2 + (RemainingLength.form properties.size).length <
      RemainingLength.limit := by omega
  have octets : packet.withProperties properties = 0x20 :: (RemainingLength.form
      (properties.size + 2 + (RemainingLength.form properties.size).length) ++
        (packet.sessionPresent.toUInt8 :: packet.returnCode ::
          (RemainingLength.form properties.size ++
            properties.written.flatMap Connack.Entry.bytes))) := by
    rw [withProperties, Connack.Properties.sizeOctets, if_neg (Nat.ne_of_gt filled)]
  have four : 4 ≤ (packet.withProperties properties).length := by
    simp only [octets, List.length_cons, List.length_append,
      Connack.Properties.length_written]
    omega
  have block := Connack.Properties.decode_written fit listed filled small
  have length (rest : Bytes) :
      (RemainingLength.decode.mapErr fun _ => "Failed to decode remaining length")
        (RemainingLength.form
          (properties.size + 2 + (RemainingLength.form properties.size).length) ++ rest) =
          .ok (properties.size + 2 + (RemainingLength.form properties.size).length, rest) := by
    rw [Reader.mapErr_apply, RemainingLength.decode_form total]
    rfl
  have enough : properties.size + 2 + (RemainingLength.form properties.size).length ≤
      (packet.sessionPresent.toUInt8 :: packet.returnCode ::
        (RemainingLength.form properties.size ++
          properties.written.flatMap Connack.Entry.bytes)).length := by
    simp only [List.length_cons, List.length_append, Connack.Properties.length_written]
    omega
  have flag : decide (packet.sessionPresent.toUInt8 &&& 0x01 ≠ 0) = packet.sessionPresent := by
    cases packet.sessionPresent <;> rfl
  rw [decode, Reader.bind_apply, Reader.remaining_apply, Outcome.ok_bind, Reader.bind_apply,
    Reader.ensure_apply, if_pos four, Outcome.ok_bind, octets, Reader.bind_apply,
    Reader.getU8_cons, Outcome.ok_bind, Reader.bind_apply, Reader.ensure_apply,
    if_pos (show (0x20 : UInt8) >>> 4 = 2 from rfl), Outcome.ok_bind, Reader.bind_apply, length,
    Outcome.ok_bind, Reader.bind_apply, Reader.remaining_apply, Outcome.ok_bind, Reader.bind_apply,
    Reader.ensure_apply, if_pos enough, Outcome.ok_bind, Reader.bind_apply, Reader.getU8_cons,
    Outcome.ok_bind, Reader.bind_apply, Reader.getU8_cons, Outcome.ok_bind, Reader.bind_apply, block,
    Outcome.ok_bind, Reader.pure_apply, flag, ← given]

/-- A packet with properties that is encoded is decoded to itself. -/
theorem connack_round_trip {packet : ConnackPacket} {properties : Connack.Properties}
    {octets : Bytes} (given : packet.properties = some properties) (held : properties ≠ .default)
    (listed : properties.userProperties ≠ some []) (short : properties.size ≤ 268435000)
    (encoded : packet.encode = .ok octets) : decode octets = .ok (packet, []) := by
  have filled : 0 < properties.size :=
    Connack.Properties.size_pos_iff.mpr (Connack.Properties.written_ne_nil listed held)
  have bound : properties.size ≤ 268435449 := by omega
  obtain ⟨fit, rfl⟩ := (encode_eq_ok given bound).mp encoded
  exact decode_withProperties given filled bound fit listed

/-- An answer with a limit and a user property. -/
theorem connack_round_trip_limited :
    let properties : Connack.Properties :=
      { Connack.Properties.default with
        receiveMaximum := some 10
        userProperties := some [(⟨[0x6B], by decide⟩, ⟨[0x76], by decide⟩)] }
    let packet : ConnackPacket :=
      { sessionPresent := true, returnCode := 0, properties := some properties }
    decode [0x20, 0x0D, 0x01, 0x00, 0x0A, 0x21, 0x00, 0x0A, 0x26, 0x00, 0x01, 0x6B, 0x00, 0x01,
      0x76] = .ok (packet, []) := by
  intro properties packet
  have encoded : packet.encode = .ok [0x20, 0x0D, 0x01, 0x00, 0x0A, 0x21, 0x00, 0x0A, 0x26, 0x00,
      0x01, 0x6B, 0x00, 0x01, 0x76] := by decide
  exact connack_round_trip rfl (by decide) (by decide) (by decide) encoded

end ConnackPacket
end Sipusu.Protocol.V5
