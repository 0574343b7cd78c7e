import Sipusu.Protocol.Mqtt
import Sipusu.Protocol.V5.PublishFrame
import Sipusu.Protocol.V5.SubscribeFrame

/-!
# Packets of a connected client on the wire

What the decoder makes of octets that are not exactly one packet: of a packet that is
cut short, and of octets that start inside one.
-/

namespace Sipusu.Protocol

open Sipusu.Foundation V5

/-- A well-formed packet. -/
inductive ClientFrame where
  | publish (frame : PublishFrame)
  | subscribe (frame : SubscribeFrame)
  | pingReq

namespace ClientFrame

/-- The octets of a packet. -/
def wire : ClientFrame → Bytes
  | .publish frame => frame.wire
  | .subscribe frame => frame.wire
  | .pingReq => [0xC0, 0x00]

/-- The contents of a packet. -/
def content : ClientFrame → ClientPacketV5
  | .publish frame => .publish frame.content
  | .subscribe frame => .subscribe frame.content
  | .pingReq => .pingReq

/-- The packet is not a SUBSCRIBE packet with properties. -/
def Plain : ClientFrame → Prop
  | .subscribe frame => frame.properties = []
  | _ => True

end ClientFrame

namespace ClientPacketV5

/-- The packet that octets decode to. -/
def of? (buffer : Bytes) : Option ClientPacketV5 := (decode buffer).toOption.map Prod.fst

theorem of?_eq_some {buffer : Bytes} {packet : ClientPacketV5} :
    of? buffer = some packet ↔ ∃ rest, decode buffer = .ok (packet, rest) := by
  simp [of?]

theorem decode_cons (first : UInt8) (tail : Bytes) :
    decode (first :: tail) =
      match first >>> 4 with
      | 0x08 => SubscribePacket.decode (first :: tail) >>= fun result =>
          .ok (.subscribe result.1, result.2)
      | 0x03 =>
          PublishPacket.decode.mapErr (fun _ => .malformedPacket) (first :: tail) >>= fun result =>
            .ok (.publish result.1, result.2)
      | 0x0C => .ok (.pingReq, first :: tail)
      | _ => .err .protocolError := rfl

/-- The three ways of decoding a packet. -/
theorem decode_cases {buffer rest : Bytes} {packet : ClientPacketV5}
    (decoded : decode buffer = .ok (packet, rest)) :
    ∃ first tail, buffer = first :: tail ∧
      ((first >>> 4 = 0x08 ∧ ∃ inner, packet = .subscribe inner ∧
          SubscribePacket.decode buffer = .ok (inner, rest)) ∨
        (first >>> 4 = 0x03 ∧ ∃ inner, packet = .publish inner ∧
          PublishPacket.decode buffer = .ok (inner, rest)) ∨
        (first >>> 4 = 0x0C ∧ packet = .pingReq)) := by
  cases buffer with
  | nil => cases decoded
  | cons first tail =>
    refine ⟨first, tail, rfl, ?_⟩
    rw [decode_cons] at decoded
    split at decoded
    · rename_i kind
      obtain ⟨⟨inner, left⟩, read, same⟩ := Outcome.bind_eq_ok.mp decoded
      simp only [Outcome.ok.injEq, Prod.mk.injEq] at same
      obtain ⟨rfl, rfl⟩ := same
      exact .inl ⟨kind, inner, rfl, read⟩
    · rename_i kind
      obtain ⟨⟨inner, left⟩, read, same⟩ := Outcome.bind_eq_ok.mp decoded
      simp only [Outcome.ok.injEq, Prod.mk.injEq] at same
      obtain ⟨rfl, rfl⟩ := same
      exact .inr (.inl ⟨kind, inner, rfl, Outcome.mapErr_eq_ok.mp read⟩)
    · rename_i kind
      simp only [Outcome.ok.injEq, Prod.mk.injEq] at decoded
      exact .inr (.inr ⟨kind, decoded.1.symm⟩)
    · cases decoded

variable {buffer : Bytes}

theorem publish_of_decode {rest : Bytes} {packet : PublishPacket}
    (decoded : decode buffer = .ok (.publish packet, rest)) :
    ∃ first tail, buffer = first :: tail ∧ first >>> 4 = 0x03 ∧
      PublishPacket.decode buffer = .ok (packet, rest) := by
  obtain ⟨first, tail, split, ⟨_, _, impossible, _⟩ | ⟨kind, inner, same, inside⟩ | ⟨_, impossible⟩⟩ :=
    decode_cases decoded
  · cases impossible
  · cases same
    exact ⟨first, tail, split, kind, inside⟩
  · cases impossible

theorem publish_of_of? {packet : PublishPacket} (decoded : of? buffer = some (.publish packet)) :
    ∃ first tail rest, buffer = first :: tail ∧ first >>> 4 = 0x03 ∧
      PublishPacket.decode buffer = .ok (packet, rest) := by
  obtain ⟨rest, read⟩ := of?_eq_some.mp decoded
  obtain ⟨first, tail, split, kind, inside⟩ := publish_of_decode read
  exact ⟨first, tail, rest, split, kind, inside⟩

theorem subscribe_of_of? {packet : SubscribePacket}
    (decoded : of? buffer = some (.subscribe packet)) :
    ∃ rest, SubscribePacket.decode buffer = .ok (packet, rest) := by
  obtain ⟨rest, read⟩ := of?_eq_some.mp decoded
  obtain ⟨first, tail, _, ⟨_, inner, same, inside⟩ | ⟨_, _, impossible, _⟩ | ⟨_, impossible⟩⟩ :=
    decode_cases read
  · cases same
    exact ⟨rest, inside⟩
  · cases impossible
  · cases impossible

theorem pingReq_of_of? (decoded : of? buffer = some .pingReq) :
    ∃ first tail, buffer = first :: tail ∧ first >>> 4 = 0x0C := by
  obtain ⟨rest, read⟩ := of?_eq_some.mp decoded
  obtain ⟨first, tail, split, ⟨_, _, impossible, _⟩ | ⟨_, _, impossible, _⟩ | ⟨kind, _⟩⟩ :=
    decode_cases read
  · cases impossible
  · cases impossible
  · exact ⟨first, tail, split, kind⟩

theorem ne_nil_of_of? {packet : ClientPacketV5} (decoded : of? buffer = some packet) :
    buffer ≠ [] := by
  rintro rfl
  cases decoded

end ClientPacketV5

namespace ClientFrame

open ClientPacketV5

/-- The octets of a PUBLISH packet and more decode to a packet that has these in its payload. -/
theorem of?_publish_wire (frame : PublishFrame) (more : Bytes) :
    of? (frame.wire ++ more) = some (.publish (frame.contentWith more)) := by
  refine of?_eq_some.mpr ⟨frame.payload ++ more, ?_⟩
  have read := frame.decode_wire more
  rw [PublishFrame.wire, List.cons_append] at read ⊢
  rw [decode_cons, frame.header_shiftRight, Reader.mapErr_apply, read]
  rfl

/-- Exactly the octets of a packet decode to its contents, unless they are those of a
SUBSCRIBE packet with properties. -/
theorem of?_wire_iff (frame : ClientFrame) : of? frame.wire = some frame.content ↔ frame.Plain := by
  cases frame with
  | publish frame =>
    refine iff_of_true ?_ trivial
    have decoded := of?_publish_wire frame []
    rwa [List.append_nil, PublishFrame.contentWith_nil] at decoded
  | subscribe frame =>
    constructor
    · intro decoded
      obtain ⟨rest, read⟩ := subscribe_of_of? decoded
      exact SubscribeFrame.properties_eq_nil read
    · intro plain
      have kind : (0x82 : UInt8) >>> 4 = 0x08 := by decide
      have read := SubscribeFrame.decode_wire plain []
      rw [List.append_nil, SubscribeFrame.wire] at read
      refine of?_eq_some.mpr ⟨[], ?_⟩
      rw [wire, SubscribeFrame.wire, decode_cons, kind, read]
      rfl
  | pingReq => exact iff_of_true rfl trivial

/-- Only the first octet of a PINGREQ packet decodes like the packet that it is the
beginning of. -/
theorem eq_of_short {frame : ClientFrame} {front more : Bytes} (split : frame.wire = front ++ more)
    (cut : more ≠ []) (decoded : of? front = some frame.content) :
    frame = .pingReq ∧ front = [0xC0] ∧ more = [0x00] := by
  cases frame with
  | publish frame =>
    obtain ⟨_, _, rest, _, _, read⟩ := publish_of_of? decoded
    exact absurd read (PublishFrame.decode_ne_ok_of_short split cut _)
  | subscribe frame =>
    obtain ⟨rest, read⟩ := subscribe_of_of? decoded
    exact absurd read (SubscribeFrame.decode_ne_ok_of_short split cut _)
  | pingReq =>
    have nonempty := ne_nil_of_of? decoded
    match front, more with
    | [], _ => exact absurd rfl nonempty
    | [first], more =>
      simp only [wire, List.cons_append, List.nil_append, List.cons.injEq] at split
      exact ⟨rfl, by rw [split.1], split.2.symm⟩
    | first :: second :: rest, more =>
      simp only [wire, List.cons_append, List.cons.injEq] at split
      exact absurd (List.append_eq_nil_iff.mp split.2.2.symm).2 cut

/-- An octet with its high bit set does not start a PUBLISH packet. -/
theorem shiftRight_ne_of_high {octet : UInt8} (high : 128 ≤ octet.toNat) : octet >>> 4 ≠ 0x03 := by
  intro kind
  have nibble := congrArg UInt8.toNat kind
  rw [UInt8.toNat_shiftRight] at nibble
  simp only [Nat.shiftRight_eq_div_pow] at nibble
  have quotient : octet.toNat / 16 = 3 := nibble
  omega

/-- Octets that start inside a packet and decode to its contents reach beyond its end. -/
theorem length_lt_of_inside {frame : ClientFrame} (plain : frame.Plain) {front buffer more after : Bytes}
    (inside : front ≠ []) (split : front ++ (buffer ++ more) = frame.wire ++ after)
    (decoded : of? buffer = some frame.content) :
    frame.wire.length < (front ++ buffer).length := by
  have started := List.length_pos_iff.mpr inside
  have received := List.length_pos_iff.mpr (ne_nil_of_of? decoded)
  rw [List.length_append]
  cases frame with
  | subscribe frame =>
    obtain ⟨rest, read⟩ := subscribe_of_of? decoded
    have enough := SubscribeFrame.length_le_of_decode plain read
    rw [wire]
    omega
  | publish frame =>
    obtain ⟨first, tail, rest, rfl, kind, read⟩ := publish_of_of? decoded
    have enough := PublishFrame.length_le_of_decode read
    obtain ⟨header, front, rfl⟩ := List.exists_cons_of_ne_nil inside
    simp only [wire, PublishFrame.wire, List.cons_append, List.cons.injEq, List.append_assoc] at split
    rw [wire, PublishFrame.wire, List.length_cons, List.length_append, List.length_cons]
    by_contra behind
    -- The octets would start within the remaining length, before its last octet.
    rw [List.append_cons] at split
    simp only [List.length_cons] at behind enough
    rcases List.append_eq_append_iff.mp split.2 with ⟨back, form, _⟩ | ⟨back, beyond, _⟩
    · have lengths := congrArg List.length form
      simp only [List.length_append, List.length_singleton] at lengths
      have further : back ≠ [] := by
        rintro rfl
        rw [List.length_nil] at lengths
        omega
      rw [List.append_assoc] at form
      exact shiftRight_ne_of_high (Varint.high_of_append form further) kind
    · have lengths := congrArg List.length beyond
      simp only [List.length_append, List.length_singleton] at lengths
      omega
  | pingReq =>
    obtain ⟨first, tail, rfl, kind⟩ := pingReq_of_of? decoded
    cases front with
    | nil => exact absurd rfl inside
    | cons header tail' =>
      cases tail' with
      | nil =>
        simp only [wire, List.cons_append, List.nil_append, List.cons.injEq] at split
        rw [split.2.1] at kind
        exact absurd kind (by decide)
      | cons second others =>
        simp only [wire, List.length_cons, List.length_nil]
        omega

end ClientFrame
end Sipusu.Protocol
