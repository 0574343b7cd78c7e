import Sipusu.Protocol.V5.ConnackEntries
import Sipusu.Protocol.V5.LengthCodec

/-!
# The format of CONNACK packets

The test of the encoder lays a packet out octet by octet. It gives the maximum packet size
four octets, of which the encoder writes two. For a packet without properties the encoder
writes an octet for none, and counts that octet as a property.
-/

namespace Sipusu.Protocol.V5

open Sipusu.Foundation

namespace Connack.Entry

/-- A property as `test_encode_connack` lays it out. -/
def expected : Entry → Bytes
  | .maximumPacketSize size => 0x27 :: be32 (UInt32.ofNat size.toNat)
  | entry => entry.bytes

/-- Only the maximum packet size is laid out differently. -/
theorem expected_eq_bytes {entry : Entry} (other : ∀ size, entry ≠ .maximumPacketSize size) :
    entry.expected = entry.bytes := by
  cases entry with
  | maximumPacketSize size => exact absurd rfl (other size)
  | _ => rfl

theorem size_le_length_expected (entry : Entry) : entry.size ≤ entry.expected.length := by
  cases entry with
  | maximumPacketSize size => exact Nat.le_add_right 3 2
  | _ => exact Nat.le_of_eq (length_bytes _).symm

end Connack.Entry

namespace Connack.Properties

theorem maximumPacketSize_mem_written {properties : Properties} {size : UInt16} :
    Entry.maximumPacketSize size ∈ properties.written ↔
      properties.maximumPacketSize = some size := by
  simp [written]

/-- Without a maximum packet size the encoder writes what the test expects. -/
theorem flatMap_expected {properties : Properties} (absent : properties.maximumPacketSize = none) :
    properties.written.flatMap Entry.expected = properties.written.flatMap Entry.bytes := by
  apply List.flatMap_congr
  intro entry member
  apply Entry.expected_eq_bytes
  rintro size rfl
  rw [maximumPacketSize_mem_written, absent] at member
  cases member

theorem size_le_length_expected (properties : Properties) :
    properties.size ≤ (properties.written.flatMap Entry.expected).length := by
  rw [size, List.length_flatMap]
  exact List.sum_le_sum fun entry _ => entry.size_le_length_expected

/-- With a maximum packet size it writes less. -/
theorem size_lt_length_expected {properties : Properties} {size : UInt16}
    (present : properties.maximumPacketSize = some size) :
    properties.size < (properties.written.flatMap Entry.expected).length := by
  rw [Properties.size, List.length_flatMap]
  exact List.sum_lt_sum _ _ (fun entry _ => entry.size_le_length_expected)
    ⟨_, maximumPacketSize_mem_written.mpr present, Nat.lt_add_of_pos_right (Nat.succ_pos 1)⟩

end Connack.Properties

namespace ConnackPacket

/-- The octets behind the property size. -/
def expectedBlock (packet : ConnackPacket) : Bytes :=
  (packet.properties.elim [] Connack.Properties.written).flatMap Connack.Entry.expected

/-- The octets are laid out as the test lays them out, with both lengths in front of what they
count. -/
def Follows (packet : ConnackPacket) (octets : Bytes) : Prop :=
  ∃ length size,
    Varint.Shortest 3 (2 + size.length + packet.expectedBlock.length) length ∧
    Varint.Shortest 3 packet.expectedBlock.length size ∧
    octets = 0x20 :: (length ++ (packet.sessionPresent.toUInt8 :: packet.returnCode ::
      (size ++ packet.expectedBlock)))

/-- There are properties to write, the maximum packet size is not among them, and they are not
too long. -/
def Regular (packet : ConnackPacket) : Prop :=
  ∃ properties, packet.properties = some properties ∧ properties.maximumPacketSize = none ∧
    0 < properties.size ∧ properties.size ≤ 268435449

/-- What the remaining length counts stays below its limit. -/
theorem expectedBlock_le {packet : ConnackPacket} {length size : Bytes}
    (lengthShortest : Varint.Shortest 3 (2 + size.length + packet.expectedBlock.length) length)
    (sizeShortest : Varint.Shortest 3 packet.expectedBlock.length size) :
    packet.expectedBlock.length ≤ 268435449 := by
  have power {used : Bytes} {count : Nat} (le : used.length ≤ count) :
      Varint.value used < 128 ^ count :=
    Nat.lt_of_lt_of_le (Varint.value_lt used) (Nat.pow_le_pow_right (by decide) le)
  have total := power lengthShortest.whole.length_le
  rw [lengthShortest.holds] at total
  by_cases few : size.length ≤ 3
  · have own := power few
    rw [sizeShortest.holds] at own
    omega
  · omega

/-- The octets behind the remaining length, read from a packet that follows the format. -/
theorem Follows.counted {packet : ConnackPacket} {body : Bytes} {n : Nat}
    (bound : n < RemainingLength.limit)
    (follows : packet.Follows (0x20 :: (RemainingLength.form n ++ body))) :
    ∃ size, Varint.Shortest 3 packet.expectedBlock.length size ∧
      packet.expectedBlock.length ≤ 268435449 ∧
      body = packet.sessionPresent.toUInt8 :: packet.returnCode ::
        (size ++ packet.expectedBlock) := by
  obtain ⟨length, size, lengthShortest, sizeShortest, split⟩ := follows
  have decoded := RemainingLength.decode_form bound body
  rw [(List.cons.inj split).2, RemainingLength.decode_shortest lengthShortest] at decoded
  simp only [Outcome.ok.injEq, Prod.mk.injEq] at decoded
  exact ⟨size, sizeShortest, expectedBlock_le lengthShortest sizeShortest, decoded.2.symm⟩

/-- A block behind its size that follows the format is the block that the format has. -/
theorem block_eq {packet : ConnackPacket} {size block : Bytes}
    (bound : block.length < RemainingLength.limit)
    (shortest : Varint.Shortest 3 packet.expectedBlock.length size)
    (split : RemainingLength.form block.length ++ block = size ++ packet.expectedBlock) :
    block = packet.expectedBlock := by
  have decoded := RemainingLength.decode_form bound block
  rw [split, RemainingLength.decode_shortest shortest] at decoded
  simp only [Outcome.ok.injEq, Prod.mk.injEq] at decoded
  exact decoded.2.symm

/-- A packet without properties has an octet too many. -/
theorem not_follows_none {packet : ConnackPacket} (none_ : packet.properties = none)
    {octets : Bytes} (encoded : packet.encode = .ok octets) : ¬ packet.Follows octets := by
  intro follows
  have written : octets = 0x20 :: (RemainingLength.form 4 ++
      [packet.sessionPresent.toUInt8, packet.returnCode, 0x01, 0x00]) := by
    rw [encode, none_] at encoded
    exact (Outcome.ok.inj encoded).symm
  rw [written] at follows
  obtain ⟨size, shortest, _, split⟩ := follows.counted (by decide)
  have block : packet.expectedBlock = [] := by
    rw [expectedBlock, none_]
    rfl
  simp only [List.cons.injEq, true_and] at split
  have same := @block_eq _ _ [0x00] (by decide) shortest split
  rw [block] at same
  cases same

theorem expectedBlock_of_some {packet : ConnackPacket} {properties : Connack.Properties}
    (given : packet.properties = some properties) :
    packet.expectedBlock = properties.written.flatMap Connack.Entry.expected := by
  rw [expectedBlock, given]
  rfl

/-- Properties of a packet that follows the format are neither empty nor too long, and have no
maximum packet size. -/
theorem Follows.regular {packet : ConnackPacket} {properties : Connack.Properties}
    (given : packet.properties = some properties) {octets : Bytes}
    (encoded : packet.encode = .ok octets) (follows : packet.Follows octets) : packet.Regular := by
  have isLimit := RemainingLength.limit_eq
  have longer := properties.size_le_length_expected
  rw [← expectedBlock_of_some given] at longer
  have bound : properties.size ≤ 268435449 := by
    obtain ⟨length, size, lengthShortest, sizeShortest, _⟩ := follows
    exact Nat.le_trans longer (expectedBlock_le lengthShortest sizeShortest)
  obtain ⟨_, rfl⟩ := (encode_eq_ok given bound).mp encoded
  have small : properties.size < RemainingLength.limit := by omega
  have short := Connack.Properties.length_sizeOctets_le small
  obtain ⟨size, shortest, _, split⟩ := follows.counted (by omega)
  simp only [List.cons.injEq, true_and] at split
  have filled : 0 < properties.size := by
    apply Nat.pos_of_ne_zero
    intro zero
    have nothing : properties.written.flatMap Connack.Entry.bytes = [] := by
      apply List.eq_nil_of_length_eq_zero
      rw [Connack.Properties.length_written, zero]
    rw [Connack.Properties.sizeOctets, if_pos zero, nothing] at split
    have positive := shortest.whole.length_pos
    rw [(List.append_eq_nil_iff.mp split.symm).1] at positive
    cases positive
  rw [Connack.Properties.sizeOctets, if_neg (Nat.ne_of_gt filled),
    ← Connack.Properties.length_written] at split
  have same := block_eq (by rw [Connack.Properties.length_written]; exact small) shortest split
  refine ⟨properties, given, ?_, filled, bound⟩
  -- The four octets of a maximum packet size would make the block longer than it is.
  cases present : properties.maximumPacketSize with
  | none => rfl
  | some maximum =>
    have more := Connack.Properties.size_lt_length_expected present
    rw [← expectedBlock_of_some given, ← same, Connack.Properties.length_written] at more
    exact absurd more (Nat.lt_irrefl _)

/-- A regular packet follows the format. -/
theorem Regular.follows {packet : ConnackPacket} (regular : packet.Regular) {octets : Bytes}
    (encoded : packet.encode = .ok octets) : packet.Follows octets := by
  obtain ⟨properties, given, absent, filled, bound⟩ := regular
  have isLimit := RemainingLength.limit_eq
  have small : properties.size < RemainingLength.limit := by omega
  have short := RemainingLength.length_form_le_four small
  have block : packet.expectedBlock = properties.written.flatMap Connack.Entry.bytes := by
    rw [expectedBlock_of_some given, Connack.Properties.flatMap_expected absent]
  have length : packet.expectedBlock.length = properties.size := by
    rw [block, Connack.Properties.length_written]
  have total : 2 + (RemainingLength.form properties.size).length + properties.size =
      properties.size + 2 + (RemainingLength.form properties.size).length := by omega
  obtain ⟨_, rfl⟩ := (encode_eq_ok given bound).mp encoded
  refine ⟨RemainingLength.form (properties.size + 2 +
    (RemainingLength.form properties.size).length), RemainingLength.form properties.size, ?_, ?_, ?_⟩
  · rw [length, total]
    exact RemainingLength.shortest_form (by omega)
  · rw [length]
    exact RemainingLength.shortest_form small
  · rw [withProperties, Connack.Properties.sizeOctets, if_neg (Nat.ne_of_gt filled), block]

/-- The encoder follows the format for regular packets and for no others. -/
theorem follows_format_iff {packet : ConnackPacket} {octets : Bytes}
    (encoded : packet.encode = .ok octets) : packet.Follows octets ↔ packet.Regular := by
  constructor
  · intro follows
    cases given : packet.properties with
    | none => exact absurd follows (not_follows_none given encoded)
    | some properties => exact follows.regular given encoded
  · intro regular
    exact regular.follows encoded

/-- A packet with a limit that the encoder writes as expected. -/
theorem follows_format_iff_limited :
    let packet : ConnackPacket :=
      { sessionPresent := true, returnCode := 0
        properties := some { Connack.Properties.default with receiveMaximum := some 10 } }
    packet.Follows [0x20, 0x06, 0x01, 0x00, 0x03, 0x21, 0x00, 0x0A] := by
  intro packet
  have encoded : packet.encode = .ok [0x20, 0x06, 0x01, 0x00, 0x03, 0x21, 0x00, 0x0A] := by decide
  exact (follows_format_iff encoded).mpr ⟨_, rfl, rfl, by decide, by decide⟩

/-- The maximum packet size of the test, in two octets instead of four. -/
theorem maximum_packet_size_cut :
    let packet : ConnackPacket :=
      { sessionPresent := true, returnCode := 0
        properties := some { Connack.Properties.default with maximumPacketSize := some 256 } }
    packet.encode = .ok [0x20, 0x06, 0x01, 0x00, 0x03, 0x27, 0x01, 0x00] ∧
      ¬ packet.Follows [0x20, 0x06, 0x01, 0x00, 0x03, 0x27, 0x01, 0x00] := by
  intro packet
  refine ⟨by decide, ?_⟩
  rintro ⟨length, size, lengthShortest, sizeShortest, split⟩
  have block : packet.expectedBlock = [0x27, 0x00, 0x00, 0x01, 0x00] := by decide
  have positive := lengthShortest.whole.length_pos
  have some_ := sizeShortest.whole.length_pos
  -- The format has at least ten octets, of which there are eight.
  have octets := congrArg List.length split
  rw [block] at octets
  simp only [List.length_cons, List.length_append, List.length_nil] at octets
  omega

end ConnackPacket
end Sipusu.Protocol.V5
