import Sipusu.MessageBroker.Router
import Sipusu.Protocol.Frame
import Sipusu.Protocol.V5.PublishEncode

/-!
# Forwarding a message

`queue_message` and `Publish::forward` of `src/message_broker/mediator.rs`. The level of
the subscription decides which method of the forwarder is called, but the octets handed
over are those of the packet as it came.
-/

namespace Sipusu.MessageBroker

open Sipusu.Foundation Sipusu.Protocol Sipusu.Protocol.V5

/-- `struct Message`. -/
structure Message where
  packet : PublishPacket
  publisher : Option ClientID
deriving DecidableEq

/-- What `queue_message` puts into the queue. -/
def queueMessage (clid : ClientID) (packet : PublishPacket) : Message :=
  { packet, publisher := if 0 < packet.qos.code then some clid else none }

/-- A call of one of the methods of `SendStrategy`. -/
inductive SendCall where
  | qos0 (subscriber : ClientID) (buffer : Bytes)
  | qos1 (publisher subscriber : ClientID) (packetId : UInt16) (buffer : Bytes)
  | qos2 (publisher subscriber : ClientID) (packetId : UInt16) (buffer : Bytes)
deriving DecidableEq

namespace SendCall

/-- Whom the octets are for. -/
def subscriber : SendCall → ClientID
  | .qos0 subscriber _ | .qos1 _ subscriber _ _ | .qos2 _ subscriber _ _ => subscriber

/-- The octets for the subscriber. -/
def buffer : SendCall → Bytes
  | .qos0 _ buffer | .qos1 _ _ _ buffer | .qos2 _ _ _ buffer => buffer

/-- The call for a level. Below level 1 there is nobody to acknowledge to. -/
def ofLevel (level : ServiceLevel) (publisher subscriber : ClientID) (packetId : UInt16)
    (buffer : Bytes) : SendCall :=
  match level with
  | .qos0 => .qos0 subscriber buffer
  | .qos1 => .qos1 publisher subscriber packetId buffer
  | .qos2 => .qos2 publisher subscriber packetId buffer

theorem subscriber_ofLevel (level : ServiceLevel) (publisher subscriber : ClientID)
    (packetId : UInt16) (buffer : Bytes) :
    (ofLevel level publisher subscriber packetId buffer).subscriber = subscriber := by
  cases level <;> rfl

theorem buffer_ofLevel (level : ServiceLevel) (publisher subscriber : ClientID)
    (packetId : UInt16) (buffer : Bytes) :
    (ofLevel level publisher subscriber packetId buffer).buffer = buffer := by
  cases level <;> rfl

end SendCall

/-- `struct Publish`. -/
structure Publish where
  msg : Message
  subs : SubscriberInstance

namespace Publish

/-- The level after `Publish::forward` has downgraded it. -/
def qos (order : Publish) : ServiceLevel :=
  (ServiceLevel.tryFrom (min order.msg.packet.qos.code order.subs.maxQos.code)).getD .qos0

/-- `Publish::forward` up to its call of the forwarder. -/
def forward (order : Publish) : Outcome String SendCall :=
  match order.qos with
  | .qos0 => do
      let buffer ← order.msg.packet.encode.unwrap
      return .qos0 order.subs.clid buffer
  | level => do
      let publisherId ← Outcome.ofOption order.msg.publisher
      let packetId ← Outcome.ofOption order.msg.packet.packetId
      let buffer ← order.msg.packet.encode.unwrap
      return if level = .qos1 then .qos1 publisherId order.subs.clid packetId buffer
        else .qos2 publisherId order.subs.clid packetId buffer

/-- The forwarder gets octets for the subscriber which decode to the topic and the payload
of the message, at the lower of the two levels, with a packet identifier exactly above
level 0. -/
def Delivered (order : Publish) : Prop :=
  ∃ call sent rest, order.forward = .ok call ∧ call.subscriber = order.subs.clid ∧
    PublishPacket.decode call.buffer = .ok (sent, rest) ∧
    sent.topic = order.msg.packet.topic ∧ sent.payload = order.msg.packet.payload ∧
    sent.qos.code = min order.msg.packet.qos.code order.subs.maxQos.code ∧
    (sent.packetId.isSome = true ↔ 0 < sent.qos.code)

theorem qos_eq (order : Publish) :
    order.qos = if order.msg.packet.qos.code ≤ order.subs.maxQos.code then order.msg.packet.qos
      else order.subs.maxQos := by
  rw [qos]
  cases order.msg.packet.qos <;> cases order.subs.maxQos <;> rfl

/-- Above level 0 a decoded packet has an identifier and its message a publisher. -/
theorem identified_of_qos {clid : ClientID} {packet : PublishPacket} {subs : SubscriberInstance}
    (encodable : packet.Encodable) (above : qos ⟨queueMessage clid packet, subs⟩ ≠ .qos0) :
    (queueMessage clid packet).publisher = some clid ∧
      ∃ packetId, packet.packetId = some packetId := by
  have own : 0 < packet.qos.code := by
    cases level : packet.qos with
    | qos0 =>
      refine absurd ?_ above
      rw [qos_eq, queueMessage, level]
      exact if_pos (UInt8.zero_le)
    | qos1 | qos2 => decide
  exact ⟨if_pos own, Option.isSome_iff_exists.mp (encodable.identified.mpr own)⟩

/-- Nothing but the encoder can stop the forwarding of a packet with an identifier exactly
above level 0. -/
theorem forward_eq {clid : ClientID} {packet : PublishPacket} (subs : SubscriberInstance)
    (encodable : packet.Encodable) :
    forward ⟨queueMessage clid packet, subs⟩ =
      packet.encode.unwrap >>= fun buffer =>
        .ok (.ofLevel (qos ⟨queueMessage clid packet, subs⟩) clid subs.clid
          (packet.packetId.getD 0) buffer) := by
  cases level : qos ⟨queueMessage clid packet, subs⟩ with
  | qos0 =>
    rw [forward, level]
    rfl
  | qos1 | qos2 =>
    have above : qos ⟨queueMessage clid packet, subs⟩ ≠ .qos0 := by
      rw [level]
      decide
    obtain ⟨publisher, packetId, some⟩ := identified_of_qos encodable above
    have own : (queueMessage clid packet).packet = packet := rfl
    rw [forward, level]
    simp [publisher, own, some, SendCall.ofLevel]

/-- A decoded packet is forwarded with its own encoding, unless that is too long. -/
theorem forward_decoded {buffer rest : Bytes} {packet : PublishPacket}
    (decoded : ClientPacketV5.decode buffer = .ok (.publish packet, rest))
    (below : packet.encodedBody.length < 4294967296) (clid : ClientID) (subs : SubscriberInstance) :
    packet.Encodable ∧
      forward ⟨queueMessage clid packet, subs⟩ =
        if packet.encodedBody.length < RemainingLength.limit then
          .ok (.ofLevel (qos ⟨queueMessage clid packet, subs⟩) clid subs.clid
            (packet.packetId.getD 0) (packet.fixedHeader ::
              (RemainingLength.form packet.encodedBody.length ++ packet.encodedBody)))
        else .panic := by
  obtain ⟨_, _, _, _, published⟩ := ClientPacketV5.publish_of_decode decoded
  have encodable := (PublishPacket.decode_encodable published).1
  refine ⟨encodable, ?_⟩
  rw [forward_eq subs encodable, PublishPacket.encode_eq encodable below]
  split <;> rfl

/-- None of the four `unwrap` calls of `Publish::forward` stops it. -/
structure Unstopped (order : Publish) : Prop where
  publisher : order.qos ≠ .qos0 → order.msg.publisher.isSome
  packetId : order.qos ≠ .qos0 → order.msg.packet.packetId.isSome
  encoded : ∃ buffer, order.msg.packet.encode = .ok buffer
  called : ∃ call, order.forward = .ok call

/-- A packet read from one receive buffer is short enough for the encoder, and it was read
with the identifier its level asks for. -/
theorem forward_unstopped {buffer rest : Bytes} {packet : PublishPacket}
    (received : buffer.length ≤ 1024)
    (decoded : ClientPacketV5.decode buffer = .ok (.publish packet, rest)) (clid : ClientID)
    (subs : SubscriberInstance) : Unstopped ⟨queueMessage clid packet, subs⟩ := by
  have limit := RemainingLength.limit_eq
  obtain ⟨_, _, _, _, published⟩ := ClientPacketV5.publish_of_decode decoded
  obtain ⟨encodable, length⟩ := PublishPacket.decode_encodable published
  have below : packet.encodedBody.length < RemainingLength.limit := by omega
  have encoded := PublishPacket.encode_eq encodable (by omega)
  rw [if_pos below] at encoded
  refine ⟨fun above => ?_, fun above => ?_, ⟨_, encoded⟩, ?_⟩
  · rw [(identified_of_qos encodable above).1]
    rfl
  · obtain ⟨_, packetId, some⟩ := identified_of_qos encodable above
    exact Option.isSome_iff_exists.mpr ⟨packetId, some⟩
  · rw [forward_eq subs encodable, encoded]
    exact ⟨_, rfl⟩

/-- A packet is delivered at the lower of the two levels exactly when the subscription's
level is no lower than its own, and, if it has properties, one of them is a property that
the encoder writes. Otherwise the subscriber gets the level and the identifier of the
publisher, or a payload cut short. -/
theorem delivered_iff {buffer rest : Bytes} {packet : PublishPacket}
    (decoded : ClientPacketV5.decode buffer = .ok (.publish packet, rest)) (clid : ClientID)
    (subs : SubscriberInstance) :
    (packet.qos.code ≤ subs.maxQos.code ∧ (packet.properties = none ∨ packet.written ≠ []) ∧
        packet.encodedBody.length < RemainingLength.limit →
      Delivered ⟨queueMessage clid packet, subs⟩) ∧
    (buffer.length ≤ 4294967296 → Delivered ⟨queueMessage clid packet, subs⟩ →
      packet.qos.code ≤ subs.maxQos.code ∧ (packet.properties = none ∨ packet.written ≠ []) ∧
        packet.encodedBody.length < RemainingLength.limit) := by
  have limit : RemainingLength.limit ≤ 4294967296 := by decide
  constructor
  · rintro ⟨level, hasBlock, bound⟩
    obtain ⟨encodable, forwarded⟩ :=
      forward_decoded decoded (Nat.lt_of_lt_of_le bound limit) clid subs
    rw [if_pos bound] at forwarded
    have read := PublishPacket.decode_encoded_of_written encodable bound hasBlock
    exact ⟨_, _, _, forwarded, SendCall.subscriber_ofLevel ..,
      (congrArg PublishPacket.decode (SendCall.buffer_ofLevel ..)).trans read, rfl, rfl,
      ((ServiceLevel.min_code_eq_left_iff _ _).mpr level).symm, encodable.identified⟩
  · rintro short ⟨call, sent, left, forwarded, _, read, _, payload, level, _⟩
    obtain ⟨_, _, _, _, published⟩ := ClientPacketV5.publish_of_decode decoded
    have length := (PublishPacket.decode_encodable published).2
    obtain ⟨encodable, result⟩ := forward_decoded decoded (by omega) clid subs
    rw [result] at forwarded
    by_cases bound : packet.encodedBody.length < RemainingLength.limit
    · rw [if_pos bound, Outcome.ok.injEq] at forwarded
      rw [← forwarded, SendCall.buffer_ofLevel] at read
      refine ⟨?_, ?_, bound⟩
      · have own := PublishPacket.qos_of_decode_encoded encodable bound read
        rw [own] at level
        exact (ServiceLevel.min_code_eq_left_iff _ _).mp level.symm
      · by_contra unwritten
        rw [not_or, not_not] at unwritten
        exact PublishPacket.decode_encoded_of_unwritten encodable bound
          (Option.isSome_iff_ne_none.mpr unwritten.1) unwritten.2 read payload
    · rw [if_neg bound] at forwarded
      cases forwarded

/-- A level 1 packet with identifier 7 on a topic of one letter. -/
def levelOne : Bytes := [0x32, 0x08, 0x00, 0x01, 0x74, 0x00, 0x07, 0x00, 0x68, 0x69]

/-- What these octets decode to. -/
def levelOnePacket : PublishPacket :=
  { dup := false, qos := .qos1, retain := false, topic := ⟨[0x74], RawSubscribe.valid_topic⟩,
    packetId := some 7, payload := [0x68, 0x69], properties := none }

theorem decode_levelOne :
    ClientPacketV5.decode levelOne = .ok (.publish levelOnePacket, [0x68, 0x69]) := rfl

/-- To a subscriber at level 0 they go as they came. -/
theorem forward_levelOne (a b : ClientID) :
    forward ⟨queueMessage a levelOnePacket, ⟨b, .qos0⟩⟩ = .ok (.qos0 b levelOne) := by
  have encoded : levelOnePacket.encode = .ok levelOne := by decide
  have downgraded : qos ⟨queueMessage a levelOnePacket, ⟨b, .qos0⟩⟩ = .qos0 := qos_eq _
  rw [forward, downgraded, queueMessage, encoded]
  rfl

/-- They are forwarded at level 1 to a subscriber that asked for level 2. -/
theorem forward_unstopped_levelOne :
    let a : ClientID := .new ⟨[0x61], by decide⟩
    let b : ClientID := .new ⟨[0x62], by decide⟩
    levelOne.length ≤ 1024 ∧
      ClientPacketV5.decode levelOne = .ok (.publish levelOnePacket, [0x68, 0x69]) ∧
      Unstopped ⟨queueMessage a levelOnePacket, ⟨b, .qos2⟩⟩ := by
  intro a b
  exact ⟨by decide, decode_levelOne, forward_unstopped (by decide) decode_levelOne a ⟨b, .qos2⟩⟩

/-- It reaches a subscriber that asked for level 2. -/
theorem delivered_iff_levelOne :
    let a : ClientID := .new ⟨[0x61], by decide⟩
    let b : ClientID := .new ⟨[0x62], by decide⟩
    ClientPacketV5.decode levelOne = .ok (.publish levelOnePacket, [0x68, 0x69]) ∧
      Delivered ⟨queueMessage a levelOnePacket, ⟨b, .qos2⟩⟩ := by
  intro a b
  exact ⟨decode_levelOne,
    (delivered_iff decode_levelOne a ⟨b, .qos2⟩).1 ⟨by decide, .inl rfl, by decide⟩⟩

/-- A subscriber that asked for level 0 gets level 1, with the publisher's identifier. -/
theorem not_delivered_at_levelZero :
    let a : ClientID := .new ⟨[0x61], by decide⟩
    let b : ClientID := .new ⟨[0x62], by decide⟩
    ClientPacketV5.decode levelOne = .ok (.publish levelOnePacket, [0x68, 0x69]) ∧
      forward ⟨queueMessage a levelOnePacket, ⟨b, .qos0⟩⟩ = .ok (.qos0 b levelOne) ∧
      ¬ Delivered ⟨queueMessage a levelOnePacket, ⟨b, .qos0⟩⟩ := by
  intro a b
  refine ⟨decode_levelOne, forward_levelOne a b, ?_⟩
  rintro ⟨call, sent, rest, result, _, read, _, _, level, _⟩
  rw [forward_levelOne, Outcome.ok.injEq] at result
  have own : PublishPacket.decode levelOne = .ok (levelOnePacket, [0x68, 0x69]) := rfl
  rw [← result, SendCall.buffer, own, Outcome.ok.injEq, Prod.mk.injEq] at read
  rw [← read.1] at level
  revert level
  decide

end Publish
end Sipusu.MessageBroker
