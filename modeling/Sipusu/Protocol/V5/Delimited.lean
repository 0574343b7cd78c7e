import Sipusu.Foundation.Suffix
import Sipusu.Protocol.V5.Layouts

/-!
# Packets and what follows them

The remaining length says where a packet ends. Only the decoder of SUBSCRIBE packets stops
there: the other two check the length against the buffer and then read on, so octets that
follow a packet can become its payload or complete its fields.
-/

namespace Sipusu.Protocol.V5

open Sipusu.Foundation Sipusu.Foundation.Reader

/-- A packet with as many octets as its remaining length counts. -/
structure DelimitedPacket where
  header : UInt8
  length : Bytes
  body : Bytes
  whole : Varint.Whole 3 length
  counted : Varint.value length = body.length

namespace DelimitedPacket

/-- The octets of a packet. -/
def bytes (packet : DelimitedPacket) : Bytes := packet.header :: (packet.length ++ packet.body)

theorem bytes_append (packet : DelimitedPacket) (more : Bytes) :
    packet.bytes ++ more = packet.header :: (packet.length ++ (packet.body ++ more)) := by
  rw [bytes, List.cons_append, List.append_assoc]

theorem two_le_length (packet : DelimitedPacket) (more : Bytes) :
    2 ≤ (packet.bytes ++ more).length := by
  have positive := packet.whole.length_pos
  rw [packet.bytes_append]
  simp only [List.length_cons, List.length_append]
  omega

/-- The remaining length, whatever follows it. -/
theorem length_read {ε : Type} {reader : Reader ε Nat}
    (yields : Yields reader (fun n used => Varint.Whole 3 used ∧ n = Varint.value used)
      (Varint.Cut 3)) (packet : DelimitedPacket) (rest : Bytes) :
    reader (packet.length ++ rest) = .ok (packet.body.length, rest) :=
  (yields.returns _ _ rest).mpr ⟨packet.length, rfl, packet.whole, packet.counted.symm⟩

/-- A check of the length against octets that start with the body succeeds. -/
theorem checked {ε α : Type} (packet : DelimitedPacket) (error : ε) (next : Reader ε α)
    (more : Bytes) :
    (remaining >>= fun available => Reader.ensure (packet.body.length ≤ available) error >>= fun _ =>
      next) (packet.body ++ more) = next (packet.body ++ more) := by
  have enough : packet.body.length ≤ (packet.body ++ more).length := by
    rw [List.length_append]
    exact Nat.le_add_right _ _
  rw [bind_apply, remaining_apply, Outcome.ok_bind, bind_apply, ensure_apply, if_pos enough,
    Outcome.ok_bind]

end DelimitedPacket

namespace Connect

theorem decodeProperties_stable : Stable decodeProperties :=
  RemainingLength.decode_yields.stable.bind fun n =>
    (Yields.splitTo n).stable.bind fun own => Stable.within own

theorem decodeWill_stable (connectFlags : UInt8) :
    Stable (ConnectPacket.decodeWill connectFlags) := by
  refine Stable.ite ?_ (Stable.pure _)
  exact decodeProperties_stable.bind fun _ => decodeUtf8String_yields.stable.bind fun _ =>
    decodeBinaryData_yields.stable.bind fun _ => Stable.pure _

theorem decodeUsername_stable (connectFlags : UInt8) :
    Stable (ConnectPacket.decodeUsername connectFlags) :=
  Stable.ite (decodeUtf8String_yields.stable.bind fun _ => Stable.pure _) (Stable.pure _)

theorem decodePassword_stable (connectFlags : UInt8) :
    Stable (ConnectPacket.decodePassword connectFlags) :=
  Stable.ite (decodeBinaryData_yields.stable.bind fun _ => Stable.pure _) (Stable.pure _)

/-- Every field says by itself where it ends. -/
theorem decodeProtocol_stable : Stable ConnectPacket.decodeProtocol := by
  refine decodeUtf8String_yields.stable.bind fun name => ?_
  refine (Stable.ensure _ _).bind fun _ => ?_
  refine Yields.getU8.stable.bind fun level => ?_
  refine (Stable.ensure _ _).bind fun _ => ?_
  refine Yields.getU8.stable.bind fun connectFlags => ?_
  refine Yields.getU16.stable.bind fun keepAlive => ?_
  refine decodeProperties_stable.bind fun properties => ?_
  refine decodeUtf8String_yields.stable.bind fun clientId => ?_
  refine (decodeWill_stable connectFlags).bind fun will => ?_
  refine (decodeUsername_stable connectFlags).bind fun username => ?_
  exact (decodePassword_stable connectFlags).bind fun password => Stable.pure _

/-- No field of a CONNECT packet reaches into what follows the packet. -/
def SuffixIgnored (packet : DelimitedPacket) (more : Bytes) : Prop :=
  packet.header >>> 4 = 1 →
    (∀ front rest, packet.body ++ more = front ++ rest → layout.whole front →
      front.length ≤ packet.body.length) ∧
    (layout.cut packet.body ↔ layout.cut (packet.body ++ more))

theorem decode_delimited {packet : DelimitedPacket} (isConnect : packet.header >>> 4 = 1)
    (more : Bytes) :
    ConnectPacket.decode (packet.bytes ++ more) =
      ConnectPacket.decodeProtocol (packet.body ++ more) := by
  rw [packet.bytes_append, ConnectPacket.decode, bind_apply, getU8_cons, Outcome.ok_bind, bind_apply,
    ensure_apply, if_pos isConnect, Outcome.ok_bind, bind_apply,
    packet.length_read RemainingLength.decode_yields, Outcome.ok_bind]
  exact packet.checked _ _ more

theorem sameResult_iff (packet : DelimitedPacket) (more : Bytes) :
    SameResult (ConnectPacket.decode packet.bytes) (ConnectPacket.decode (packet.bytes ++ more)) ↔
      SuffixIgnored packet more := by
  by_cases isConnect : packet.header >>> 4 = 1
  · have own := decode_delimited isConnect []
    rw [List.append_nil, List.append_nil] at own
    rw [own, decode_delimited isConnect,
      sameResult_append_iff decodeProtocol_reads decodeProtocol_stable]
    exact ⟨fun holds _ => holds, fun ignored => ignored isConnect⟩
  · have refused (rest : Bytes) : ConnectPacket.decode (packet.header :: rest) =
        .err "Invalid packet type for CONNECT" := by
      rw [ConnectPacket.decode, bind_apply, getU8_cons, Outcome.ok_bind, bind_apply, ensure_apply,
        if_neg isConnect]
      rfl
    rw [packet.bytes_append, DelimitedPacket.bytes, refused, refused]
    exact iff_of_true trivial fun accepted => absurd accepted isConnect

end Connect

namespace Publish

/-- The payload is all that is left. -/
theorem decodeBody_payload {dup retain : Bool} {qos : ServiceLevel} {buffer rest : Bytes}
    {packet : PublishPacket}
    (decoded : PublishPacket.decodeBody dup qos retain buffer = .ok (packet, rest)) :
    packet.payload = rest := by
  obtain ⟨topic, _, _, decoded⟩ := bind_eq_ok.mp decoded
  obtain ⟨packetId, _, _, decoded⟩ := bind_eq_ok.mp decoded
  obtain ⟨properties, left, _, decoded⟩ := bind_eq_ok.mp decoded
  simp only [bind_apply, toVec_apply, Outcome.ok_bind, pure_apply, Outcome.ok.injEq,
    Prod.mk.injEq] at decoded
  rw [← decoded.1, ← decoded.2]

/-- Nothing follows a PUBLISH packet, or the packet is no better with it than without. -/
def SuffixIgnored (packet : DelimitedPacket) (more : Bytes) : Prop :=
  ∀ qos, packet.header >>> 4 = 3 →
    ServiceLevel.tryFrom ((packet.header &&& 0x06) >>> 1) = some qos →
      more = [] ∨ (∀ front rest, packet.body ++ more = front ++ rest → ¬ (layout qos).whole front) ∧
        ((layout qos).cut packet.body ↔ (layout qos).cut (packet.body ++ more))

/-- What the decoder does behind an octet for the header. -/
theorem decode_header {packet : DelimitedPacket} (isPublish : packet.header >>> 4 = 3)
    (more : Bytes) :
    PublishPacket.decode (packet.bytes ++ more) =
      (Reader.ofOption "QoS not Supported" (ServiceLevel.tryFrom ((packet.header &&& 0x06) >>> 1)) >>=
        fun qos => PublishPacket.decodeBody (packet.header &&& 0x08 ≠ 0) qos
          (packet.header &&& 0x01 ≠ 0)) (packet.body ++ more) := by
  rw [PublishPacket.decode, bind_apply, remaining_apply, Outcome.ok_bind, bind_apply, ensure_apply,
    if_pos (packet.two_le_length more), Outcome.ok_bind, packet.bytes_append, bind_apply,
    getU8_cons, Outcome.ok_bind, bind_apply, ensure_apply, if_pos isPublish, Outcome.ok_bind, bind_apply]
  cases ServiceLevel.tryFrom ((packet.header &&& 0x06) >>> 1) with
  | none => rfl
  | some qos =>
    rw [ofOption_some, Outcome.ok_bind, bind_apply,
      packet.length_read (RemainingLength.decode_yields.mapErr _), Outcome.ok_bind,
      bind_apply (Reader.ofOption _ _), ofOption_some, Outcome.ok_bind]
    exact packet.checked _ _ more

theorem decode_other {packet : DelimitedPacket} (isOther : ¬ packet.header >>> 4 = 3)
    (more : Bytes) :
    PublishPacket.decode (packet.bytes ++ more) = .err "Invalid packet type for PUBLISH" := by
  rw [PublishPacket.decode, bind_apply, remaining_apply, Outcome.ok_bind, bind_apply, ensure_apply,
    if_pos (packet.two_le_length more), Outcome.ok_bind, packet.bytes_append, bind_apply, getU8_cons,
    Outcome.ok_bind, bind_apply, ensure_apply, if_neg isOther]
  rfl

theorem sameResult_iff (packet : DelimitedPacket) (more : Bytes) :
    SameResult (PublishPacket.decode packet.bytes) (PublishPacket.decode (packet.bytes ++ more)) ↔
      SuffixIgnored packet more := by
  by_cases isPublish : packet.header >>> 4 = 3
  · have own := decode_header isPublish []
    rw [List.append_nil, List.append_nil] at own
    rw [own, decode_header isPublish]
    cases level : ServiceLevel.tryFrom ((packet.header &&& 0x06) >>> 1) with
    | none =>
      refine iff_of_true trivial fun qos _ accepted => ?_
      rw [level] at accepted
      cases accepted
    | some qos =>
      have body := sameResult_append_iff_of_rest
        (decodeBody_reads (packet.header &&& 0x08 ≠ 0) qos (packet.header &&& 0x01 ≠ 0))
        decodeBody_payload packet.body more
      refine Iff.trans body ⟨fun holds other _ accepted => ?_, fun ignored => ignored qos isPublish level⟩
      rw [level, Option.some.injEq] at accepted
      rw [← accepted]
      exact holds
  · have own := decode_other isPublish []
    rw [List.append_nil] at own
    rw [own, decode_other isPublish]
    exact iff_of_true trivial fun qos accepted => absurd accepted isPublish

end Publish

namespace SubscribePacket

/-- The body is split off before it is read. -/
theorem decode_delimited {packet : DelimitedPacket} (isSubscribe : packet.header >>> 4 = 0x08)
    (more : Bytes) :
    SubscribePacket.decode (packet.bytes ++ more) = decodeBody packet.body := by
  rw [packet.bytes_append, SubscribePacket.decode, bind_apply, getU8_cons, Outcome.ok_bind,
    bind_apply, ensure_apply, if_pos isSubscribe, Outcome.ok_bind, skipHeader_apply,
    packet.length_read (RemainingLength.decode_yields.mapErr _), Outcome.ok_bind,
    splitTo_append, Outcome.ok_bind]

theorem sameResult (packet : DelimitedPacket) (more : Bytes) :
    SameResult (SubscribePacket.decode packet.bytes)
      (SubscribePacket.decode (packet.bytes ++ more)) := by
  by_cases isSubscribe : packet.header >>> 4 = 0x08
  · have own := decode_delimited isSubscribe []
    rw [List.append_nil] at own
    rw [own, decode_delimited isSubscribe]
    exact SameResult.refl _
  · have refused (rest : Bytes) :
        SubscribePacket.decode (packet.header :: rest) = .err .protocolError := by
      rw [SubscribePacket.decode, bind_apply, getU8_cons, Outcome.ok_bind, bind_apply, ensure_apply,
        if_neg isSubscribe]
      rfl
    rw [packet.bytes_append, DelimitedPacket.bytes, refused, refused]
    trivial

end SubscribePacket

/-- The decoder of SUBSCRIBE packets ignores what follows a packet; those of PUBLISH and CONNECT
packets do exactly under their conditions. -/
theorem suffix_ignored_iff (packet : DelimitedPacket) (more : Bytes) :
    SameResult (SubscribePacket.decode packet.bytes)
        (SubscribePacket.decode (packet.bytes ++ more)) ∧
      (SameResult (PublishPacket.decode packet.bytes)
          (PublishPacket.decode (packet.bytes ++ more)) ↔ Publish.SuffixIgnored packet more) ∧
      (SameResult (ConnectPacket.decode packet.bytes)
          (ConnectPacket.decode (packet.bytes ++ more)) ↔ Connect.SuffixIgnored packet more) :=
  ⟨SubscribePacket.sameResult packet more, Publish.sameResult_iff packet more,
    Connect.sameResult_iff packet more⟩

/-- A PUBLISH packet whose payload is empty. -/
def emptyPublish : DelimitedPacket :=
  { header := 0x30, length := [0x04], body := [0x00, 0x01, 0x74, 0x00]
    whole := ⟨[], 0x04, rfl, by decide, nofun, by decide⟩
    counted := rfl }

/-- The octet behind the packet becomes its payload. -/
theorem suffix_becomes_payload :
    ¬ ∀ (packet : DelimitedPacket) (more : Bytes), SameResult (PublishPacket.decode packet.bytes)
      (PublishPacket.decode (packet.bytes ++ more)) := by
  intro ignored
  have same := ignored emptyPublish [0x68]
  have own : PublishPacket.decode emptyPublish.bytes =
      .ok ({ dup := false, qos := .qos0, retain := false, topic := ⟨[0x74], by decide⟩,
             packetId := none, payload := [], properties := none }, []) := rfl
  have longer : PublishPacket.decode (emptyPublish.bytes ++ [0x68]) =
      .ok ({ dup := false, qos := .qos0, retain := false, topic := ⟨[0x74], by decide⟩,
             packetId := none, payload := [0x68], properties := none }, [0x68]) := rfl
  rw [own, longer] at same
  cases congrArg PublishPacket.payload (show _ = _ from same)

end Sipusu.Protocol.V5
