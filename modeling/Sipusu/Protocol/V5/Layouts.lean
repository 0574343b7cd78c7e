import Sipusu.Protocol.V5.Connect
import Sipusu.Protocol.V5.Fields
import Sipusu.Protocol.V5.Publish
import Sipusu.Protocol.V5.Subscribe

/-!
# Layouts of the packets that the broker decodes

The fields of CONNECT, PUBLISH and SUBSCRIBE packets as their decoders take them.
-/

namespace Sipusu.Protocol.V5

open Sipusu.Foundation Sipusu.Foundation.Reader

namespace Connect

/-- The value of the property with an identifier. -/
def propertyValue : UInt8 → Field
  | 0x11 => .octets 4
  | 0x21 => .octets 2
  | 0x27 => .octets 2
  | 0x22 => .octets 2
  | 0x19 => .octets 1
  | 0x17 => .octets 1
  | 0x26 => Fields.textPair
  | 0x15 => Fields.text
  | 0x16 => Fields.binary
  | _ => .refused

/-- The property block: its length, and as many properties as it has octets for. -/
def properties : Field := Fields.sized fun n => .block n (.many (.octet propertyValue))

/-- The name of the protocol behind its length. -/
def nameField : Field where
  whole used := used = lengthPrefixed protocolName.bytes
  cut buffer := buffer.length < 2

/-- The level of the protocol. -/
def levelField : Field where
  whole used := used = [protocolLevel]
  cut buffer := buffer = []

/-- The will, if its flag is set. -/
def will (connectFlags : UInt8) : Field :=
  if connectFlags &&& 0x04 > 0 then .all [properties, Fields.text, Fields.binary] else .nothing

/-- The user name, if its flag is set. -/
def username (connectFlags : UInt8) : Field :=
  if connectFlags &&& 0x80 > 0 then Fields.text else .nothing

/-- The password, if its flag is set. -/
def password (connectFlags : UInt8) : Field :=
  if connectFlags &&& 0x40 > 0 then Fields.binary else .nothing

/-- What stands behind the flags: the keep alive interval, the properties, the client
identifier and what the flags announce. -/
def fields (connectFlags : UInt8) : List Field :=
  [.octets 2, properties, Fields.text, will connectFlags, username connectFlags,
    password connectFlags]

/-- What the remaining length counts. -/
def layout : Field :=
  nameField.andThen (levelField.andThen (.octet fun connectFlags => .all (fields connectFlags)))

theorem decodeEntry_reads (state : Properties) :
    Reads state.decodeEntry (.octet propertyValue) := by
  refine Reads.octet fun identifier => ?_
  split
  · exact Reads.getU32.map _
  · exact Reads.getU16.map _
  · exact Reads.getU16.map _
  · exact Reads.getU16.map _
  · exact Reads.getU8.map _
  · exact Reads.getU8.map _
  · exact decodeStringPair_reads.map _
  · exact decodeUtf8String_reads.map _
  · exact decodeBinaryData_reads.map _
  · rw [propertyValue] <;> first | assumption | exact Reads.fail _

theorem decodeEntry_shrinks : Shrinks Properties.decodeEntry :=
  shrinks_of_reads decodeEntry_reads (Field.not_whole_octet_nil _)

theorem decodeProperties_reads : Reads decodeProperties properties :=
  RemainingLength.decode_sized fun n =>
    (Reads.many decodeEntry_reads (Field.not_whole_octet_nil _) Properties.empty).block n

theorem decodeWill_reads (connectFlags : UInt8) :
    Reads (ConnectPacket.decodeWill connectFlags) (will connectFlags) := by
  refine Reads.ite (fun _ => ?_) fun _ => Reads.pure _
  exact decodeProperties_reads.bind fun _ => decodeUtf8String_reads.bind fun _ =>
    decodeBinaryData_reads.bind fun _ => Reads.pure _

theorem decodeUsername_reads (connectFlags : UInt8) :
    Reads (ConnectPacket.decodeUsername connectFlags) (username connectFlags) :=
  Reads.ite (fun _ => decodeUtf8String_reads.map some) fun _ => Reads.pure none

theorem decodePassword_reads (connectFlags : UInt8) :
    Reads (ConnectPacket.decodePassword connectFlags) (password connectFlags) :=
  Reads.ite (fun _ => decodeBinaryData_reads.map some) fun _ => Reads.pure none

theorem decodeBody_reads (name : Str) (level : UInt8) :
    Reads (ConnectPacket.decodeBody name level)
      (.octet fun connectFlags => .all (fields connectFlags)) := by
  refine Reads.octet fun connectFlags => ?_
  refine Reads.getU16.bind fun keepAlive => ?_
  refine decodeProperties_reads.bind fun properties => ?_
  refine decodeUtf8String_reads.bind fun clientId => ?_
  refine (decodeWill_reads connectFlags).bind fun will => ?_
  refine (decodeUsername_reads connectFlags).bind fun username => ?_
  exact (decodePassword_reads connectFlags).bind fun password => Reads.pure _

theorem decodeProtocol_reads : Reads ConnectPacket.decodeProtocol layout := by
  refine decodeUtf8String_yields.expect ?_ (fun _ => Iff.rfl) ?_
  · intro used
    exact ⟨fun same => ⟨by decide, same⟩, And.right⟩
  · exact Yields.getU8.expect (fun _ => Iff.rfl) (fun _ => Iff.rfl) (decodeBody_reads _ _)

end Connect

namespace Publish

/-- The value of the property with an identifier. -/
def propertyValue : UInt8 → Field
  | 0x01 => .octets 1
  | 0x02 => .octets 4
  | 0x23 => .octets 2
  | 0x08 => Fields.text
  | 0x09 => Fields.binary
  | 0x26 => Fields.textPair
  | 0x0B => Fields.number
  | 0x03 => Fields.text
  | _ => .refused

/-- The property block, which is refused when the buffer is shorter. -/
def properties : Field := Fields.sized fun n =>
  if n = 0 then .nothing else .checkedBlock n (.many (.octet propertyValue))

/-- The packet identifier, which only packets above level 0 have. -/
def packetId (qos : ServiceLevel) : Field := if 0 < qos.code then .octets 2 else .nothing

/-- The topic, the packet identifier and the properties. The payload behind them may be
of any length. -/
def layout (qos : ServiceLevel) : Field := .all [Fields.text, packetId qos, properties]

theorem decodeEntry_reads (state : Properties) :
    Reads state.decodeEntry (.octet propertyValue) := by
  refine Reads.octet fun identifier => ?_
  split
  · exact Reads.getU8.map _
  · exact Reads.getU32.map _
  · exact Reads.getU16.map _
  · exact decodeUtf8String_reads.map _
  · exact decodeBinaryData_reads.map _
  · exact decodeStringPair_reads.map _
  · exact RemainingLength.decode_reads.map _
  · exact decodeUtf8String_reads.map _
  · rw [propertyValue] <;> first | assumption | exact Reads.fail _

theorem decodeProperties_reads : Reads Properties.decode properties := by
  refine (RemainingLength.decode_yields.mapErr _).bind fun n => ?_
  refine Reads.ite (fun _ => Reads.pure none) fun _ => ?_
  have entries := Reads.many decodeEntry_reads (Field.not_whole_octet_nil _) Properties.empty
  exact (entries.map some).checkedBlock n _

theorem decodePacketId_reads (qos : ServiceLevel) :
    Reads (PublishPacket.decodePacketId qos) (packetId qos) :=
  Reads.ite (fun _ => Reads.getU16.map some) fun _ => Reads.pure none

theorem decodeBody_reads (dup : Bool) (qos : ServiceLevel) (retain : Bool) :
    Reads (PublishPacket.decodeBody dup qos retain) (layout qos) := by
  refine decodeUtf8String_reads.bind fun topic => ?_
  refine (decodePacketId_reads qos).bind fun packetId => ?_
  refine decodeProperties_reads.bind fun properties => ?_
  exact Reads.toVec.map _

end Publish

namespace SubscribePacket

/-- A topic filter behind its length. One that claims more octets than there are is not
refused. -/
def topicFilter : Field where
  whole := Fields.text.whole
  cut buffer := buffer.length < 2 ∨
    ∃ len rest, buffer = be16 len ++ rest ∧ rest.length < len.toNat

/-- The options of a filter, whose two low bits are a level. -/
def options : Field :=
  .octet fun options => .provided ((ServiceLevel.tryFrom (options &&& 0x3)).isSome = true) .nothing

/-- The packet identifier, an octet for the length of the properties, and topic filters with
their options. -/
def bodyLayout : Field :=
  (Field.octets 2).andThen ((Field.octets 1).andThen (.many (topicFilter.andThen options)))

/-- The remaining length and what it counts. -/
def layout : Field := Fields.sized fun n => .block n bodyLayout

/-- The topic filter of one turn of the loop. -/
def decodeTopicFilter : Reader Malformed Str := do
  let topicFilterLen ← Reader.getU16
  let topicFilterBytes ← Reader.splitTo topicFilterLen.toNat
  Reader.ofOption .malformedPacket (Str.fromUtf8? topicFilterBytes)

theorem decodeTopicFilter_reads : Reads decodeTopicFilter topicFilter where
  returns buffer rest := by
    constructor
    · rintro ⟨topic, read⟩
      have steps := Consumes.getU16.bind fun len => (Consumes.splitTo len.toNat).bind fun octets =>
        Consumes.ofOption Malformed.malformedPacket (Str.fromUtf8? octets)
      obtain ⟨_, split, len, _, _, rfl, rfl, octets, _, _, rfl, ⟨rfl, length⟩, valid, rfl⟩ :=
        steps read
      rw [Str.fromUtf8?_eq_some] at valid
      rw [valid] at length split
      have fits : topic.len < 65536 := Nat.lt_of_le_of_lt (Nat.le_of_eq length) len.toNat_lt
      have same : UInt16.ofNat topic.bytes.length = len := by rw [length, UInt16.ofNat_toNat]
      rw [List.append_nil, ← same] at split
      exact ⟨_, split, topic, fits, rfl⟩
    · rintro ⟨_, rfl, topic, fits, rfl⟩
      have length : (UInt16.ofNat topic.bytes.length).toNat = topic.bytes.length :=
        UInt16.toNat_ofNat_of_lt' fits
      exact ⟨topic, by simp [decodeTopicFilter, lengthPrefixed, length]⟩
  aborts buffer := by
    rw [decodeTopicFilter, bind_eq_panic, Yields.getU16.aborts]
    refine or_congr Iff.rfl ?_
    have second : ∀ (len : UInt16) (rest : Bytes),
        (splitTo len.toNat >>= fun octets =>
          Reader.ofOption Malformed.malformedPacket (Str.fromUtf8? octets)) rest = .panic ↔
            rest.length < len.toNat := by
      intro len rest
      rw [bind_eq_panic, (Yields.splitTo len.toNat).aborts]
      refine or_iff_left ?_
      rintro ⟨octets, left, _, aborted⟩
      cases found : Str.fromUtf8? octets with
      | none =>
        rw [found] at aborted
        cases aborted
      | some topic =>
        rw [found] at aborted
        cases aborted
    constructor
    · rintro ⟨len, rest, first, aborted⟩
      obtain ⟨_, split, rfl⟩ := Consumes.getU16 first
      exact ⟨len, rest, split, (second len rest).mp aborted⟩
    · rintro ⟨len, rest, rfl, short⟩
      exact ⟨len, rest, getU16_be16 len rest, (second len rest).mpr short⟩

theorem decodeFilter_reads (subscriptions : List Subscribe) :
    Reads (decodeFilter subscriptions) (topicFilter.andThen options) := by
  have turn : decodeFilter subscriptions = decodeTopicFilter >>= fun topic => Reader.getU8 >>=
      fun options => Reader.ofOption .qosNotSupported (ServiceLevel.tryFrom (options &&& 0x3)) >>=
        fun maxQos => pure (subscriptions ++ [⟨topic, maxQos⟩]) := by
    simp only [decodeTopicFilter, bind_assoc]
    rfl
  rw [turn]
  exact decodeTopicFilter_reads.bind fun topic => Reads.octet fun options =>
    Reads.ofOption fun maxQos => Reads.pure _

theorem decodeBody_fills : Fills decodeBody bodyLayout := by
  refine Reads.getU16.fills fun packetIdentifier => Reads.getU8.fills fun propLeng => ?_
  have nonempty : ¬ (topicFilter.andThen options).whole [] := by
    rintro ⟨front, back, split, _, whole⟩
    obtain ⟨rfl, rfl⟩ := List.append_eq_nil_iff.mp split.symm
    exact Field.not_whole_octet_nil _ whole
  exact (Reads.many decodeFilter_reads nonempty []).map _

/-- What is dropped behind the body aborts nothing. -/
theorem skipHeader_eq_panic_iff (buffer : Bytes) :
    skipHeader buffer = .panic ↔ layout.cut buffer := by
  have reads : Reads ((RemainingLength.decode.mapErr fun _ => Malformed.protocolError) >>= fun n =>
      Reader.splitTo n >>= fun own => Reader.within own decodeBody) layout :=
    (RemainingLength.decode_yields.mapErr _).bind fun n => decodeBody_fills.block n
  rw [← reads.aborts, skipHeader_apply, bind_apply]
  cases (RemainingLength.decode.mapErr fun _ => Malformed.protocolError) buffer with
  | err error | panic => exact Iff.rfl
  | ok length =>
    rw [Outcome.ok_bind, Outcome.ok_bind, bind_apply]
    cases (Reader.splitTo length.1 : Reader Malformed Bytes) length.2 with
    | err error | panic => exact Iff.rfl
    | ok body =>
      rw [Outcome.ok_bind, Outcome.ok_bind]
      exact within_eq_panic.symm

end SubscribePacket
end Sipusu.Protocol.V5
