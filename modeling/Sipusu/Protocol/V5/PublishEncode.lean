import Sipusu.Protocol.V5.PublishFrame

/-!
# Encoding PUBLISH packets

The encoder of `src/protocol/v5/publish.rs`. It knows four of the eight properties, and a
block without any of these four gets no length either, for `RemainingLength::encode`
writes no octet for zero.
-/

namespace Sipusu.Protocol.V5

open Sipusu.Foundation

namespace Publish.Properties

/-- `Properties::est_len`. -/
def estLen (properties : Properties) : Nat :=
  (if properties.payloadFormatIndicator.isSome then 2 else 0) +
  (if properties.messageExpiryInterval.isSome then 5 else 0) +
  (properties.contentType.elim 0 fun contentType => 3 + contentType.len) +
  (properties.userProperties.elim 0 fun userProperties =>
    (userProperties.map fun pair => 5 + pair.1.len + pair.2.len).sum)

/-- The loop of `Properties::encode` over the user properties. -/
def encodeUserProperties : List (Str × Str) → Outcome String Bytes
  | [] => .ok []
  | (key, value) :: rest => do
      let key ← encodeUtf8String key
      let value ← encodeUtf8String value
      let rest ← encodeUserProperties rest
      return 0x26 :: (key ++ (value ++ rest))

/-- The content type as `Properties::encode` writes it. -/
def encodeContentType : Option Str → Outcome String Bytes
  | none => .ok []
  | some contentType => do
      let contentType ← encodeUtf8String contentType
      return 0x03 :: contentType

/-- `Properties::encode`. -/
def encode (properties : Properties) : Outcome String Bytes := do
  let propLen := properties.estLen
  let rml ← RemainingLength.encode (UInt32.ofNat propLen)
  let indicator := properties.payloadFormatIndicator.elim [] fun indicator => [0x01, indicator]
  let interval := properties.messageExpiryInterval.elim [] fun interval => 0x02 :: be32 interval
  let contentType ← encodeContentType properties.contentType
  let userProperties ← encodeUserProperties (properties.userProperties.getD [])
  return rml ++ (indicator ++ (interval ++ (contentType ++ userProperties)))

/-- The properties that the encoder writes, in its order. -/
def written (properties : Properties) : List Entry :=
  (properties.payloadFormatIndicator.map Entry.payloadFormatIndicator).toList ++
    ((properties.messageExpiryInterval.map Entry.messageExpiryInterval).toList ++
      ((properties.contentType.map Entry.contentType).toList ++
        (properties.userProperties.getD []).map fun pair => .userProperty pair.1 pair.2))

end Publish.Properties

namespace PublishPacket

/-- The property block as `PublishPacket::encode` writes it. -/
def encodeProperties : Option Publish.Properties → Outcome String Bytes
  | some properties => properties.encode
  | none => .ok [0x00]

/-- The first octet that `PublishPacket::encode` writes. The duplicate flag is shifted onto
a bit that is set anyway. -/
def fixedHeader (packet : PublishPacket) : UInt8 :=
  (0x30 : UInt8) ||| (packet.dup.toUInt8 <<< 4) ||| (packet.qos.code <<< 1) |||
    packet.retain.toUInt8

/-- `PublishPacket::encode`. -/
def encode (packet : PublishPacket) : Outcome String Bytes := do
  let prop ← encodeProperties packet.properties
  let len := 2 + packet.topic.len + prop.length + packet.payload.length +
    if packet.packetId.isSome then 2 else 0
  let rml ← RemainingLength.encode (UInt32.ofNat len)
  let topic ← encodeUtf8String packet.topic
  return packet.fixedHeader ::
    (rml ++ (topic ++ (packet.packetId.elim [] be16 ++ (prop ++ packet.payload))))

/-- The properties of a packet that the encoder writes. -/
def written (packet : PublishPacket) : List Publish.Entry :=
  packet.properties.elim [] Publish.Properties.written

/-- The octets of the property block that the encoder writes. -/
def propertyBlock (packet : PublishPacket) : Bytes :=
  if packet.properties.isSome ∧ packet.written = [] then [] else Publish.block packet.written

/-- What the remaining length of the encoded packet counts. -/
def encodedBody (packet : PublishPacket) : Bytes :=
  lengthPrefixed packet.topic.bytes ++ (packet.packetId.elim [] be16 ++
    (packet.propertyBlock ++ packet.payload))

/-- What the decoder promises of a packet: lengths that fit into their fields, and a packet
identifier exactly above level 0. -/
structure Encodable (packet : PublishPacket) : Prop where
  topicFits : packet.topic.len < 65536
  entriesFit : ∀ entry ∈ packet.written, entry.Fits
  identified : packet.packetId.isSome = true ↔ 0 < packet.qos.code

end PublishPacket

namespace Publish.Properties

/-- The estimate is the length of what is written. -/
theorem estLen_eq (properties : Properties) :
    properties.estLen = (properties.written.flatMap Entry.bytes).length := by
  have users (pairs : List (Str × Str)) :
      ((pairs.map fun pair => Entry.userProperty pair.1 pair.2).flatMap Entry.bytes).length =
        (pairs.map fun pair => 5 + pair.1.len + pair.2.len).sum := by
    induction pairs with
    | nil => rfl
    | cons pair rest inductionHypothesis =>
      rw [List.map_cons, List.flatMap_cons, List.length_append, inductionHypothesis, List.map_cons,
        List.sum_cons]
      simp only [Entry.bytes, Entry.value, List.length_cons, List.length_append,
        length_lengthPrefixed, Str.len]
      omega
  simp only [estLen, written, List.flatMap_append, List.length_append]
  rw [users]
  cases properties.payloadFormatIndicator <;> cases properties.messageExpiryInterval <;>
    cases properties.contentType <;> cases properties.userProperties <;>
    simp [Entry.bytes, Entry.value, Str.len] <;> omega

theorem estLen_pos_iff (properties : Properties) : 0 < properties.estLen ↔ properties.written ≠ [] := by
  rw [estLen_eq, List.length_pos_iff, ne_eq, List.flatMap_eq_nil_iff, not_iff_not]
  constructor
  · intro empty
    exact List.eq_nil_iff_forall_not_mem.mpr fun entry member =>
      List.cons_ne_nil _ _ (empty entry member)
  · intro none entry member
    rw [none] at member
    cases member

theorem encodeUserProperties_eq {pairs : List (Str × Str)}
    (fit : ∀ pair ∈ pairs, pair.1.len < 65536 ∧ pair.2.len < 65536) :
    encodeUserProperties pairs =
      .ok ((pairs.map fun pair => Entry.userProperty pair.1 pair.2).flatMap Entry.bytes) := by
  induction pairs with
  | nil => rfl
  | cons pair rest inductionHypothesis =>
    obtain ⟨⟨keyFits, valueFits⟩, restFit⟩ := List.forall_mem_cons.mp fit
    simp only [encodeUserProperties, encodeUtf8String_eq keyFits, encodeUtf8String_eq valueFits,
      inductionHypothesis restFit, Outcome.ok_bind, Outcome.pure_eq, List.map_cons,
      List.flatMap_cons, Entry.bytes, Entry.identifier, Entry.value, List.cons_append,
      List.append_assoc]

theorem encodeContentType_eq {contentType : Option Str}
    (fits : ∀ text ∈ contentType, text.len < 65536) :
    encodeContentType contentType =
      .ok ((contentType.map Entry.contentType).toList.flatMap Entry.bytes) := by
  cases contentType with
  | none => rfl
  | some text =>
    simp [encodeContentType, encodeUtf8String_eq (fits text rfl), Entry.bytes, Entry.identifier,
      Entry.value]

/-- Properties that fit are encoded as a block, unless there is nothing to write. -/
theorem encode_eq {properties : Properties} (fit : ∀ entry ∈ properties.written, entry.Fits)
    (below : properties.estLen < 4294967296) :
    properties.encode =
      if properties.estLen < RemainingLength.limit then
        .ok (if properties.written = [] then [] else block properties.written)
      else .err RemainingLength.errorEncodeLength := by
  have target : (UInt32.ofNat properties.estLen).toNat = properties.estLen :=
    UInt32.toNat_ofNat_of_lt' below
  have userFit : ∀ pair ∈ properties.userProperties.getD [],
      pair.1.len < 65536 ∧ pair.2.len < 65536 := by
    intro pair member
    apply fit (.userProperty pair.1 pair.2)
    simp only [written, List.mem_append, List.mem_map]
    exact .inr (.inr (.inr ⟨pair, member, rfl⟩))
  have contentFits : ∀ text ∈ properties.contentType, text.len < 65536 := by
    intro text isSome
    apply fit (.contentType text)
    rw [Option.mem_def] at isSome
    simp [written, isSome]
  have rest : (properties.payloadFormatIndicator.elim [] fun indicator => [0x01, indicator]) ++
      ((properties.messageExpiryInterval.elim [] fun interval => 0x02 :: be32 interval) ++
        ((properties.contentType.map Entry.contentType).toList.flatMap Entry.bytes ++
          ((properties.userProperties.getD []).map fun pair =>
            Entry.userProperty pair.1 pair.2).flatMap Entry.bytes)) =
      properties.written.flatMap Entry.bytes := by
    rw [written]
    simp only [List.flatMap_append]
    cases properties.payloadFormatIndicator <;> cases properties.messageExpiryInterval <;>
      simp [Entry.bytes, Entry.identifier, Entry.value]
  rw [encode]
  by_cases positive : 0 < properties.estLen
  · rw [RemainingLength.encode_eq (by rwa [target]), target]
    by_cases small : properties.estLen < RemainingLength.limit
    · have some : properties.written ≠ [] := (estLen_pos_iff properties).mp positive
      rw [if_pos small, if_pos small, if_neg some, block, ← estLen_eq, ← rest]
      simp only [encodeContentType_eq contentFits, encodeUserProperties_eq userFit,
        Outcome.ok_bind, Outcome.pure_eq]
    · rw [if_neg small, if_neg small, Outcome.err_bind]
  · have nothing : properties.written = [] := by
      by_contra some
      exact positive ((estLen_pos_iff properties).mpr some)
    have zero : properties.estLen = 0 := Nat.eq_zero_of_not_pos positive
    have limit : 0 < RemainingLength.limit := Nat.pow_pos (by decide)
    rw [nothing, List.flatMap_nil] at rest
    rw [zero, if_pos limit, if_pos nothing, encodeContentType_eq contentFits,
      encodeUserProperties_eq userFit]
    exact congrArg Outcome.ok rest

theorem estLen_le_size (properties : Properties) : properties.estLen ≤ properties.size := by
  rw [estLen, size]
  cases properties.payloadFormatIndicator <;> cases properties.messageExpiryInterval <;>
    cases properties.userProperties <;> simp <;> omega

/-- Reading another property that fits keeps what is written fitting. -/
theorem written_apply_fit {properties : Properties} {entry : Entry} (fits : entry.Fits)
    (fit : ∀ other ∈ properties.written, other.Fits) :
    ∀ other ∈ (entry.apply properties).written, other.Fits := by
  simp only [written, List.forall_mem_append] at fit ⊢
  obtain ⟨indicator, interval, content, users⟩ := fit
  cases entry with
  | payloadFormatIndicator value => exact ⟨by simp [Entry.apply, Entry.Fits], interval, content, users⟩
  | messageExpiryInterval value => exact ⟨indicator, by simp [Entry.apply, Entry.Fits], content, users⟩
  | contentType description =>
    exact ⟨indicator, interval, by simpa [Entry.apply] using fits, users⟩
  | userProperty key value =>
    refine ⟨indicator, interval, content, ?_⟩
    simp only [Entry.apply, Option.getD_some, List.map_append, List.forall_mem_append]
    exact ⟨users, by simpa using fits⟩
  | topicAlias _ | responseTopic _ | correlationData _ | subscriptionIdentifier _ =>
    exact ⟨indicator, interval, content, users⟩

theorem written_fit_of_whileNonempty {properties final : Properties} {buffer rest : Bytes}
    (result : Reader.whileNonempty decodeEntry properties buffer = .ok (final, rest)) :
    (∀ entry ∈ properties.written, entry.Fits) → ∀ entry ∈ final.written, entry.Fits := by
  refine Reader.whileNonempty_induct decodeEntry_shrinks
    (motive := fun properties _ =>
      (∀ entry ∈ properties.written, entry.Fits) → ∀ entry ∈ final.written, entry.Fits)
    id ?_ result
  intro properties buffer next rest step later fit
  obtain ⟨used, rfl, _, entry, rfl, fits, _⟩ := Entry.decodeEntry_consumes properties step
  exact later (written_apply_fit fits fit)

/-- What is written of a property block fits, in no more octets than the block has. -/
theorem decode_written : Reader.Consumes decode fun properties used =>
    (∀ entry ∈ properties.elim [] written, entry.Fits) ∧
      (block (properties.elim [] written)).length ≤ used.length := by
  refine Reader.Consumes.mono
    (Reader.Consumes.bind RemainingLength.decode_consumes.mapErr decodeOfLength_consumes) ?_
  rintro properties used ⟨propertiesLength, front, back, rfl, ⟨positive, _, bound⟩, rfl, looped⟩
  rw [List.length_append]
  cases properties with
  | none => exact ⟨nofun, Nat.le_add_right_of_le positive⟩
  | some properties =>
    obtain ⟨_, rest, result⟩ := looped properties rfl
    have size := size_le_of_whileNonempty result
    have nothing : empty.size = 0 := rfl
    rw [nothing, Nat.zero_add] at size
    have estimate := Nat.le_trans properties.estLen_le_size size
    refine ⟨written_fit_of_whileNonempty result nofun, ?_⟩
    rw [Option.elim_some, block, List.length_append, ← estLen_eq]
    exact Nat.add_le_add
      (RemainingLength.length_form_le positive (Nat.lt_of_le_of_lt estimate bound)) estimate

end Publish.Properties

namespace PublishPacket

theorem length_encodedBody (packet : PublishPacket) :
    packet.encodedBody.length = 2 + packet.topic.len + packet.propertyBlock.length +
      packet.payload.length + if packet.packetId.isSome then 2 else 0 := by
  rw [encodedBody]
  cases packet.packetId <;> simp [Str.len] <;> omega

theorem encodeProperties_eq {packet : PublishPacket} (encodable : packet.Encodable)
    (small : ∀ given ∈ packet.properties, given.estLen < RemainingLength.limit) :
    encodeProperties packet.properties = .ok packet.propertyBlock := by
  have limit : RemainingLength.limit < 4294967296 := by decide
  cases properties : packet.properties with
  | none =>
    simp [encodeProperties, propertyBlock, written, properties]
    rfl
  | some given =>
    have isWritten : packet.written = given.written := by simp [written, properties]
    have fit : ∀ entry ∈ given.written, entry.Fits := isWritten ▸ encodable.entriesFit
    have bound := small given properties
    rw [encodeProperties, Publish.Properties.encode_eq fit (by omega), if_pos bound]
    simp [propertyBlock, isWritten, properties]

/-- A packet with fields that fit is encoded as its header, the length of its body as a 32-bit
number, and its body. -/
theorem encode_eq_counted {packet : PublishPacket} (encodable : packet.Encodable)
    (small : ∀ given ∈ packet.properties, given.estLen < RemainingLength.limit) :
    packet.encode = RemainingLength.encode (UInt32.ofNat packet.encodedBody.length) >>= fun rml =>
      .ok (packet.fixedHeader :: (rml ++ packet.encodedBody)) := by
  rw [encode, encodeProperties_eq encodable small, Outcome.ok_bind, ← packet.length_encodedBody]
  simp only [encodeUtf8String_eq encodable.topicFits, Outcome.ok_bind, Outcome.pure_eq]
  rfl

theorem estLen_le_propertyBlock {packet : PublishPacket} {given : Publish.Properties}
    (present : packet.properties = some given) : given.estLen ≤ packet.propertyBlock.length := by
  have isWritten : packet.written = given.written := by simp [written, present]
  rw [propertyBlock, isWritten, Publish.Properties.estLen_eq]
  split
  · rw [(‹_› : _ ∧ given.written = []).2]
    exact Nat.zero_le _
  · rw [Publish.block, List.length_append]
    exact Nat.le_add_left _ _

/-- A packet with fields that fit is encoded, unless it is too long. -/
theorem encode_eq {packet : PublishPacket} (encodable : packet.Encodable)
    (below : packet.encodedBody.length < 4294967296) :
    packet.encode =
      if packet.encodedBody.length < RemainingLength.limit then
        .ok (packet.fixedHeader ::
          (RemainingLength.form packet.encodedBody.length ++ packet.encodedBody))
      else .err RemainingLength.errorEncodeLength := by
  have length := packet.length_encodedBody
  by_cases small : ∀ given ∈ packet.properties, given.estLen < RemainingLength.limit
  · have target : (UInt32.ofNat packet.encodedBody.length).toNat = packet.encodedBody.length :=
      UInt32.toNat_ofNat_of_lt' below
    have positive : 0 < (UInt32.ofNat packet.encodedBody.length).toNat := by omega
    rw [encode_eq_counted encodable small, RemainingLength.encode_eq positive, target]
    split <;> rfl
  · -- Properties that are too long are refused before the body is counted.
    simp only [not_forall] at small
    obtain ⟨given, present, large⟩ := small
    have size := estLen_le_propertyBlock present
    have isWritten : packet.written = given.written := by
      rw [written, show packet.properties = some given from present, Option.elim_some]
    have fit : ∀ entry ∈ given.written, entry.Fits := isWritten ▸ encodable.entriesFit
    rw [if_neg (by omega), encode, show packet.properties = some given from present,
      encodeProperties, Publish.Properties.encode_eq fit (by omega), if_neg large, Outcome.err_bind]

theorem length_propertyBlock_le (packet : PublishPacket) :
    packet.propertyBlock.length ≤ (Publish.block packet.written).length := by
  rw [propertyBlock]
  split
  · exact Nat.zero_le _
  · exact Nat.le_refl _

/-- A packet identifier is read exactly above level 0. -/
theorem decodePacketId_consumes (qos : ServiceLevel) :
    Reader.Consumes (decodePacketId qos) fun packetId used =>
      (packetId.isSome = true ↔ 0 < qos.code) ∧ used = packetId.elim [] be16 := by
  unfold decodePacketId
  split
  · refine (Reader.Consumes.getU16.map some).mono ?_
    rintro packetId used ⟨value, rfl, rfl⟩
    exact ⟨iff_of_true rfl ‹_›, rfl⟩
  · refine (Reader.Consumes.pure none).mono ?_
    rintro packetId used ⟨rfl, rfl⟩
    exact ⟨iff_of_false Bool.false_ne_true ‹_›, rfl⟩

/-- A decoded packet has fields that fit, and no longer body than it was decoded from. -/
theorem decode_encodable {buffer rest : Bytes} {packet : PublishPacket}
    (decoded : decode buffer = .ok (packet, rest)) :
    packet.Encodable ∧ packet.encodedBody.length + 2 ≤ buffer.length := by
  obtain ⟨header, tail, n, body, dup, qos, retain, rfl, _, length, _, bodyRead⟩ :=
    PublishFrame.decode_eq_ok decoded
  obtain ⟨front, rfl, positive, _⟩ := RemainingLength.decode_consumes length
  simp only [decodeBody, Reader.bind_apply, Outcome.bind_eq_ok, Prod.exists, Reader.toVec_apply,
    Reader.pure_apply, Outcome.ok.injEq, Prod.mk.injEq] at bodyRead
  obtain ⟨topic, afterTopic, topicRead, packetId, afterId, idRead, properties, afterProperties,
    propertiesRead, payload, _, ⟨rfl, rfl⟩, rfl, _⟩ := bodyRead
  obtain ⟨topicBytes, rfl, topicFits, topicLength⟩ := decodeUtf8String_consumes topicRead
  obtain ⟨idBytes, rfl, identified, rfl⟩ := decodePacketId_consumes qos idRead
  obtain ⟨block, rfl, fit, blockLength⟩ := Publish.Properties.decode_written propertiesRead
  refine ⟨⟨topicFits, fit, identified⟩, ?_⟩
  have shorter := Nat.le_trans (length_propertyBlock_le
    ⟨dup, qos, retain, topic, packetId, afterProperties, properties⟩) blockLength
  rw [encodedBody]
  simp only [List.length_cons, List.length_append, length_lengthPrefixed, Str.len] at *
  omega

theorem decode_fixedHeader (packet : PublishPacket) :
    packet.fixedHeader >>> 4 = 3 ∧
      ServiceLevel.tryFrom ((packet.fixedHeader &&& 0x06) >>> 1) = some packet.qos ∧
      decide (packet.fixedHeader &&& 0x08 ≠ 0) = false ∧
      decide (packet.fixedHeader &&& 0x01 ≠ 0) = packet.retain := by
  unfold fixedHeader
  cases packet.dup <;> cases packet.qos <;> cases packet.retain <;> decide

/-- The decoder behind the header of an encoded packet. -/
theorem decode_encoded {packet : PublishPacket}
    (bound : packet.encodedBody.length < RemainingLength.limit) :
    decode (packet.fixedHeader ::
        (RemainingLength.form packet.encodedBody.length ++ packet.encodedBody)) =
      decodeBody false packet.qos packet.retain packet.encodedBody := by
  obtain ⟨isPublish, level, dup, retain⟩ := packet.decode_fixedHeader
  rw [PublishFrame.decode_header_form isPublish level bound, if_pos (Nat.le_refl _), dup, retain]

/-- The body of an encoded packet up to its property block. -/
theorem decodeBody_encodedBody {packet : PublishPacket} (encodable : packet.Encodable) :
    decodeBody false packet.qos packet.retain packet.encodedBody =
      Publish.Properties.decode (packet.propertyBlock ++ packet.payload) >>= fun result =>
        .ok ({ packet with dup := false, payload := result.2, properties := result.1 }, result.2) := by
  obtain ⟨topicFits, _, identified⟩ := encodable
  have present : packet.packetId =
      if 0 < packet.qos.code then some (packet.packetId.getD 0) else none := by
    cases id : packet.packetId with
    | none =>
      rw [if_neg]
      intro above
      have some := identified.mpr above
      rw [id] at some
      cases some
    | some value => rw [if_pos (identified.mp (by rw [id]; rfl)), Option.getD_some]
  have identifier : packet.packetId.elim [] be16 =
      identifierBytes packet.qos (packet.packetId.getD 0) := by
    rw [present, identifierBytes]
    split <;> rfl
  rw [encodedBody, identifier]
  simp only [decodeBody, Reader.bind_apply, decodeUtf8String_form topicFits, Outcome.ok_bind,
    PublishFrame.decodePacketId_form, ← present, Reader.toVec_apply, Reader.pure_apply]

/-- The level in an encoded packet is the packet's own. -/
theorem qos_of_decode_encoded {packet sent : PublishPacket} {rest : Bytes}
    (encodable : packet.Encodable) (bound : packet.encodedBody.length < RemainingLength.limit)
    (decoded : decode (packet.fixedHeader ::
      (RemainingLength.form packet.encodedBody.length ++ packet.encodedBody)) = .ok (sent, rest)) :
    sent.qos = packet.qos := by
  rw [decode_encoded bound, decodeBody_encodedBody encodable, Outcome.bind_eq_ok] at decoded
  obtain ⟨read, _, same⟩ := decoded
  simp only [Outcome.ok.injEq, Prod.mk.injEq] at same
  rw [← same.1]

/-- An encoded packet with a property block decodes to itself, but for the duplicate flag and
the properties that are not written. -/
theorem decode_encoded_of_written {packet : PublishPacket} (encodable : packet.Encodable)
    (bound : packet.encodedBody.length < RemainingLength.limit)
    (hasBlock : packet.properties = none ∨ packet.written ≠ []) :
    decode (packet.fixedHeader ::
        (RemainingLength.form packet.encodedBody.length ++ packet.encodedBody)) =
      .ok ({ packet with dup := false, properties := Publish.collect packet.written },
        packet.payload) := by
  have block : packet.propertyBlock = Publish.block packet.written := by
    rw [propertyBlock, if_neg]
    rintro ⟨given, nothing⟩
    rcases hasBlock with none | some
    · rw [none] at given
      cases given
    · exact some nothing
  have blockBound : (packet.written.flatMap Publish.Entry.bytes).length < RemainingLength.limit := by
    have length := packet.length_encodedBody
    rw [block, Publish.block, List.length_append] at length
    omega
  rw [decode_encoded bound, decodeBody_encodedBody encodable, block,
    Publish.Properties.decode_block encodable.entriesFit blockBound]
  rfl

/-- Without a property block, octets of the payload are taken for one. -/
theorem decode_encoded_of_unwritten {packet : PublishPacket} (encodable : packet.Encodable)
    (bound : packet.encodedBody.length < RemainingLength.limit)
    (given : packet.properties.isSome = true) (nothing : packet.written = []) {q : PublishPacket}
    {rest : Bytes}
    (decoded : decode (packet.fixedHeader ::
      (RemainingLength.form packet.encodedBody.length ++ packet.encodedBody)) = .ok (q, rest)) :
    q.payload ≠ packet.payload := by
  have block : packet.propertyBlock = [] := if_pos ⟨given, nothing⟩
  rw [decode_encoded bound, decodeBody_encodedBody encodable, block, List.nil_append,
    Outcome.bind_eq_ok] at decoded
  obtain ⟨⟨properties, left⟩, read, same⟩ := decoded
  simp only [Outcome.ok.injEq, Prod.mk.injEq] at same
  obtain ⟨used, split, size⟩ := Publish.Properties.decode_consumes read
  have positive := Publish.Properties.blockSize_pos properties
  intro kept
  have payload : left = packet.payload := by
    rw [← kept, ← same.1]
  have lengths := congrArg List.length split
  rw [List.length_append, payload] at lengths
  omega

end PublishPacket
end Sipusu.Protocol.V5
