import Sipusu.Protocol.V5.PublishEncode

/-!
# The sizes that an encoded PUBLISH packet declares

`est_len` and `encode` go over the same properties without one another, and the remaining
length adds up parts that are written in different places. Both count what is written,
also when the property block has no length in front of it.
-/

namespace Sipusu.Protocol.V5

open Sipusu.Foundation

namespace Publish.Properties

theorem length_encodeContentType {contentType : Option Str} {octets : Bytes}
    (encoded : encodeContentType contentType = .ok octets) :
    octets.length = contentType.elim 0 fun text => 3 + text.len := by
  cases contentType with
  | none =>
    cases encoded
    rfl
  | some text =>
    obtain ⟨content, written, result⟩ := Outcome.bind_eq_ok.mp encoded
    obtain ⟨_, rfl⟩ := encodeUtf8String_eq_ok.mp written
    cases result
    simp only [List.length_cons, length_lengthPrefixed, Option.elim_some, Str.len]
    omega

theorem length_encodeUserProperties {pairs : List (Str × Str)} {octets : Bytes}
    (encoded : encodeUserProperties pairs = .ok octets) :
    octets.length = (pairs.map fun pair => 5 + pair.1.len + pair.2.len).sum := by
  induction pairs generalizing octets with
  | nil =>
    cases encoded
    rfl
  | cons pair rest inductionHypothesis =>
    simp only [encodeUserProperties, Outcome.bind_eq_ok, encodeUtf8String_eq_ok] at encoded
    obtain ⟨_, ⟨_, rfl⟩, _, ⟨_, rfl⟩, others, later, result⟩ := encoded
    cases result
    rw [List.length_cons, List.length_append, List.length_append, inductionHypothesis later,
      length_lengthPrefixed, length_lengthPrefixed, List.map_cons, List.sum_cons]
    simp only [Str.len]
    omega

/-- The estimate counts what follows the length. -/
theorem length_of_encode {properties : Properties} {octets : Bytes}
    (encoded : properties.encode = .ok octets) :
    ∃ rml body, RemainingLength.encode (UInt32.ofNat properties.estLen) = .ok rml ∧
      octets = rml ++ body ∧ body.length = properties.estLen := by
  simp only [encode, Outcome.bind_eq_ok] at encoded
  obtain ⟨rml, length, contentType, content, userProperties, users, result⟩ := encoded
  cases result
  refine ⟨rml, _, length, rfl, ?_⟩
  have contentSize := length_encodeContentType content
  have userSize := length_encodeUserProperties users
  have indicatorSize : (properties.payloadFormatIndicator.elim [] fun indicator =>
      [0x01, indicator]).length = if properties.payloadFormatIndicator.isSome then 2 else 0 := by
    cases properties.payloadFormatIndicator <;> rfl
  have intervalSize : (properties.messageExpiryInterval.elim [] fun interval =>
      0x02 :: be32 interval).length = if properties.messageExpiryInterval.isSome then 5 else 0 := by
    cases properties.messageExpiryInterval <;> rfl
  have userEstimate : properties.userProperties.elim 0 (fun userProperties =>
      (userProperties.map fun pair => 5 + pair.1.len + pair.2.len).sum) = userProperties.length := by
    rw [userSize]
    cases properties.userProperties <;> rfl
  rw [estLen, List.length_append, List.length_append, List.length_append, indicatorSize,
    intervalSize, contentSize, userEstimate]
  omega

end Publish.Properties

namespace RemainingLength

/-- A length that fits into a number is read back in front of as many octets. -/
theorem decode_counted {rml body : Bytes} (positive : 0 < body.length)
    (below : body.length < 4294967296)
    (encoded : encode (UInt32.ofNat body.length) = .ok rml) :
    decode (rml ++ body) = .ok (body.length, body) := by
  have target : (UInt32.ofNat body.length).toNat = body.length := UInt32.toNat_ofNat_of_lt' below
  rw [encode_eq (by rwa [target]), target] at encoded
  split at encoded
  · cases encoded
    exact decode_form ‹_› body
  · cases encoded

end RemainingLength

namespace PublishPacket

/-- The remaining length is that of what follows it, as long as this is a 32-bit number. -/
theorem remainingLength_of_encode {packet : PublishPacket} {octets : Bytes}
    (encoded : packet.encode = .ok octets) (below : octets.length < 4294967296) :
    ∃ rest body, octets = packet.fixedHeader :: rest ∧
      RemainingLength.decode rest = .ok (body.length, body) := by
  simp only [encode, Outcome.bind_eq_ok, encodeUtf8String_eq_ok] at encoded
  obtain ⟨prop, _, rml, length, _, ⟨_, rfl⟩, result⟩ := encoded
  cases result
  have size : (lengthPrefixed packet.topic.bytes ++ (packet.packetId.elim [] be16 ++
      (prop ++ packet.payload))).length =
      2 + packet.topic.len + prop.length + packet.payload.length +
        if packet.packetId.isSome then 2 else 0 := by
    cases packet.packetId <;> simp [Str.len] <;> omega
  rw [List.length_cons, List.length_append] at below
  rw [← size] at length
  exact ⟨_, _, rfl, RemainingLength.decode_counted (by omega) (by omega) length⟩

/-- The length of an encoded property block and the remaining length of an encoded packet
are those of the octets behind them. -/
theorem declared_sizes_match :
    (∀ (properties : Publish.Properties) (octets : Bytes), properties.estLen < 4294967296 →
      properties.encode = .ok octets →
        ∃ rml body, RemainingLength.encode (UInt32.ofNat properties.estLen) = .ok rml ∧
          octets = rml ++ body ∧ body.length = properties.estLen) ∧
    ∀ (packet : PublishPacket) (octets : Bytes), packet.encode = .ok octets →
      octets.length < 4294967296 → ∃ rest body, octets = packet.fixedHeader :: rest ∧
        RemainingLength.decode rest = .ok (body.length, body) :=
  ⟨fun _ _ _ encoded => Publish.Properties.length_of_encode encoded,
    fun _ _ encoded below => remainingLength_of_encode encoded below⟩

/-- The payload `a` to the topic `t`, with the payload format as its only property. -/
def samplePublish : PublishPacket :=
  { dup := false, qos := .qos0, retain := false, topic := ⟨[0x74], rfl⟩, packetId := none,
    payload := [0x61],
    properties := some { Publish.Properties.empty with payloadFormatIndicator := some 1 } }

theorem declared_sizes_match_sample :
    (∃ rml body, RemainingLength.encode 2 = .ok rml ∧
      ([0x02, 0x01, 0x01] : Bytes) = rml ++ body ∧ body.length = 2) ∧
    ∃ rest body,
      ([0x30, 0x07, 0x00, 0x01, 0x74, 0x02, 0x01, 0x01, 0x61] : Bytes) = 0x30 :: rest ∧
        RemainingLength.decode rest = .ok (body.length, body) :=
  ⟨declared_sizes_match.1 { Publish.Properties.empty with payloadFormatIndicator := some 1 } _
      (by decide) (by decide +kernel),
    declared_sizes_match.2 samplePublish _ (by decide +kernel) (by decide)⟩

end PublishPacket
end Sipusu.Protocol.V5
