import Sipusu.Protocol.V5.AckParser

/-!
# Subscription acknowledgements are read back

The parser of SUBACK packets expects a length of the properties even when there are none.
The encoder writes no octet for an empty block, so the parser takes return codes for one.
-/

namespace Sipusu.Protocol.V5

open Sipusu.Foundation

/-- The result that a return code stands for. -/
def resultOfCode : UInt8 → Option SubAckResult
  | 0x00 => some (.ok .qos0)
  | 0x01 => some (.ok .qos1)
  | 0x02 => some (.ok .qos2)
  | 0x80 => some (.error .unspecifiedError)
  | 0x83 => some (.error .implSpecificError)
  | 0x87 => some (.error .notAuthorized)
  | 0x8F => some (.error .topicFilterInvalid)
  | 0x91 => some (.error .packetIdentifierInUse)
  | 0x97 => some (.error .quotaExceeded)
  | 0x9E => some (.error .sharedSubsUnsupported)
  | 0xA1 => some (.error .subsIdUnSupported)
  | 0xA2 => some (.error .wildcardSubsUnSupported)
  | _ => none

theorem resultOfCode_returnCode (result : SubAckResult) :
    resultOfCode (returnCode result) = some result := by
  rcases result with reason | level
  · cases reason <;> rfl
  · cases level <;> rfl

namespace Suback

/-- What a subscription acknowledgement says. -/
structure Content where
  id : UInt16
  properties : Ack.Properties
  returnCodes : List SubAckResult

/-- The return codes, one an octet. -/
def parseCodes : Reader String (List SubAckResult) := do
  let left ← Reader.remaining
  let codes ← Reader.splitTo left
  Reader.ofOption "unknown return code" (codes.mapM resultOfCode)

/-- The property block: its length, and as many octets of properties. -/
def parseBlock : Reader String Ack.Properties := do
  let size ← RemainingLength.decode
  let own ← Reader.splitTo size
  Reader.within own Ack.parseProperties

/-- A parser of subscription acknowledgements. -/
def parse : Reader String Content := do
  let header ← Reader.getU8
  Reader.ensure (header = 0x90) "not a subscription acknowledgement"
  let remainingLength ← RemainingLength.decode
  let left ← Reader.remaining
  Reader.ensure (remainingLength = left) "remaining length is not that of the rest"
  let id ← Reader.getU16
  let properties ← parseBlock
  let returnCodes ← parseCodes
  return { id, properties, returnCodes }

theorem parseCodes_map (results : List SubAckResult) :
    parseCodes (results.map returnCode) = .ok (results, []) := by
  have codes : (results.map returnCode).mapM resultOfCode = some results := by
    induction results with
    | nil => rfl
    | cons result rest inductionHypothesis =>
      simp [List.mapM_cons, resultOfCode_returnCode, inductionHypothesis]
  have all : (Reader.splitTo (results.map returnCode).length : Reader String Bytes)
      (results.map returnCode) = .ok (results.map returnCode, []) := by
    simpa using Reader.splitTo_append (results.map returnCode) []
  rw [parseCodes, Reader.bind_apply, Reader.remaining_apply, Outcome.ok_bind, Reader.bind_apply, all,
    Outcome.ok_bind, codes, Reader.ofOption_some]

theorem length_of_mapM {codes : Bytes} {results : List SubAckResult}
    (read : codes.mapM resultOfCode = some results) : results.length = codes.length := by
  induction codes generalizing results with
  | nil =>
    obtain rfl : [] = results := Option.some.inj read
    rfl
  | cons code codes inductionHypothesis =>
    simp only [List.mapM_cons, Option.bind_eq_bind, Option.bind_eq_some_iff, Option.pure_def,
      Option.some.injEq] at read
    obtain ⟨result, _, others, othersRead, rfl⟩ := read
    rw [List.length_cons, List.length_cons, inductionHypothesis othersRead]

/-- There are as many results as octets. -/
theorem parseCodes_consumes : Reader.Consumes parseCodes fun results used =>
    results.length = used.length := by
  refine Reader.Consumes.mono (Reader.Consumes.remaining.bind fun left =>
    (Reader.Consumes.splitTo left).bind fun codes => Reader.Consumes.ofOption _ _) ?_
  rintro results used ⟨left, _, _, rfl, rfl, codes, _, _, rfl, ⟨rfl, _⟩, read, rfl⟩
  simpa using length_of_mapM read

/-- A property block takes at least the octet of its length. -/
theorem parseBlock_consumes : Reader.Consumes parseBlock fun _ used => used ≠ [] := by
  refine Reader.Consumes.mono (RemainingLength.decode_consumes.bind fun size =>
    (Reader.Consumes.splitTo size).bind fun own => Reader.Consumes.within) ?_
  rintro properties used ⟨size, front, back, rfl, ⟨positive, _⟩, _⟩
  exact List.append_ne_nil_of_left_ne_nil (List.length_pos_iff.mp positive) back

/-- What stands behind the packet identifier. -/
def parseBody (id : UInt16) : Reader String Content := do
  let properties ← parseBlock
  let returnCodes ← parseCodes
  return { id, properties, returnCodes }

/-- A packet whose remaining length is that of the rest. -/
theorem parse_counted {id : UInt16} {body : Bytes}
    (bound : 2 + body.length < RemainingLength.limit) :
    parse (0x90 :: (RemainingLength.form (2 + body.length) ++ (be16 id ++ body))) =
      parseBody id body := by
  have rest : 2 + body.length = (be16 id ++ body).length := by
    rw [List.length_append, length_be16]
  simp only [parse, parseBody, Reader.bind_apply, Reader.getU8_cons, Outcome.ok_bind,
    Reader.ensure_apply, if_true, RemainingLength.decode_form bound, Reader.remaining_apply,
    if_pos rest, Reader.getU16_be16]

/-- A packet that is read has no more octets than its remaining length can count. -/
theorem length_of_parse {octets rest : Bytes} {content : Content}
    (read : parse octets = .ok (content, rest)) : octets.length < 5 + RemainingLength.limit := by
  simp only [parse, Reader.bind_apply, Outcome.bind_eq_ok, Prod.exists, Reader.getU8_eq_ok,
    Reader.ensure_eq_ok, Reader.remaining_apply, Outcome.ok.injEq, Prod.mk.injEq] at read
  obtain ⟨header, _, rfl, _, _, ⟨_, rfl⟩, n, left, length, _, _, ⟨rfl, rfl⟩, _, _, ⟨rfl, rfl⟩, _⟩ :=
    read
  obtain ⟨used, rfl, _, few, bound⟩ := RemainingLength.decode_consumes length
  have power : 128 ^ used.length ≤ RemainingLength.limit := Nat.pow_le_pow_right (by omega) few
  rw [List.length_cons, List.length_append]
  omega

end Suback

namespace SubsAck

/-- What an acknowledgement says. Missing properties are the same as empty ones. -/
def content (ack : SubsAck) : Suback.Content :=
  { id := ack.id
    properties := ack.properties.elim .empty fun properties => Ack.ofPuback
      { reasonString := properties.reasonString, userProperties := properties.userProperties }
    returnCodes := ack.returnCodes }

/-- The octets that the properties of an acknowledgement take. -/
def propertySize (ack : SubsAck) : Nat := ack.properties.elim 0 SubAckProperties.len

/-- The octets of an acknowledgement behind its remaining length. -/
def bodySize (ack : SubsAck) : Nat :=
  2 + (RemainingLength.form ack.propertySize).length + ack.propertySize + ack.returnCodes.length

theorem len_eq_size (properties : SubAckProperties) :
    properties.len = Ack.size
      { reasonString := properties.reasonString, userProperties := properties.userProperties } := by
  have reason : (properties.reasonString.elim 0 fun reason => reason.len + 3) =
      properties.reasonString.elim 0 fun reason => 3 + reason.len := by
    simp only [Nat.add_comm]
  have users : (properties.userProperties.elim 0 fun uprop =>
      (uprop.map fun pair => pair.1.len + pair.2.len + 5).sum) =
        pairsSize (properties.userProperties.getD []) := by
    have each (pair : Str × Str) : pair.1.len + pair.2.len + 5 = 5 + pair.1.len + pair.2.len := by
      omega
    simp only [each]
    cases properties.userProperties <;> rfl
  rw [SubAckProperties.len, Ack.size, reason, users]

/-- The properties of an acknowledgement that is encoded. -/
theorem properties_eq_ok {ack : SubsAck} {prop : Bytes}
    (encoded : ack.properties.elim (.ok []) SubAckProperties.encode = .ok prop) :
    prop.length = ack.propertySize ∧
      Ack.parseProperties prop = .ok (ack.content.properties, []) := by
  rw [propertySize, content]
  cases present : ack.properties with
  | none =>
    rw [present, Option.elim_none, Outcome.ok.injEq] at encoded
    rw [← encoded]
    exact ⟨rfl, rfl⟩
  | some properties =>
    rw [present, Option.elim_some, SubAckProperties.encode, Ack.encodeProperties_eq_ok] at encoded
    obtain ⟨fit, rfl⟩ := encoded
    exact ⟨by rw [Ack.length_written, Option.elim_some, len_eq_size],
      Ack.parseProperties_written fit⟩

/-- A property block behind its length, and return codes. -/
theorem parseBody_block {id : UInt16} {prop : Bytes} {properties : Ack.Properties}
    (bound : prop.length < RemainingLength.limit)
    (parsed : Ack.parseProperties prop = .ok (properties, [])) (results : List SubAckResult) :
    Suback.parseBody id (RemainingLength.form prop.length ++ (prop ++ results.map returnCode)) =
      .ok (⟨id, properties, results⟩, []) := by
  simp only [Suback.parseBody, Suback.parseBlock, Reader.bind_apply,
    RemainingLength.decode_form bound, Outcome.ok_bind, Reader.splitTo_append, Reader.within_apply,
    parsed, Suback.parseCodes_map, Reader.pure_apply]

/-- Without a length in front of them, a return code is lost to the property block. -/
theorem parseBody_codes_ne {id : UInt16} {properties : Ack.Properties}
    {results : List SubAckResult} :
    Suback.parseBody id (results.map returnCode) ≠ .ok (⟨id, properties, results⟩, []) := by
  intro read
  simp only [Suback.parseBody, Reader.bind_apply, Outcome.bind_eq_ok, Prod.exists,
    Reader.pure_apply, Outcome.ok.injEq, Prod.mk.injEq, Suback.Content.mk.injEq] at read
  obtain ⟨_, left, block, codes, _, codesRead, ⟨_, _, rfl⟩, _⟩ := read
  obtain ⟨front, split, taken⟩ := Suback.parseBlock_consumes block
  obtain ⟨used, rfl, length⟩ := Suback.parseCodes_consumes codesRead
  have total := congrArg List.length split
  have positive := List.length_pos_iff.mpr taken
  simp only [List.length_map, List.length_append] at total
  omega

/-- An acknowledgement that is encoded is read back exactly when it has properties, and is
short enough for its remaining length. -/
theorem suback_read_back_iff {ack : SubsAck} {octets : Bytes} (encoded : ack.encode = .ok octets) :
    Suback.parse octets = .ok (ack.content, []) ↔
      0 < ack.propertySize ∧ ack.bodySize ≤ 268435455 := by
  obtain ⟨prop, written, encoded⟩ := Outcome.bind_eq_ok.mp encoded
  obtain ⟨propLen, propCounted, encoded⟩ := Outcome.bind_eq_ok.mp encoded
  obtain ⟨remainingLeng, counted, encoded⟩ := Outcome.bind_eq_ok.mp encoded
  obtain ⟨size, parsed⟩ := properties_eq_ok written
  rw [Outcome.pure_eq, Outcome.ok.injEq] at encoded
  have isLimit := RemainingLength.limit_eq
  by_cases bound : prop.length + propLen.length + ack.returnCodes.length + 2 <
    RemainingLength.limit
  · have propBound : prop.length < RemainingLength.limit := by omega
    have positive : prop.length + propLen.length + ack.returnCodes.length + 2 ≠ 0 :=
      Nat.succ_ne_zero _
    rw [RemainingLength.encode_of_size bound, if_neg positive, Outcome.ok.injEq] at counted
    rw [RemainingLength.encode_of_size propBound, Outcome.ok.injEq] at propCounted
    have total : prop.length + propLen.length + ack.returnCodes.length + 2 =
        2 + (propLen ++ (prop ++ ack.returnCodes.map returnCode)).length := by
      simp only [List.length_append, List.length_map]
      omega
    rw [total] at counted bound
    rw [← encoded, ← counted, Suback.parse_counted bound]
    by_cases empty : prop.length = 0
    · obtain rfl := List.eq_nil_of_length_eq_zero empty
      rw [if_pos empty] at propCounted
      rw [← propCounted, List.nil_append, List.nil_append]
      exact iff_of_false parseBody_codes_ne fun condition => by omega
    · rw [if_neg empty] at propCounted
      rw [← propCounted] at bound ⊢
      rw [parseBody_block propBound parsed, bodySize, ← size]
      refine iff_of_true rfl ⟨Nat.pos_of_ne_zero empty, ?_⟩
      simp only [List.length_append, List.length_map] at bound
      omega
  · -- The number of octets is only written modulo `2 ^ 32`.
    have wrapped := RemainingLength.le_of_encode_eq_ok counted
    rw [UInt32.toNat_ofNat'] at wrapped
    refine iff_of_false ?_ ?_
    · intro read
      have length := Suback.length_of_parse read
      rw [← encoded] at length
      simp only [List.length_cons, List.length_append, length_be16, List.length_map] at length
      omega
    · rintro ⟨positive, short⟩
      have propBound : prop.length < RemainingLength.limit := by
        rw [bodySize] at short
        omega
      rw [RemainingLength.encode_of_size propBound, if_neg (by omega), Outcome.ok.injEq] at propCounted
      rw [bodySize, ← size, propCounted] at short
      omega

/-- An acknowledgement with a reason is read back. -/
theorem suback_read_back_iff_reason :
    let ack : SubsAck :=
      { id := 7, properties := some ⟨some ⟨[0x6F, 0x6B], by decide⟩, none⟩
        returnCodes := [.ok .qos1] }
    Suback.parse [0x90, 0x09, 0x00, 0x07, 0x05, 0x1F, 0x00, 0x02, 0x6F, 0x6B, 0x01] =
      .ok (ack.content, []) := by
  intro ack
  have encoded : ack.encode =
      .ok [0x90, 0x09, 0x00, 0x07, 0x05, 0x1F, 0x00, 0x02, 0x6F, 0x6B, 0x01] := by decide
  exact (suback_read_back_iff encoded).mpr ⟨by decide, by decide⟩

/-- The answer to a subscription, which has no properties. -/
theorem suback_without_properties_unread :
    let ack : SubsAck := { id := 7, properties := none, returnCodes := [.ok .qos1] }
    ack.encode = .ok [0x90, 0x03, 0x00, 0x07, 0x01] ∧
      Suback.parse [0x90, 0x03, 0x00, 0x07, 0x01] ≠ .ok (ack.content, []) := by
  refine ⟨rfl, ?_⟩
  have aborted : Suback.parse [0x90, 0x03, 0x00, 0x07, 0x01] = .panic := rfl
  rw [aborted]
  exact nofun

end SubsAck
end Sipusu.Protocol.V5
