import Sipusu.Protocol.V5

/-!
# PUBLISH packets

The decoder of `src/protocol/v5/publish.rs`. The remaining length is only checked
against the buffer: the payload is all that is left of it.
-/

namespace Sipusu.Protocol.V5

open Sipusu.Foundation

namespace Publish

/-- `publish::Properties`. -/
structure Properties where
  payloadFormatIndicator : Option UInt8
  messageExpiryInterval : Option UInt32
  topicAlias : Option UInt16
  responseTopic : Option Str
  correlationData : Option Bytes
  userProperties : Option (List (Str × Str))
  subscriptionIdentifier : Option (List Nat)
  contentType : Option Str
deriving DecidableEq

namespace Properties

/-- The properties before any is read. -/
def empty : Properties :=
  { payloadFormatIndicator := none, messageExpiryInterval := none, topicAlias := none,
    responseTopic := none, correlationData := none, userProperties := none,
    subscriptionIdentifier := none, contentType := none }

/-- One turn of the loop of `Properties::decode`. -/
def decodeEntry (properties : Properties) : Reader String Properties := do
  let identifier ← Reader.getU8
  match identifier with
  | 0x01 =>
      let indicator ← Reader.getU8
      return { properties with payloadFormatIndicator := some indicator }
  | 0x02 =>
      let interval ← Reader.getU32
      return { properties with messageExpiryInterval := some interval }
  | 0x23 =>
      let topicAlias ← Reader.getU16
      return { properties with topicAlias := some topicAlias }
  | 0x08 =>
      let topic ← decodeUtf8String
      return { properties with responseTopic := some topic }
  | 0x09 =>
      let data ← decodeBinaryData
      return { properties with correlationData := some data }
  | 0x26 =>
      let userProps ← decodeStringPair
      return { properties with
        userProperties := some (properties.userProperties.getD [] ++ [userProps]) }
  | 0x0B =>
      let subscription ← RemainingLength.decode
      return { properties with subscriptionIdentifier := some [subscription] }
  | 0x03 =>
      let contentType ← decodeUtf8String
      return { properties with contentType := some contentType }
  | _ => Reader.fail "Unknown property identifier"

/-- `Properties::decode` behind the length. -/
def decodeOfLength (propertiesLength : Nat) : Reader String (Option Properties) :=
  if propertiesLength = 0 then return none
  else do
    let remaining ← Reader.remaining
    Reader.ensure (propertiesLength ≤ remaining) "Buffer too short for properties"
    let bufProp ← Reader.splitTo propertiesLength
    Reader.within bufProp do
      let properties ← Reader.whileNonempty decodeEntry empty
      return some properties

/-- `Properties::decode`. -/
def decode : Reader String (Option Properties) := do
  let propertiesLength ← RemainingLength.decode.mapErr fun _ => "Failed to decode properties length"
  decodeOfLength propertiesLength

end Properties
end Publish

/-- `struct PublishPacket`. -/
structure PublishPacket where
  dup : Bool
  qos : ServiceLevel
  retain : Bool
  topic : Str
  packetId : Option UInt16
  payload : Bytes
  properties : Option Publish.Properties
deriving DecidableEq

namespace PublishPacket

/-- The packet identifier, which only packets above level 0 have. -/
def decodePacketId (qos : ServiceLevel) : Reader String (Option UInt16) :=
  if 0 < qos.code then do
    let packetId ← Reader.getU16
    return some packetId
  else return none

/-- `PublishPacket::decode` behind the fixed header. -/
def decodeBody (dup : Bool) (qos : ServiceLevel) (retain : Bool) : Reader String PublishPacket := do
  let topic ← decodeUtf8String
  let packetId ← decodePacketId qos
  let properties ← Publish.Properties.decode
  let payload ← Reader.toVec
  return { dup, qos, retain, topic, packetId, payload, properties }

/-- `PublishPacket::decode`. -/
def decode : Reader String PublishPacket := do
  let available ← Reader.remaining
  Reader.ensure (2 ≤ available) "Buffer too short"
  let header ← Reader.getU8
  Reader.ensure (header >>> 4 = 3) "Invalid packet type for PUBLISH"
  let dup := header &&& 0x08 ≠ 0
  let qos ← Reader.ofOption "QoS not Supported" (ServiceLevel.tryFrom ((header &&& 0x06) >>> 1))
  let retain := header &&& 0x01 ≠ 0
  let remainingLength ←
    RemainingLength.decode.mapErr fun _ => "Failed to decode remaining length"
  let available ← Reader.remaining
  Reader.ensure (remainingLength ≤ available) "Buffer too short for remaining length"
  decodeBody dup qos retain

end PublishPacket
end Sipusu.Protocol.V5
