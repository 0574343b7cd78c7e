import Sipusu.Protocol.V5

/-!
# CONNACK packets

The encoder of `src/protocol/v5/connack.rs`, which writes the properties that are present in
a fixed order, and the decoder that the tests of that file read packets with.
-/

namespace Sipusu.Protocol.V5

open Sipusu.Foundation

namespace Connack

/-- `connack::Properties`. -/
structure Properties where
  sessionExpiryInterval : Option UInt32
  receiveMaximum : Option UInt16
  maximumQos : Option UInt8
  retainAvailable : Option UInt8
  maximumPacketSize : Option UInt16
  assignedClientIdentifier : Option Str
  topicAliasMaximum : Option UInt16
  reasonString : Option Str
  userProperties : Option (List (Str × Str))
  wildcardSubscriptionAvailable : Option UInt8
  subscriptionIdentifierAvailable : Option UInt8
  sharedSubscriptionAvailable : Option UInt8
  serverKeepAlive : Option UInt16
  responseInformation : Option Str
  serverReference : Option Str
  authenticationMethod : Option Str
  authenticationData : Option Bytes
deriving DecidableEq

namespace Properties

/-- `Properties::default`. -/
def default : Properties :=
  { sessionExpiryInterval := none, receiveMaximum := none, maximumQos := none,
    retainAvailable := none, maximumPacketSize := none, assignedClientIdentifier := none,
    topicAliasMaximum := none, reasonString := none, userProperties := none,
    wildcardSubscriptionAvailable := none, subscriptionIdentifierAvailable := none,
    sharedSubscriptionAvailable := none, serverKeepAlive := none, responseInformation := none,
    serverReference := none, authenticationMethod := none, authenticationData := none }

/-- An octet behind an identifier. -/
def octet (identifier : UInt8) (value : Option UInt8) : Bytes :=
  value.elim [] fun value => [identifier, value]

/-- A 16-bit number behind an identifier. -/
def number (identifier : UInt8) (value : Option UInt16) : Bytes :=
  value.elim [] fun value => identifier :: be16 value

/-- A string behind an identifier. -/
def text (identifier : UInt8) : Option Str → Outcome String Bytes
  | none => .ok []
  | some value => do
      let value ← encodeUtf8String value
      return identifier :: value

/-- The loop over the user properties. -/
def encodeUserProperties : List (Str × Str) → Outcome String Bytes
  | [] => .ok []
  | (key, value) :: rest => do
      let key ← encodeUtf8String key
      let value ← encodeUtf8String value
      let rest ← encodeUserProperties rest
      return 0x26 :: (key ++ (value ++ rest))

/-- The authentication data behind its identifier. -/
def encodeAuthenticationData : Option Bytes → Outcome String Bytes
  | none => .ok []
  | some data => do
      let data ← encodeBinaryData data
      return 0x16 :: data

/-- The properties as `ConnackPacket::encode` writes them. -/
def encode (properties : Properties) : Outcome String Bytes := do
  let interval := properties.sessionExpiryInterval.elim [] fun interval => 0x11 :: be32 interval
  let assigned ← text 0x12 properties.assignedClientIdentifier
  let reason ← text 0x1F properties.reasonString
  let userProperties ← encodeUserProperties (properties.userProperties.getD [])
  let information ← text 0x1A properties.responseInformation
  let reference ← text 0x1C properties.serverReference
  let method ← text 0x15 properties.authenticationMethod
  let data ← encodeAuthenticationData properties.authenticationData
  return interval ++ number 0x21 properties.receiveMaximum ++ octet 0x24 properties.maximumQos ++
    octet 0x25 properties.retainAvailable ++ number 0x27 properties.maximumPacketSize ++
    assigned ++ number 0x22 properties.topicAliasMaximum ++ reason ++ userProperties ++
    octet 0x28 properties.wildcardSubscriptionAvailable ++
    octet 0x29 properties.subscriptionIdentifierAvailable ++
    octet 0x2A properties.sharedSubscriptionAvailable ++ number 0x13 properties.serverKeepAlive ++
    information ++ reference ++ method ++ data

/-- One turn of the loop of `decode_properties`. -/
def decodeEntry (properties : Properties) : Reader String Properties := do
  let identifier ← Reader.getU8
  match identifier with
  | 0x11 =>
      let interval ← Reader.getU32
      return { properties with sessionExpiryInterval := some interval }
  | 0x21 =>
      let maximum ← Reader.getU16
      return { properties with receiveMaximum := some maximum }
  | 0x24 =>
      let qos ← Reader.getU8
      return { properties with maximumQos := some qos }
  | 0x25 =>
      let retain ← Reader.getU8
      return { properties with retainAvailable := some retain }
  | 0x27 =>
      let size ← Reader.getU16
      return { properties with maximumPacketSize := some size }
  | 0x12 =>
      let value ← decodeUtf8String
      return { properties with assignedClientIdentifier := some value }
  | 0x22 =>
      let maximum ← Reader.getU16
      return { properties with topicAliasMaximum := some maximum }
  | 0x1F =>
      let value ← decodeUtf8String
      return { properties with reasonString := some value }
  | 0x26 =>
      let userProps ← decodeStringPair
      return { properties with
        userProperties := some (properties.userProperties.getD [] ++ [userProps]) }
  | 0x28 =>
      let wildcard ← Reader.getU8
      return { properties with wildcardSubscriptionAvailable := some wildcard }
  | 0x29 =>
      let identifiers ← Reader.getU8
      return { properties with subscriptionIdentifierAvailable := some identifiers }
  | 0x2A =>
      let shared ← Reader.getU8
      return { properties with sharedSubscriptionAvailable := some shared }
  | 0x13 =>
      let keepAlive ← Reader.getU16
      return { properties with serverKeepAlive := some keepAlive }
  | 0x1A =>
      let value ← decodeUtf8String
      return { properties with responseInformation := some value }
  | 0x1C =>
      let value ← decodeUtf8String
      return { properties with serverReference := some value }
  | 0x15 =>
      let value ← decodeUtf8String
      return { properties with authenticationMethod := some value }
  | 0x16 =>
      let value ← decodeBinaryData
      return { properties with authenticationData := some value }
  | _ => Reader.fail "Unknown property identifier"

/-- `decode_properties` behind the length, of which it only asks whether it is zero. -/
def decodeOfLength (propertyLength : Nat) : Reader String (Option Properties) :=
  if propertyLength = 0 then return none
  else do
    let properties ← Reader.whileNonempty decodeEntry default
    return some properties

/-- `decode_properties`. -/
def decode : Reader String (Option Properties) := do
  let available ← Reader.remaining
  if available = 0 then return none
  else do
    let propertyLength ←
      RemainingLength.decode.mapErr fun _ => "Failed to decode property length"
    decodeOfLength propertyLength

end Properties
end Connack

/-- `struct ConnackPacket`. -/
structure ConnackPacket where
  sessionPresent : Bool
  returnCode : UInt8
  properties : Option Connack.Properties
deriving DecidableEq

namespace ConnackPacket

/-- `ConnackPacket::default`. -/
def default : ConnackPacket := { sessionPresent := false, returnCode := 0, properties := none }

/-- `ConnackPacket::encode`. -/
def encode (packet : ConnackPacket) : Outcome String Bytes := do
  let bufProp ← packet.properties.elim (.ok [0x00]) Connack.Properties.encode
  let propRemleng ← RemainingLength.encode (UInt32.ofNat bufProp.length)
  let remainingLeng := bufProp.length + 2 + propRemleng.length
  let packetRemleng ← RemainingLength.encode (UInt32.ofNat remainingLeng)
  return 0x20 :: (packetRemleng ++
    (packet.sessionPresent.toUInt8 :: packet.returnCode :: (propRemleng ++ bufProp)))

/-- `ConnackPacket::decode`. -/
def decode : Reader String ConnackPacket := do
  let available ← Reader.remaining
  Reader.ensure (4 ≤ available) "Buffer too short"
  let header ← Reader.getU8
  Reader.ensure (header >>> 4 = 2) "Invalid packet type for CONNACK"
  let remainingLength ←
    RemainingLength.decode.mapErr fun _ => "Failed to decode remaining length"
  let available ← Reader.remaining
  Reader.ensure (remainingLength ≤ available) "Buffer too short for remaining length"
  let sessionPresent ← Reader.getU8
  let returnCode ← Reader.getU8
  let properties ← Connack.Properties.decode
  return { sessionPresent := sessionPresent &&& 0x01 ≠ 0, returnCode, properties }

end ConnackPacket
end Sipusu.Protocol.V5
