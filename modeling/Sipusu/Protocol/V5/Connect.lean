import Sipusu.Foundation.Text
import Sipusu.Protocol.V5

/-!
# CONNECT packets

The decoder of `src/protocol/v5/connect.rs`. The remaining length is only checked
against the buffer; the property block is split off without a check.
-/

namespace Sipusu.Protocol.V5

open Sipusu.Foundation

namespace Connect

/-- `connect::Properties`. -/
structure Properties where
  sessionExpiryInterval : Option UInt32
  receiveMaximum : Option UInt16
  maximumPacketSize : Option UInt16
  topicAliasMaximum : Option UInt16
  requestResponseInformation : Option UInt8
  requestProblemInformation : Option UInt8
  userProperties : Option (List (Str × Str))
  authenticationMethod : Option Str
  authenticationData : Option Bytes
deriving DecidableEq

namespace Properties

/-- The properties before any is read. -/
def empty : Properties :=
  { sessionExpiryInterval := none, receiveMaximum := none, maximumPacketSize := none,
    topicAliasMaximum := none, requestResponseInformation := none,
    requestProblemInformation := none, userProperties := none, authenticationMethod := none,
    authenticationData := none }

/-- One turn of the loop of `decode_properties`. -/
def decodeEntry (properties : Properties) : Reader String Properties := do
  let identifier ← Reader.getU8
  match identifier with
  | 0x11 =>
      let interval ← Reader.getU32
      return { properties with sessionExpiryInterval := some interval }
  | 0x21 =>
      let limit ← Reader.getU16
      return { properties with receiveMaximum := some limit }
  | 0x27 =>
      let size ← Reader.getU16
      return { properties with maximumPacketSize := some size }
  | 0x22 =>
      let limit ← Reader.getU16
      return { properties with topicAliasMaximum := some limit }
  | 0x19 =>
      let request ← Reader.getU8
      return { properties with requestResponseInformation := some request }
  | 0x17 =>
      let request ← Reader.getU8
      return { properties with requestProblemInformation := some request }
  | 0x26 =>
      let userProps ← decodeStringPair
      return { properties with
        userProperties := some (properties.userProperties.getD [] ++ [userProps]) }
  | 0x15 =>
      let authMethod ← decodeUtf8String
      return { properties with authenticationMethod := some authMethod }
  | 0x16 =>
      let authData ← decodeBinaryData
      return { properties with authenticationData := some authData }
  | _ => Reader.fail "Unknown property identifier"

end Properties

/-- `decode_properties`. -/
def decodeProperties : Reader String Properties := do
  let propertyLength ← RemainingLength.decode
  let bufprop ← Reader.splitTo propertyLength
  Reader.within bufprop (Reader.whileNonempty Properties.decodeEntry Properties.empty)

/-- The name of the protocol. -/
def protocolName : Str := ⟨Text.ascii "MQTT", by decide⟩

/-- The only level of the protocol that is supported. -/
def protocolLevel : UInt8 := 5

end Connect

/-- `struct ConnectPacket`. -/
structure ConnectPacket where
  protocolName : Str
  protocolLevel : UInt8
  connectFlags : UInt8
  keepAlive : UInt16
  properties : Option Connect.Properties
  clientId : Str
  willProperties : Option Connect.Properties
  willTopic : Option Str
  willPayload : Option Bytes
  username : Option Str
  password : Option Bytes
deriving DecidableEq

namespace ConnectPacket

/-- The will, if its flag is set: properties, topic and payload. -/
def decodeWill (connectFlags : UInt8) :
    Reader String (Option Connect.Properties × Option Str × Option Bytes) :=
  if connectFlags &&& 0x04 > 0 then do
    let props ← Connect.decodeProperties
    let topic ← decodeUtf8String
    let payload ← decodeBinaryData
    return (some props, some topic, some payload)
  else return (none, none, none)

/-- The user name, if its flag is set. -/
def decodeUsername (connectFlags : UInt8) : Reader String (Option Str) :=
  if connectFlags &&& 0x80 > 0 then do
    let user ← decodeUtf8String
    return some user
  else return none

/-- The password, if its flag is set. -/
def decodePassword (connectFlags : UInt8) : Reader String (Option Bytes) :=
  if connectFlags &&& 0x40 > 0 then do
    let pass ← decodeBinaryData
    return some pass
  else return none

/-- `ConnectPacket::decode` behind the protocol level. -/
def decodeBody (protocolName : Str) (protocolLevel : UInt8) : Reader String ConnectPacket := do
  let connectFlags ← Reader.getU8
  let keepAlive ← Reader.getU16
  let properties ← Connect.decodeProperties
  let clientId ← decodeUtf8String
  let (willProperties, willTopic, willPayload) ← decodeWill connectFlags
  let username ← decodeUsername connectFlags
  let password ← decodePassword connectFlags
  return { protocolName, protocolLevel, connectFlags, keepAlive, properties := some properties,
           clientId, willProperties, willTopic, willPayload, username, password }

/-- `ConnectPacket::decode` behind the remaining length. -/
def decodeProtocol : Reader String ConnectPacket := do
  let name ← decodeUtf8String
  Reader.ensure (name = Connect.protocolName) "Invalid protocol name"
  let level ← Reader.getU8
  Reader.ensure (level = Connect.protocolLevel) "Unsupported protocol level"
  decodeBody name level

/-- `ConnectPacket::decode`. -/
def decode : Reader String ConnectPacket := do
  let header ← Reader.getU8
  Reader.ensure (header >>> 4 = 1) "Invalid packet type for CONNECT"
  let remainingLength ← RemainingLength.decode
  let available ← Reader.remaining
  Reader.ensure (remainingLength ≤ available) "Invalid buffer supplied"
  decodeProtocol

/-- `ConnectPacket::clean_start`. -/
def cleanStart (packet : ConnectPacket) : Bool := packet.connectFlags &&& 0x20 ≠ 0

end ConnectPacket
end Sipusu.Protocol.V5
