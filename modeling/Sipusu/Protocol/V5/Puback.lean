import Sipusu.Protocol.V5

/-!
# Acknowledgements of PUBLISH packets

`src/protocol/v5/puback.rs`. One record serves all four packet types. The length of an
empty property block is not written, for `RemainingLength::encode` writes no octet for
zero.
-/

namespace Sipusu.Protocol.V5

open Sipusu.Foundation

/-- `enum PubACKType`. -/
inductive PubACKType where
  | pubAck
  | pubRec
  | pubRel
  | pubComp
deriving DecidableEq, Repr

/-- `PubACKType::code`. -/
def PubACKType.code : PubACKType → UInt8
  | .pubAck => 0x40
  | .pubRec => 0x50
  | .pubRel => 0x60
  | .pubComp => 0x70

namespace Puback

/-- `puback::Properties`. -/
structure Properties where
  reasonString : Option Str
  userProperties : Option (List (Str × Str))
deriving DecidableEq

/-- The loop of `encode_properties` over the user properties. -/
def encodeUserProperties : List (Str × Str) → Outcome String Bytes
  | [] => .ok []
  | (key, value) :: rest => do
      let key ← encodeUtf8String key
      let value ← encodeUtf8String value
      let rest ← encodeUserProperties rest
      return 0x26 :: (key ++ (value ++ rest))

/-- The reason as `encode_properties` writes it. -/
def encodeReasonString : Option Str → Outcome String Bytes
  | none => .ok []
  | some reasonString => do
      let reasonString ← encodeUtf8String reasonString
      return 0x1F :: reasonString

/-- `encode_properties`. -/
def encodeProperties (properties : Properties) : Outcome String Bytes := do
  let reasonString ← encodeReasonString properties.reasonString
  let userProperties ← encodeUserProperties (properties.userProperties.getD [])
  return reasonString ++ userProperties

end Puback

/-- `struct PubackPacket`. -/
structure PubackPacket where
  packetType : PubACKType
  packetId : UInt16
  reasonCode : UInt8
  properties : Option Puback.Properties
deriving DecidableEq

namespace PubackPacket

/-- `PubackPacket::encode`. -/
def encode (packet : PubackPacket) : Outcome String Bytes := do
  let bufProp ← packet.properties.elim (.ok []) Puback.encodeProperties
  let propLeng ← RemainingLength.encode (UInt32.ofNat bufProp.length)
  let remainingLength ←
    RemainingLength.encode (UInt32.ofNat (propLeng.length + bufProp.length + 3))
  return packet.packetType.code ::
    (remainingLength ++ (be16 packet.packetId ++ (packet.reasonCode :: (propLeng ++ bufProp))))

/-- An acknowledgement with reason 0 and no properties. -/
def plain (packetType : PubACKType) (packetId : UInt16) : PubackPacket :=
  { packetType, packetId, reasonCode := 0x00, properties := none }

/-- The octets of a plain acknowledgement. -/
def plainBytes (packetType : PubACKType) (packetId : UInt16) : Bytes :=
  packetType.code :: 0x03 :: (be16 packetId ++ [0x00])

/-- A plain acknowledgement always has an encoding. -/
theorem encode_plain (packetType : PubACKType) (packetId : UInt16) :
    (plain packetType packetId).encode = .ok (plainBytes packetType packetId) := rfl

/-- The type is read off the first octet. -/
theorem plainBytes_inj {left right : PubACKType} {packetId other : UInt16}
    (same : plainBytes left packetId = plainBytes right other) : left = right := by
  have header := (List.cons.inj same).1
  revert header
  cases left <;> cases right <;> decide

end PubackPacket
end Sipusu.Protocol.V5
