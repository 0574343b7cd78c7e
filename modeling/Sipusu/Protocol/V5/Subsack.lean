import Sipusu.Protocol.V5.Puback
import Sipusu.Protocol.V5.UserProperties

/-!
# Subscription acknowledgements

`src/protocol/v5/subsack.rs`. The properties are written as those of the acknowledgements of
PUBLISH packets, and the length of an empty property block is not written here either.
-/

namespace Sipusu.Protocol.V5

open Sipusu.Foundation

/-- `enum SubAckInvalid`. -/
inductive SubAckInvalid where
  | unspecifiedError
  | implSpecificError
  | notAuthorized
  | topicFilterInvalid
  | packetIdentifierInUse
  | quotaExceeded
  | sharedSubsUnsupported
  | subsIdUnSupported
  | wildcardSubsUnSupported
deriving DecidableEq, Repr

/-- `SubAckInvalid::reason_code`. -/
def SubAckInvalid.reasonCode : SubAckInvalid → UInt8
  | .unspecifiedError => 0x80
  | .implSpecificError => 0x83
  | .notAuthorized => 0x87
  | .topicFilterInvalid => 0x8F
  | .packetIdentifierInUse => 0x91
  | .quotaExceeded => 0x97
  | .sharedSubsUnsupported => 0x9E
  | .subsIdUnSupported => 0xA1
  | .wildcardSubsUnSupported => 0xA2

/-- `SubAckResult`: the granted level, or the reason why there is none. -/
abbrev SubAckResult := Except SubAckInvalid ServiceLevel

/-- The return code of a topic filter. -/
def returnCode : SubAckResult → UInt8
  | .ok v => v.code
  | .error e => e.reasonCode

/-- `struct SubAckProperties`. -/
structure SubAckProperties where
  reasonString : Option Str
  userProperties : Option (List (Str × Str))
deriving DecidableEq

namespace SubAckProperties

/-- `SubAckProperties::len`. -/
def len (properties : SubAckProperties) : Nat :=
  (properties.reasonString.elim 0 fun reason => reason.len + 3) +
    (properties.userProperties.elim 0 fun uprop =>
      (uprop.map fun pair => pair.1.len + pair.2.len + 5).sum)

/-- `SubAckProperties::encode`, which does the same as `puback::encode_properties`. -/
def encode (properties : SubAckProperties) : Outcome String Bytes :=
  Puback.encodeProperties
    { reasonString := properties.reasonString, userProperties := properties.userProperties }

end SubAckProperties

/-- `struct SubsAck`. -/
structure SubsAck where
  id : UInt16
  properties : Option SubAckProperties
  returnCodes : List SubAckResult

/-- `SubsAck::encode`. -/
def SubsAck.encode (ack : SubsAck) : Outcome String Bytes := do
  let prop ← ack.properties.elim (.ok []) SubAckProperties.encode
  let propLen ← RemainingLength.encode (UInt32.ofNat prop.length)
  let rmlNum := prop.length + propLen.length + ack.returnCodes.length + 2
  let remainingLeng ← RemainingLength.encode (UInt32.ofNat rmlNum)
  return 0x90 :: (remainingLeng ++
    (be16 ack.id ++ (propLen ++ (prop ++ ack.returnCodes.map returnCode))))

end Sipusu.Protocol.V5
