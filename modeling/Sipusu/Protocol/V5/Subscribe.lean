import Sipusu.Protocol.V5

/-!
# SUBSCRIBE packets

`src/protocol/v5/subscribe.rs`. The decoder takes one octet for the length of the
property block and never reads that block.
-/

namespace Sipusu.Protocol.V5

open Sipusu.Foundation

/-- `struct Subscribe`. -/
structure Subscribe where
  topic : Str
  maxQos : ServiceLevel
deriving DecidableEq

/-- `struct SubscribePacket`. -/
structure SubscribePacket where
  id : UInt16
  list : List Subscribe
deriving DecidableEq

namespace SubscribePacket

/-- One turn of the loop over the payload. -/
def decodeFilter (subscriptions : List Subscribe) : Reader Malformed (List Subscribe) := do
  let topicFilterLen ← Reader.getU16
  let topicFilterBytes ← Reader.splitTo topicFilterLen.toNat
  let topic ← Reader.ofOption .malformedPacket (Str.fromUtf8? topicFilterBytes)
  let options ← Reader.getU8
  let maxQos ← Reader.ofOption .qosNotSupported (ServiceLevel.tryFrom (options &&& 0x3))
  return subscriptions ++ [⟨topic, maxQos⟩]

/-- `SubscribePacket::skip_header`. The buffer is replaced by its first
`remaining_length` octets and read to its end; what follows them is dropped. -/
def skipHeader : Reader Malformed SubscribePacket := do
  let remainingLength ← RemainingLength.decode.mapErr fun _ => .protocolError
  let body ← Reader.splitTo remainingLength
  Reader.replaceBy body
  let packetIdentifier ← Reader.getU16
  let _propLeng ← Reader.getU8
  let subscriptions ← Reader.whileNonempty decodeFilter []
  return { id := packetIdentifier, list := subscriptions }

/-- `SubscribePacket::decode`. -/
def decode : Reader Malformed SubscribePacket := do
  let header ← Reader.getU8
  Reader.ensure (header >>> 4 = 0x08) .protocolError
  skipHeader

/-- What the decoder makes of the body. -/
def decodeBody : Reader Malformed SubscribePacket := do
  let packetIdentifier ← Reader.getU16
  let _propLeng ← Reader.getU8
  let subscriptions ← Reader.whileNonempty decodeFilter []
  return { id := packetIdentifier, list := subscriptions }

/-- The body is split off and read. -/
theorem skipHeader_apply (buffer : Bytes) :
    skipHeader buffer = (RemainingLength.decode.mapErr fun _ => Malformed.protocolError) buffer >>=
      fun length => Reader.splitTo length.1 length.2 >>= fun body => decodeBody body.1 := rfl

end SubscribePacket
end Sipusu.Protocol.V5
