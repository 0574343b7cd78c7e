import Sipusu.Protocol.V5.Publish
import Sipusu.Protocol.V5.Subscribe

/-!
# Packets of a connected client

`src/protocol/mqtt.rs`. The decoder looks at the high half of the first octet and
leaves the rest to the packet's own decoder. For a PINGREQ nothing more is read.
-/

namespace Sipusu.Protocol

open Sipusu.Foundation V5

/-- `enum ClientPacketV5`. -/
inductive ClientPacketV5 where
  | publish (packet : PublishPacket)
  | subscribe (packet : SubscribePacket)
  | pingReq
deriving DecidableEq

/-- `ClientPacketV5::decode`. -/
def ClientPacketV5.decode : Reader Malformed ClientPacketV5
  | [] => .panic
  | buffer@(first :: _) =>
      match first >>> 4 with
      | 0x08 => SubscribePacket.decode buffer >>= fun result => .ok (.subscribe result.1, result.2)
      | 0x03 =>
          PublishPacket.decode.mapErr (fun _ => .malformedPacket) buffer >>= fun result =>
            .ok (.publish result.1, result.2)
      | 0x0C => .ok (.pingReq, buffer)
      | _ => .err .protocolError

end Sipusu.Protocol
