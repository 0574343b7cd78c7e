import Sipusu.MessageBroker.Client.Clobj
import Sipusu.Protocol.V5.Connack
import Sipusu.Protocol.V5.Connect

/-!
# What a CONNECT packet asks for

`collect` of `src/connection/handler.rs`. Clients without an identifier all get the same
one.
-/

namespace Sipusu.Connection

open Sipusu.Foundation Sipusu.Protocol.V5 Sipusu.MessageBroker

/-- `MAX_QOS`. -/
def maxQos : UInt8 := 2

/-- The identifier of a client that sends none. -/
def rawClid : Str := ⟨Text.ascii "raw_clid", by decide⟩

/-- `struct ServerVariable`. -/
structure ServerVariable where
  clid : ClientID
  cleanStart : Bool
  keepAlive : UInt16
  protocolLevel : UInt8
  exprInterval : UInt32
deriving DecidableEq

/-- The identifier of a client. -/
def clientID (req : ConnectPacket) : ClientID :=
  if req.clientId.len = 0 then .new rawClid else .new req.clientId

/-- The response properties for the properties of a request. -/
def responseProperties (req : ConnectPacket) (reqProp : Connect.Properties) : Connack.Properties :=
  { Connack.Properties.default with
    sessionExpiryInterval := some (reqProp.sessionExpiryInterval.getD 0)
    assignedClientIdentifier := if req.clientId.len = 0 then some (clientID req).id else none
    receiveMaximum := reqProp.receiveMaximum
    maximumQos := some maxQos
    maximumPacketSize := reqProp.maximumPacketSize
    topicAliasMaximum := reqProp.topicAliasMaximum
    userProperties := reqProp.userProperties
    serverKeepAlive := some req.keepAlive }

/-- `collect`, with the response that it changes. It refuses nothing. -/
def collect (req : ConnectPacket) (res : ConnackPacket) : ServerVariable × ConnackPacket :=
  let srvVar : ServerVariable :=
    { clid := clientID req, cleanStart := req.cleanStart, keepAlive := req.keepAlive,
      protocolLevel := req.protocolLevel, exprInterval := 0 }
  match req.properties with
  | none => (srvVar, res)
  | some reqProp =>
      ({ srvVar with exprInterval := reqProp.sessionExpiryInterval.getD 0 },
        { res with properties := some (responseProperties req reqProp) })

@[simp] theorem collect_clid (req : ConnectPacket) (res : ConnackPacket) :
    (collect req res).1.clid = clientID req := by
  rw [collect]
  cases req.properties <;> rfl

end Sipusu.Connection
