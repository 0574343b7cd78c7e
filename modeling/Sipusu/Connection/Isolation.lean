import Sipusu.Connection.Collect
import Sipusu.MessageBroker.Client.Storage.Directory

/-!
# Which clients have session directories of their own

The identifier of a CONNECT packet becomes a path without a check.
-/

namespace Sipusu.Connection

open Sipusu.Foundation Sipusu.Protocol.V5 Sipusu.MessageBroker Sipusu.MessageBroker.ClientStore

/-- The session directories of two requests are apart exactly when the identifiers that
`collect` passes on amount to different names below the store. -/
theorem sessions_isolated_iff (currentDir : Bytes) (left right : ConnectPacket) :
    let leftClid := (collect left .default).1.clid
    let rightClid := (collect right .default).1.clid
    Isolated (storeDirectory currentDir) (directory currentDir leftClid)
        (directory currentDir rightClid) ↔
      ∃ name other, Names (storeDirectory currentDir) leftClid.id.bytes name ∧
        Names (storeDirectory currentDir) rightClid.id.bytes other ∧ name ≠ other :=
  isolated_directories_iff currentDir _ _

/-- A request with a client identifier and nothing else. -/
def plainRequest (clientId : Str) : ConnectPacket :=
  { protocolName := Connect.protocolName
    protocolLevel := Connect.protocolLevel
    connectFlags := 0x00
    keepAlive := 60
    properties := some Connect.Properties.empty
    clientId
    willProperties := none
    willTopic := none
    willPayload := none
    username := none
    password := none }

/-- A client called `../x` has its files outside of the store. -/
theorem sessions_not_isolated :
    let left := plainRequest ⟨Text.ascii "a", by decide⟩
    let right := plainRequest ⟨Text.ascii "../x", by decide⟩
    ConnectPacket.decode ([0x10, 0x0E, 0x00, 0x04, 0x4D, 0x51, 0x54, 0x54, 0x05, 0x00, 0x00, 0x3C,
        0x00, 0x00, 0x01] ++ Text.ascii "a") = .ok (left, []) ∧
      ConnectPacket.decode ([0x10, 0x11, 0x00, 0x04, 0x4D, 0x51, 0x54, 0x54, 0x05, 0x00, 0x00, 0x3C,
        0x00, 0x00, 0x04] ++ Text.ascii "../x") = .ok (right, []) ∧
      left.clientId ≠ right.clientId ∧
      ¬ Isolated (storeDirectory (Text.ascii "/srv"))
        (directory (Text.ascii "/srv") (collect left .default).1.clid)
        (directory (Text.ascii "/srv") (collect right .default).1.clid) := by
  intro left right
  refine ⟨rfl, rfl, by decide, ?_⟩
  rintro ⟨_, _, _, _, ⟨name, child⟩, _⟩
  have outside : directory (Text.ascii "/srv") (collect right .default).1.clid =
      (storeDirectory (Text.ascii "/srv")).dropLast ++ [Text.ascii "x"] := rfl
  have length := congrArg List.length (outside.symm.trans child)
  rw [List.length_append, List.length_append, List.length_dropLast, List.length_singleton,
    List.length_singleton] at length
  exact absurd length (by decide)

end Sipusu.Connection
