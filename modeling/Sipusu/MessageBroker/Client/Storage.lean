import Sipusu.MessageBroker.Client.Storage.Subscribed
import Sipusu.MessageBroker.Client.Storage.WallReading

/-!
# The session store

`ClientStore` of `src/message_broker/client/storage.rs`, on the two files of a
session directory that change after its creation.
-/

namespace Sipusu.MessageBroker

open Sipusu.Foundation Sipusu.Protocol.V5

/-- The directory of a session. -/
structure SessionDir where
  session : Bytes
  subscribed : Bytes
deriving DecidableEq

namespace ClientStore

/-- `ClientStore::new`: both files are truncated, whatever was there. -/
def new (now : Nat) : SessionDir :=
  { session := writeWall [⟨UInt64.ofNat now, .clientCreated⟩], subscribed := [] }

end ClientStore
end Sipusu.MessageBroker
