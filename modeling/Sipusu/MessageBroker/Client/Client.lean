import Sipusu.Foundation.Outcome
import Sipusu.MessageBroker.Client.Clobj

/-!
# Clients

`src/message_broker/client/client.rs`. The socket carries no state that the
broker reads back, and the store's path is a function of the client's id, so
neither is a field here.
-/

namespace Sipusu.MessageBroker

open Sipusu.Foundation

/-- `struct ConnectionID`. -/
structure ConnectionID where
  number : UInt32
deriving DecidableEq, Repr

/-- `struct Client`. -/
structure Client where
  conid : ConnectionID
  clid : ClientID
  protocolLevel : UInt8
  session : Session
  limit : Limiter
deriving DecidableEq

namespace Client

/-- The shortest interval a session keeps. -/
def minKeepAlive : UInt16 := 60

/-- The shortest interval is far below those whose deadline cannot be computed. -/
theorem max_minKeepAlive_le {keepAlive : UInt16} (bounded : keepAlive.toNat ≤ 43690) :
    (max keepAlive minKeepAlive).toNat ≤ 43690 := by
  rw [UInt16.max_def]
  split
  · decide
  · exact bounded

/-- `Client::new` at the clock reading `now`. The first deadline is computed from
the requested interval, before the minimum is applied. -/
def new (conid : ConnectionID) (clid : ClientID) (keepAlive : UInt16) (exprInterval : UInt32)
    (protocolLevel : UInt8) (limit : Limiter) (now : Nat) : Outcome String Client := do
  let allowance ← Session.allowance keepAlive
  let session : Session :=
    { ttl := now + allowance, exprInterval, keepAlive := max keepAlive minKeepAlive }
  return { conid, clid, protocolLevel, session, limit }

/-- A client is made exactly when its first deadline can be computed. -/
theorem new_eq (conid : ConnectionID) (clid : ClientID) (keepAlive : UInt16)
    (exprInterval : UInt32) (protocolLevel : UInt8) (limit : Limiter) (now : Nat) :
    new conid clid keepAlive exprInterval protocolLevel limit now =
      if keepAlive.toNat ≤ 43690 then
        .ok { conid, clid, protocolLevel, limit
              session := {
                ttl := now + (keepAlive.toNat + keepAlive.toNat / 2)
                exprInterval
                keepAlive := max keepAlive minKeepAlive } }
      else .panic := by
  rw [new, Session.allowance]
  by_cases bounded : keepAlive.toNat ≤ 43690
  · rw [if_pos bounded, if_pos (by omega)]
    rfl
  · rw [if_neg bounded, if_neg (by omega)]
    rfl

/-- `SessionController::is_alive`. -/
def isAlive (client : Client) (t : Nat) : Bool := client.session.isAlive t

/-- `SessionController::expiration_time`. -/
def expirationTime (client : Client) : Nat := client.session.expirationTime

/-- `SessionController::keep_alive`. -/
def keepAliveAt (client : Client) (t : Nat) : Outcome String Client := do
  let session ← client.session.keepAliveAt t
  return { client with session }

/-- Below the interval whose sum overflows, only a passed deadline stops `keep_alive`. -/
theorem keepAliveAt_eq {client : Client} (bounded : client.session.keepAlive.toNat ≤ 43690)
    (t : Nat) :
    client.keepAliveAt t =
      if client.session.ttl ≤ t then .err Session.alreadyExpired
      else .ok { client with session := { client.session with
        ttl := t + (client.session.keepAlive.toNat + client.session.keepAlive.toNat / 2) } } := by
  rw [keepAliveAt, Session.keepAliveAt, Session.allowance_eq bounded]
  split <;> rfl

/-- `SessionController::kill` at the clock reading `now`. -/
def kill (client : Client) (now : Nat) : Client :=
  { client with session := client.session.kill now }

end Client
end Sipusu.MessageBroker
