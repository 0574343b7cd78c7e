import Sipusu.Foundation.Comparison
import Sipusu.Foundation.Utf8

/-!
# Client identifiers and sessions

`src/message_broker/client/clobj.rs`. A `ClientID` is a string with its hash
beside it. The registry compares identifiers with the derived `Ord`, other
parts of the broker with the hand-written operators on length and hash.
-/

namespace Sipusu.MessageBroker

open Sipusu.Foundation

namespace ClientID

/-- `u32::rotate_left`. -/
def rotateLeft (word : UInt32) (count : UInt32) : UInt32 :=
  (word <<< count) ||| (word >>> (32 - count))

def c1 : UInt32 := 0xcc9e2d51
def c2 : UInt32 := 0x1b873593

/-- The scrambling of one word before it is mixed in. -/
def scramble (word : UInt32) : UInt32 := rotateLeft (word * c1) 15 * c2

/-- `u32::from_le_bytes`. -/
def fromLeBytes (a b c d : UInt8) : UInt32 :=
  a.toUInt32 ||| (b.toUInt32 <<< 8) ||| (c.toUInt32 <<< 16) ||| (d.toUInt32 <<< 24)

/-- The loop over whole blocks, with the octets it leaves. -/
def hashBlocks (hash : UInt32) : Bytes → UInt32 × Bytes
  | a :: b :: c :: d :: rest =>
      hashBlocks (rotateLeft (hash ^^^ scramble (fromLeBytes a b c d)) 13 * 5 + 0xe6546b64) rest
  | tail => (hash, tail)

/-- The word made of the tail. The `match` on its length has no fall-through, so
only its last octet enters. -/
def hashTail : Bytes → UInt32
  | [_, _, c] => c.toUInt32 <<< 16
  | [_, b] => b.toUInt32 <<< 8
  | [a] => a.toUInt32
  | _ => 0

/-- The final avalanche. -/
def avalanche (hash : UInt32) : UInt32 :=
  let hash := (hash ^^^ (hash >>> 16)) * 0x85ebca6b
  let hash := (hash ^^^ (hash >>> 13)) * 0xc2b2ae35
  hash ^^^ (hash >>> 16)

/-- `ClientID::hash`. -/
def hashOf (rawClid : Str) : UInt32 :=
  let blocks := hashBlocks 0 rawClid.bytes
  avalanche (blocks.1 ^^^ scramble (hashTail blocks.2) ^^^ UInt32.ofNat rawClid.len)

end ClientID

/-- `struct ClientID`. Its fields are private and `new` is the only constructor,
so the hash always belongs to the string. -/
structure ClientID where
  id : Str
  hash : UInt32
  hashed : hash = ClientID.hashOf id
deriving DecidableEq

namespace ClientID

/-- `ClientID::new`. -/
def new (rawClid : Str) : ClientID := ⟨rawClid, hashOf rawClid, rfl⟩

@[simp] theorem new_id (rawClid : Str) : (new rawClid).id = rawClid := rfl

/-- Identifiers are determined by their strings. -/
@[ext] theorem ext {left right : ClientID} (id : left.id = right.id) : left = right := by
  obtain ⟨leftId, leftHash, leftHashed⟩ := left
  obtain ⟨rightId, rightHash, rightHashed⟩ := right
  cases id
  cases leftHashed
  cases rightHashed
  rfl

@[simp] theorem new_eq (clid : ClientID) : new clid.id = clid :=
  ClientID.ext (new_id clid.id)

/-- The derived `Ord::cmp`: the string in the order of its octets, then the hash. -/
def cmp (left right : ClientID) : Ordering :=
  (compare left.id.bytes right.id.bytes).then (compare left.hash right.hash)

/-- The hash never decides the derived order. -/
theorem cmp_eq_compare (left right : ClientID) :
    left.cmp right = compare left.id.bytes right.id.bytes := by
  unfold cmp
  cases strings : compare left.id.bytes right.id.bytes with
  | lt => rfl
  | gt => rfl
  | eq =>
    have sameId : left.id = right.id := Str.ext (Std.LawfulEqCmp.eq_of_compare strings)
    have sameHash : left.hash = right.hash := by rw [left.hashed, right.hashed, sameId]
    rw [sameHash]
    exact Std.ReflOrd.compare_self

theorem cmp_eq_iff {left right : ClientID} : left.cmp right = .eq ↔ left.id = right.id := by
  rw [cmp_eq_compare, Std.LawfulEqCmp.compare_eq_iff_eq]
  exact ⟨Str.ext, congrArg Str.bytes⟩

instance : Std.TransCmp cmp where
  eq_swap {left right} := by
    rw [cmp_eq_compare, cmp_eq_compare]
    exact Std.OrientedCmp.eq_swap
  isLE_trans {left middle right} first second := by
    rw [cmp_eq_compare] at *
    exact Std.TransCmp.isLE_trans first second

/-- The hand-written `PartialEq`: `==` compares length and hash, and `!=` asks
that both differ. -/
instance : PartialEq ClientID where
  eq left right := left.id.len == right.id.len && left.hash == right.hash
  ne left right := left.id.len != right.id.len && left.hash != right.hash

/-- The hand-written `PartialOrd::partial_cmp`. -/
def partialCmp (left right : ClientID) : Option Ordering := some (compare left.hash right.hash)

/-- `PartialOrd::lt`. -/
def lt (left right : ClientID) : Bool := left.hash < right.hash

/-- `PartialOrd::le`. -/
def le (left right : ClientID) : Bool := left.hash ≤ right.hash

/-- `PartialOrd::gt`. -/
def gt (left right : ClientID) : Bool := left.hash > right.hash

/-- `PartialOrd::ge`. -/
def ge (left right : ClientID) : Bool := left.hash ≥ right.hash

end ClientID

/-- `struct Session`. Times are seconds since the epoch. -/
structure Session where
  ttl : Nat
  exprInterval : UInt32
  keepAlive : UInt16
deriving DecidableEq, Repr

namespace Session

/-- `(keep_alive + keep_alive/2) as u64`. The sum is taken in 16 bits and aborts
on overflow. -/
def allowance (keepAlive : UInt16) : Outcome String Nat :=
  if keepAlive.toNat + keepAlive.toNat / 2 < 65536 then
    .ok (keepAlive.toNat + keepAlive.toNat / 2)
  else .panic

theorem allowance_eq {keepAlive : UInt16} (bounded : keepAlive.toNat ≤ 43690) :
    allowance keepAlive = .ok (keepAlive.toNat + keepAlive.toNat / 2) := by
  rw [allowance, if_pos (by omega)]

/-- `SessionController::is_alive`. -/
def isAlive (session : Session) (t : Nat) : Bool := session.ttl ≥ t

/-- `SessionController::expiration_time`. -/
def expirationTime (session : Session) : Nat := session.exprInterval.toNat + session.ttl

/-- `SessionController::is_expired`. -/
def isExpired (session : Session) (t : Nat) : Bool := session.expirationTime ≤ t

/-- The text of the error `keep_alive` returns. -/
def alreadyExpired : String := "already expired"

/-- `SessionController::keep_alive`. -/
def keepAliveAt (session : Session) (t : Nat) : Outcome String Session :=
  if session.ttl ≤ t then .err alreadyExpired
  else do
    let allowance ← allowance session.keepAlive
    return { session with ttl := t + allowance }

/-- `SessionController::kill` at the clock reading `now`. -/
def kill (session : Session) (now : Nat) : Session := { session with ttl := now - 1 }

end Session

/-- `struct Limiter`. -/
structure Limiter where
  receiveMaximum : Option UInt16
  maximumPacketSize : Option UInt16
  topicAliasMaximum : Option UInt16
deriving DecidableEq, Repr

end Sipusu.MessageBroker
