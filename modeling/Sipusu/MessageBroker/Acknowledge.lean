import Sipusu.MessageBroker.Client.Clients
import Sipusu.MessageBroker.Forward
import Sipusu.MessageBroker.SpawnClient
import Sipusu.Protocol.V5.Puback

/-!
# Acknowledging a publisher

`SendStrategy` and `Forwarder` for `Clients` in `src/message_broker/client/clients.rs`,
behind the `observer` of `src/message_broker/mediator.rs`. The publisher is only
acknowledged on the way of its message to a subscriber.
-/

namespace Sipusu.MessageBroker

open Sipusu.Foundation Sipusu.Protocol Sipusu.Protocol.V5

/-- Why `pubish` fails. The first stands for the `io::Error` of kind `NotFound` with the text
`client {con_id} not found`. -/
inductive PubishError where
  | notFound (conId : ClientID)
  | socket (error : IoError)
deriving DecidableEq

/-- Octets that went to a client. -/
abbrev Write := ClientID × Bytes

/-- What a call of `pubish` finds: the registered clients, and how their sockets take
octets. -/
structure Peers where
  clients : List Client
  writeAll : Client → Bytes → Except IoError Unit

namespace Peers

/-- `Forwarder::pubish`. -/
def pubish (peers : Peers) (conId : ClientID) (packet : Bytes) : Traced Write PubishError Unit :=
  match Clients.searchMutClient peers.clients conId fun client => (client, client) with
  | none => ⟨[], .err (.notFound conId)⟩
  | some (client, _) =>
      match peers.writeAll client packet with
      | .ok () => ⟨[(client.clid, packet)], .ok ()⟩
      | .error error => ⟨[], .err (.socket error)⟩

/-- The client is in the registry. -/
def Registered (peers : Peers) (clid : ClientID) : Prop :=
  ∃ client ∈ peers.clients, client.clid = clid

instance (peers : Peers) (clid : ClientID) : Decidable (peers.Registered clid) :=
  inferInstanceAs (Decidable (∃ client ∈ peers.clients, client.clid = clid))

/-- Sockets take what is written to them. -/
def Working (peers : Peers) : Prop := ∀ client packet, peers.writeAll client packet = .ok ()

/-- On working sockets `pubish` fails only for want of the client. -/
theorem pubish_eq {peers : Peers} (ascending : Clients.Ascending peers.clients)
    (working : peers.Working) (conId : ClientID) (packet : Bytes) :
    peers.pubish conId packet =
      if peers.Registered conId then ⟨[(conId, packet)], .ok ()⟩
      else ⟨[], .err (.notFound conId)⟩ := by
  obtain ⟨found, missing⟩ :=
    Clients.searchMutClient_spec ascending conId fun client => (client, client)
  rw [pubish]
  by_cases registered : peers.Registered conId
  · obtain ⟨client, member, same⟩ := registered
    obtain ⟨_, _, answer⟩ := found client member (congrArg ClientID.id same)
    rw [if_pos ⟨client, member, same⟩, answer]
    simp only [working client packet, same]
  · rw [if_neg registered, missing]
    intro client member same
    exact registered ⟨client, member, ClientID.ext same⟩

end Peers

namespace SendCall

/-- `SendStrategy` for `Clients`; the registry may change between two calls of `pubish`. The
last acknowledgement of `qos2` is made a PUBREL. -/
def send (peers : Nat → Peers) : SendCall → Traced Write PubishError Unit
  | .qos0 subscriber buffer => ((peers 0).pubish subscriber buffer).discard
  | .qos1 publisher subscriber packetId buffer => do
      (peers 0).pubish subscriber buffer
      let buffer ← .ofOutcome (PubackPacket.plain .pubAck packetId).encode.unwrap
      (peers 1).pubish publisher buffer
  | .qos2 publisher subscriber packetId msgBuffer => do
      let buffer ← .ofOutcome (PubackPacket.plain .pubRec packetId).encode.unwrap
      (peers 0).pubish publisher buffer
      (peers 1).pubish subscriber msgBuffer
      let buffer ← .ofOutcome (PubackPacket.plain .pubRel packetId).encode.unwrap
      (peers 2).pubish publisher buffer

end SendCall

/-- What `observer` does with a message from the queue: the task it spawns, if the topic
has a subscriber. -/
def observe (route : Str → Option SubscriberInstance) (msg : Message) : Option Publish :=
  (route msg.packet.topic).map fun subs => { msg, subs }

/-- All that is written for a message, until its task ends. -/
def handle (route : Str → Option SubscriberInstance) (peers : Nat → Peers) (msg : Message) :
    Traced Write PubishError Unit :=
  match observe route msg with
  | none => pure ()
  | some order => do
      let call ← .ofOutcome order.forward.unwrap
      (call.send peers).discard

/-- A message that the task of a client can have put into the queue. -/
def Queued (publisher : ClientID) (msg : Message) : Prop :=
  ∃ buffer packet rest, buffer.length ≤ ClientTask.bufferLength ∧
    ClientPacketV5.decode buffer = .ok (.publish packet, rest) ∧
    msg = queueMessage publisher packet

/-- One of the four packets that acknowledge a PUBLISH, by its first octet. -/
def isAcknowledgement : Bytes → Bool
  | [] => false
  | header :: _ => header >>> 4 = 4 ∨ header >>> 4 = 5 ∨ header >>> 4 = 6 ∨ header >>> 4 = 7

/-- The acknowledgements among what was written to the publisher. -/
def acknowledgements (publisher : ClientID) (written : List Write) : List Bytes :=
  (written.filter fun write => write.1 = publisher ∧ isAcknowledgement write.2).map Prod.snd

/-- The acknowledgements that a publisher is owed. -/
def acknowledgementsDue (packetId : UInt16) : ServiceLevel → List Bytes
  | .qos0 => []
  | .qos1 => [PubackPacket.plainBytes .pubAck packetId]
  | .qos2 => [PubackPacket.plainBytes .pubRec packetId, PubackPacket.plainBytes .pubComp packetId]

theorem acknowledgements_append (publisher : ClientID) (earlier later : List Write) :
    acknowledgements publisher (earlier ++ later) =
      acknowledgements publisher earlier ++ acknowledgements publisher later := by
  simp [acknowledgements]

/-- A PUBLISH acknowledges nothing, whoever gets it. -/
theorem acknowledgements_publish (publisher clid : ClientID) {header : UInt8}
    (isPublish : header >>> 4 = 3) (tail : Bytes) :
    acknowledgements publisher [(clid, header :: tail)] = [] := by
  have other : isAcknowledgement (header :: tail) = false := by
    rw [isAcknowledgement, isPublish]
    decide
  simp [acknowledgements, other]

theorem acknowledgements_plain (publisher : ClientID) (packetType : PubACKType)
    (packetId : UInt16) :
    acknowledgements publisher [(publisher, PubackPacket.plainBytes packetType packetId)] =
      [PubackPacket.plainBytes packetType packetId] := by
  have own : isAcknowledgement (PubackPacket.plainBytes packetType packetId) = true := by
    cases packetType <;> rfl
  simp [acknowledgements, own]

section Sends

variable {peers : Nat → Peers} {publisher : ClientID}

/-- What a call of the forwarder acknowledges, when the publisher is registered and the
sockets work. -/
theorem acknowledgements_send (ascending : ∀ k, Clients.Ascending (peers k).clients)
    (working : ∀ k, (peers k).Working) (registered : ∀ k, (peers k).Registered publisher)
    (level : ServiceLevel) (subscriber : ClientID) (packetId : UInt16) {header : UInt8}
    (isPublish : header >>> 4 = 3) (tail : Bytes) :
    acknowledgements publisher
        ((SendCall.ofLevel level publisher subscriber packetId (header :: tail)).send peers).written =
      match level with
      | .qos0 => []
      | .qos1 =>
          if (peers 0).Registered subscriber then [PubackPacket.plainBytes .pubAck packetId] else []
      | .qos2 =>
          PubackPacket.plainBytes .pubRec packetId ::
            if (peers 1).Registered subscriber then [PubackPacket.plainBytes .pubRel packetId]
            else [] := by
  have sends (k : Nat) := Peers.pubish_eq (ascending k) (working k)
  have acknowledged (k : Nat) (packet : Bytes) :
      (peers k).pubish publisher packet = ⟨[(publisher, packet)], .ok ()⟩ := by
    rw [sends, if_pos (registered k)]
  have encoded (packetType : PubACKType) :
      (PubackPacket.plain packetType packetId).encode.unwrap =
        (.ok (PubackPacket.plainBytes packetType packetId) : Outcome PubishError Bytes) := rfl
  cases level with
  | qos0 =>
    rw [SendCall.ofLevel, SendCall.send, Traced.written_discard, sends]
    split
    · exact acknowledgements_publish publisher subscriber isPublish tail
    · rfl
  | qos1 =>
    rw [SendCall.ofLevel, SendCall.send, encoded, Traced.ofOutcome_ok_bind, acknowledged]
    by_cases present : (peers 0).Registered subscriber
    · rw [sends, if_pos present, Traced.written_bind_of_ok rfl, acknowledgements_append,
        acknowledgements_publish publisher subscriber isPublish, acknowledgements_plain]
      exact (if_pos present).symm
    · rw [sends, if_neg present, Traced.written_bind_of_err rfl]
      exact (if_neg present).symm
  | qos2 =>
    simp only [SendCall.ofLevel, SendCall.send, encoded, Traced.ofOutcome_ok_bind, acknowledged]
    rw [Traced.written_bind_of_ok rfl, acknowledgements_append, acknowledgements_plain,
      List.singleton_append]
    congr 1
    by_cases present : (peers 1).Registered subscriber
    · rw [sends, if_pos present, Traced.written_bind_of_ok rfl, acknowledgements_append,
        acknowledgements_publish publisher subscriber isPublish, acknowledgements_plain]
      exact (if_pos present).symm
    · rw [sends, if_neg present, Traced.written_bind_of_err rfl]
      exact (if_neg present).symm

end Sends

/-- What is acknowledged for a message from the queue. -/
theorem acknowledgements_handle {peers : Nat → Peers} {publisher : ClientID}
    (ascending : ∀ k, Clients.Ascending (peers k).clients) (working : ∀ k, (peers k).Working)
    (registered : ∀ k, (peers k).Registered publisher) {msg : Message} {packetId : UInt16}
    (queued : Queued publisher msg) (identifier : msg.packet.packetId = some packetId)
    (route : Str → Option SubscriberInstance) :
    0 < msg.packet.qos.code ∧
    acknowledgements publisher (handle route peers msg).written =
      match route msg.packet.topic with
      | none => []
      | some subs =>
          match Publish.qos ⟨msg, subs⟩ with
          | .qos0 => []
          | .qos1 =>
              if (peers 0).Registered subs.clid then [PubackPacket.plainBytes .pubAck packetId]
              else []
          | .qos2 =>
              PubackPacket.plainBytes .pubRec packetId ::
                if (peers 1).Registered subs.clid then [PubackPacket.plainBytes .pubRel packetId]
                else [] := by
  obtain ⟨buffer, packet, rest, size, decoded, rfl⟩ := queued
  obtain ⟨_, _, _, _, published⟩ := ClientPacketV5.publish_of_decode decoded
  obtain ⟨encodable, length⟩ := PublishPacket.decode_encodable published
  have isLength : ClientTask.bufferLength = 1024 := rfl
  have isLimit := RemainingLength.limit_eq
  rw [queueMessage] at identifier
  refine ⟨encodable.identified.mp (by rw [identifier]; rfl), ?_⟩
  rw [handle, observe]
  cases routed : route (queueMessage publisher packet).packet.topic with
  | none => rfl
  | some subs =>
    obtain ⟨_, forwarded⟩ := Publish.forward_decoded decoded (by omega) publisher subs
    rw [if_pos (by omega), identifier, Option.getD_some] at forwarded
    simp only [Option.map_some, forwarded, Outcome.unwrap, Traced.ofOutcome_ok_bind,
      Traced.written_discard]
    exact acknowledgements_send ascending working registered _ subs.clid packetId
      packet.decode_fixedHeader.1 _

/-- A publisher is acknowledged as it should be exactly when it sent level 1 and its topic
leads to a registered subscriber at level 1 or above. Level 2 never gets its PUBCOMP. -/
theorem acknowledged_iff {peers : Nat → Peers}
    (reachable : ∀ k, Clients.registry.Reachable (peers k).clients)
    (working : ∀ k, (peers k).Working) {publisher : ClientID}
    (registered : ∀ k, (peers k).Registered publisher) {msg : Message} {packetId : UInt16}
    (queued : Queued publisher msg) (identifier : msg.packet.packetId = some packetId)
    (route : Str → Option SubscriberInstance) :
    acknowledgements publisher (handle route peers msg).written =
        acknowledgementsDue packetId msg.packet.qos ↔
      msg.packet.qos = .qos1 ∧ ∃ subs, route msg.packet.topic = some subs ∧
        subs.maxQos ≠ .qos0 ∧ (peers 0).Registered subs.clid := by
  have ascending := fun k => Clients.ascending_invariant.of_reachable (reachable k)
  obtain ⟨above, written⟩ :=
    acknowledgements_handle ascending working registered queued identifier route
  rw [written]
  cases routed : route msg.packet.topic with
  | none =>
    refine iff_of_false ?_ (by rintro ⟨_, _, some, _⟩; cases some)
    cases level : msg.packet.qos with
    | qos0 =>
      rw [level] at above
      exact absurd above (by decide)
    | qos1 | qos2 => exact nofun
  | some subs =>
    simp only [Publish.qos_eq, Option.some.injEq, exists_eq_left']
    cases level : msg.packet.qos with
    | qos0 =>
      rw [level] at above
      exact absurd above (by decide)
    | qos1 =>
      cases most : subs.maxQos with
      | qos0 => exact iff_of_false nofun (fun suited => suited.2.1 rfl)
      | qos1 | qos2 =>
        by_cases present : (peers 0).Registered subs.clid
        · exact iff_of_true (if_pos present) ⟨rfl, nofun, present⟩
        · refine iff_of_false ?_ (fun suited => present suited.2.2)
          rw [if_pos (by decide)]
          simp only [if_neg present]
          exact nofun
    | qos2 =>
      refine iff_of_false ?_ (by rintro ⟨impossible, _⟩; cases impossible)
      -- Whatever is written, a PUBREC followed by a PUBCOMP is not.
      cases most : subs.maxQos with
      | qos0 => exact nofun
      | qos1 =>
        rw [if_neg (by decide)]
        simp only [acknowledgementsDue]
        split <;> simp
      | qos2 =>
        rw [if_pos (by decide)]
        simp only [acknowledgementsDue, List.cons.injEq, true_and]
        split
        · rw [List.cons.injEq]
          rintro ⟨same, _⟩
          exact absurd (PubackPacket.plainBytes_inj same) (by decide)
        · exact nofun

/-- A client whose identifier is one letter. -/
def lettered (octet : UInt8) (valid : Utf8.valid [octet] = true) : Client :=
  { conid := ⟨0⟩, clid := .new ⟨[octet], valid⟩, protocolLevel := 5,
    session := ⟨90, 0, 60⟩, limit := ⟨none, none, none⟩ }

/-- Two clients with working sockets. -/
def pairOfPeers : Peers where
  clients := [lettered 0x61 rfl, lettered 0x62 rfl]
  writeAll _ _ := .ok ()

theorem pairOfPeers_reachable : Clients.registry.Reachable pairOfPeers.clients := by
  have first : Clients.registry.Step [] (.insert (lettered 0x62 (by decide)) 0)
      [lettered 0x62 (by decide)] := rfl
  have second : Clients.registry.Step [lettered 0x62 (by decide)]
      (.insert (lettered 0x61 (by decide)) 1) pairOfPeers.clients := rfl
  exact ⟨_, .step (.step (.initial rfl) first) second⟩

theorem queued_levelOne :
    Queued (lettered 0x61 (by decide)).clid
      (queueMessage (lettered 0x61 (by decide)).clid Publish.levelOnePacket) :=
  ⟨_, _, _, by decide, Publish.decode_levelOne, rfl⟩

/-- The publisher of a level 1 message gets its PUBACK behind a subscriber at level 2. -/
theorem acknowledged_iff_levelOne :
    let a := (lettered 0x61 (by decide)).clid
    let b := (lettered 0x62 (by decide)).clid
    acknowledgements a (handle (fun _ => some ⟨b, .qos2⟩) (fun _ => pairOfPeers)
        (queueMessage a Publish.levelOnePacket)).written =
      acknowledgementsDue 7 .qos1 :=
  (@acknowledged_iff (fun _ => pairOfPeers) (fun _ => pairOfPeers_reachable) (fun _ _ _ => rfl) _
    (fun _ => ⟨_, List.mem_cons_self, rfl⟩) _ 7 queued_levelOne rfl fun _ => some ⟨_, .qos2⟩).mpr
    ⟨rfl, _, rfl, nofun, _, List.mem_cons_of_mem _ List.mem_cons_self, rfl⟩

/-- Without a subscriber the publisher of the same message gets nothing. -/
theorem unacknowledged_without_subscriber :
    let a := (lettered 0x61 (by decide)).clid
    Clients.registry.Reachable pairOfPeers.clients ∧ pairOfPeers.Working ∧
      pairOfPeers.Registered a ∧ Queued a (queueMessage a Publish.levelOnePacket) ∧
      acknowledgements a (handle (fun _ => none) (fun _ => pairOfPeers)
        (queueMessage a Publish.levelOnePacket)).written ≠ acknowledgementsDue 7 .qos1 :=
  ⟨pairOfPeers_reachable, fun _ _ => rfl, ⟨_, List.mem_cons_self, rfl⟩, queued_levelOne, nofun⟩

end Sipusu.MessageBroker
