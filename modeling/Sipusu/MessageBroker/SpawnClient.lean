import Sipusu.MessageBroker.Client.Client
import Sipusu.MessageBroker.Client.Storage.Subscribed
import Sipusu.MessageBroker.Client.Storage.Wall
import Sipusu.Protocol.Mqtt

/-!
# The task of a client

The loop of `spawn_client` in `src/message_broker/mediator.rs`. A turn reads the clock
at its head and uses that reading until its end, however long the read blocks. It
decodes one packet from what one read returns, and a SUBSCRIBE packet ends the task when the
client's subscription file cannot be read back. Sockets and files are taken to do their work.
-/

namespace Sipusu.MessageBroker

open Sipusu.Foundation Sipusu.Protocol

/-- What `read_timeout` returns: octets, none of them at the end of the stream, or one
of two kinds of errors. -/
inductive ReadResult where
  | ok (readed : Bytes)
  | timedOut
  | failed

/-- What a turn gets from outside: the clock at its head, what the read returns, the clock
after it, and how the map is iterated over that the turn may save. -/
structure Reading where
  t : Nat
  read : ReadResult
  now : Nat
  iteration : IterationOrder

/-- How a turn of the loop ends. -/
inductive Turn where
  | dead (sevent : WALL)
  | timedOut
  | disconnected (sevent : WALL)
  | killed
  | aborted
  | skipped (packet : ClientPacketV5)
  | dispatched (packet : ClientPacketV5)
  /-- The packet was dispatched, and its subscriptions could not be saved. -/
  | unsaved (packet : ClientPacketV5)

namespace Turn

/-- The loop goes on after this turn. -/
def continues : Turn → Bool
  | .dead _ | .disconnected _ | .aborted | .unsaved _ => false
  | .timedOut | .killed | .skipped _ | .dispatched _ => true

/-- The packet that a turn dispatched. -/
def packet? : Turn → Option ClientPacketV5
  | .dispatched packet | .unsaved packet => some packet
  | _ => none

end Turn

/-- The variables of the loop: the client, and the length of its buffer; and the content of
the client's subscription file. -/
structure ClientTask where
  client : Client
  buffer : Nat
  subscribed : Bytes

namespace ClientTask

/-- `BytesMut::zeroed(1024)`. -/
def bufferLength : Nat := 1024

/-- `spawn_client` before its loop. -/
def spawn (client : Client) (subscribed : Bytes) : ClientTask :=
  { client, buffer := bufferLength, subscribed }

/-- What is logged when the client is found dead. -/
def deathEvent (task : ClientTask) (t : Nat) : WALL :=
  ⟨UInt64.ofNat (t + 1), .disconnectByServer (UInt64.ofNat task.client.expirationTime)⟩

/-- What is logged when the read fails. -/
def failureEvent (task : ClientTask) (t : Nat) : WALL :=
  ⟨UInt64.ofNat (t + 1), .clientDisconnected (UInt64.ofNat task.client.expirationTime)⟩

/-- The end of a turn that dispatches a packet. `subscribe_topics` saves the subscriptions, and
its last `unwrap` aborts the task when the file cannot be read back. -/
def save (task : ClientTask) (packet : ClientPacketV5) (iteration : IterationOrder) :
    Turn × ClientTask :=
  match packet with
  | .subscribe request =>
      match ClientStore.subscribe task.subscribed request.list iteration with
      | .ok subscribed => (.dispatched packet, { task with subscribed })
      | _ => (.unsaved packet, task)
  | _ => (.dispatched packet, task)

/-- One turn of the loop. The part of the buffer that was split off is only made up for
after a packet was dispatched. -/
def turn (task : ClientTask) (reading : Reading) : Turn × ClientTask :=
  let t := reading.t
  if !task.client.isAlive t then (.dead (task.deathEvent t), task)
  else
    match reading.read with
    | .timedOut => (.timedOut, task)
    | .failed => (.disconnected (task.failureEvent t), task)
    | .ok [] => (.killed, { task with client := task.client.kill reading.now })
    | .ok readed =>
        match ClientPacketV5.decode readed with
        | .ok (packetReceived, _) =>
            match task.client.keepAliveAt (t + 1) with
            | .ok client => { task with client }.save packetReceived reading.iteration
            | .err _ => (.skipped packetReceived, { task with buffer := task.buffer - readed.length })
            | .panic => (.aborted, task)
        | _ => (.aborted, task)

/-- The loop: the packets it dispatches. -/
def listen (task : ClientTask) : List Reading → List ClientPacketV5
  | [] => []
  | reading :: rest =>
      let (turn, next) := task.turn reading
      turn.packet?.toList ++ if turn.continues then listen next rest else []

section Turns

variable {task : ClientTask} {reading : Reading}

/-- A turn that dispatches a packet only changes the subscription file. -/
theorem save_cases (task : ClientTask) (packet : ClientPacketV5) (iteration : IterationOrder) :
    ∃ turn subscribed, task.save packet iteration = (turn, { task with subscribed }) ∧
      (turn = .dispatched packet ∨ turn = .unsaved packet) := by
  cases packet with
  | publish | pingReq => exact ⟨_, _, rfl, .inl rfl⟩
  | subscribe request =>
    rw [save]
    cases ClientStore.subscribe task.subscribed request.list iteration with
    | ok subscribed => exact ⟨_, subscribed, rfl, .inl rfl⟩
    | err | panic => exact ⟨_, task.subscribed, rfl, .inr rfl⟩

/-- A client whose deadline has passed is found dead, whatever there is to read. -/
theorem turn_of_late (late : task.client.session.ttl < reading.t) :
    task.turn reading = (.dead (task.deathEvent reading.t), task) := by
  have dead : task.client.isAlive reading.t = false := by
    simpa [Client.isAlive, Session.isAlive] using late
  simp [turn, dead]

variable (early : reading.t ≤ task.client.session.ttl)
include early

theorem isAlive_of_early : task.client.isAlive reading.t = true := by
  simpa [Client.isAlive, Session.isAlive] using early

theorem turn_of_timedOut (read : reading.read = .timedOut) : task.turn reading = (.timedOut, task) := by
  simp [turn, isAlive_of_early early, read]

theorem turn_of_failed (read : reading.read = .failed) :
    task.turn reading = (.disconnected (task.failureEvent reading.t), task) := by
  simp [turn, isAlive_of_early early, read]

/-- What becomes of octets that decode: the deadline decides. -/
theorem turn_of_packet {readed rest : Bytes} {packet : ClientPacketV5} (nonempty : readed ≠ [])
    (read : reading.read = .ok readed) (decoded : ClientPacketV5.decode readed = .ok (packet, rest)) :
    task.turn reading =
      match task.client.keepAliveAt (reading.t + 1) with
      | .ok client => { task with client }.save packet reading.iteration
      | .err _ => (.skipped packet, { task with buffer := task.buffer - readed.length })
      | .panic => (.aborted, task) := by
  obtain ⟨first, tail, rfl⟩ := List.exists_cons_of_ne_nil nonempty
  simp [turn, isAlive_of_early early, read, decoded]

theorem turn_of_undecodable {readed : Bytes} (nonempty : readed ≠ [])
    (read : reading.read = .ok readed)
    (undecodable : ∀ packet rest, ClientPacketV5.decode readed ≠ .ok (packet, rest)) :
    task.turn reading = (.aborted, task) := by
  obtain ⟨first, tail, rfl⟩ := List.exists_cons_of_ne_nil nonempty
  cases verdict : ClientPacketV5.decode (first :: tail) with
  | ok result => exact absurd verdict (undecodable result.1 result.2)
  | err error => simp [turn, isAlive_of_early early, read, verdict]
  | panic => simp [turn, isAlive_of_early early, read, verdict]

end Turns

end ClientTask
end Sipusu.MessageBroker
