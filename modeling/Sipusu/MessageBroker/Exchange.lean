import Sipusu.Ds.TakeOrder
import Sipusu.Foundation.Simulation
import Sipusu.MessageBroker.Client.Boxes
import Sipusu.MessageBroker.Progress
import Sipusu.MessageBroker.SpawnClient

/-!
# The exchange

The way of a message through the broker: the task of a client decodes it and appends it to
the queue, `observer` takes it off and looks its topic up, and the task it spawns finds its
clients in the registry and writes to their sockets. The steps of the queue's list, the partial
writes of all tasks and the replacing and freeing of clients interleave, and where a task would
follow a pointer to what was freed there is no step. What the tasks of clients answer themselves
(CONNACK, SUBACK and PINGRESP) goes past these tasks. A request for several topics is taken as
one request for each.
-/

namespace Sipusu.MessageBroker

open Sipusu.Foundation Sipusu.Ds Sipusu.Protocol Sipusu.Protocol.V5

/-- A message in the queue: the client whose task enqueued it, and the packet. -/
abbrev Enqueued := ClientID × PublishPacket

/-- What the tasks of the broker share. -/
structure Exchange where
  clients : Boxes
  router : RouterTree
  queue : LinkedList.Machine Enqueued
  /-- How many of the messages taken `observer` has gone on with. -/
  handled : Nat
  delivery : Delivery
  /-- The box of the client that a task writes to. -/
  held : Nat → Option Nat

/-- What the tasks do. -/
inductive ExchangeAction where
  /-- A client is inserted or freed, or its own task changes its session. -/
  | registry (action : BoxAction)
  /-- `subscribe_topics` of the task for the client in a box reaches a topic of its request. -/
  | subscribe (address : Nat) (sub : Subscribe)
  /-- The task for the client in a box reads a PUBLISH, and `append` begins. -/
  | receive (task : Nat) (address : Nat) (buffer : Bytes)
  /-- A step of `append`. -/
  | append (task : Nat)
  /-- `observer` polls the queue, and `take_first` begins. -/
  | poll
  /-- A step of `take_first`. -/
  | take
  /-- `observer` goes on with the message it got. -/
  | observe
  /-- `pubish` finds the client, and `write_all` begins. -/
  | find (task : Nat)
  /-- `pubish` does not find the client. -/
  | notFound (task : Nat)
  /-- A socket takes some octets. -/
  | write (task : Nat) (n : Nat)
  /-- A socket fails. -/
  | fail (task : Nat)

namespace Exchange

/-- `BrokerMediator::new`. -/
def new : Exchange where
  clients := .new
  router := Trie.new
  queue := .new
  handled := 0
  delivery := .new
  held _ := none

/-- A step of the queue's list. -/
def queueStep (s : Exchange) (action : LinkedList.Action Enqueued) : Option Exchange :=
  (s.queue.definedStep action).map fun queue => { s with queue }

/-- What a task writes to from here on. -/
def hold (s : Exchange) (task : Nat) (address : Option Nat) : Exchange :=
  { s with held := Function.update s.held task address }

@[simp] theorem held_hold (s : Exchange) (task : Nat) (address : Option Nat) :
    (s.hold task address).held task = address := Function.update_self ..

theorem held_hold_ne (s : Exchange) {task other : Nat} (different : other ≠ task)
    (address : Option Nat) : (s.hold task address).held other = s.held other :=
  Function.update_of_ne different ..

/-- One step of one task. `pubish` looks its client up, and writes the packet to the client that
it found. -/
def step (s : Exchange) : ExchangeAction → Option Exchange
  | .registry action => (s.clients.step action).map fun clients => { s with clients }
  | .subscribe address sub => do
      let client ← s.clients.boxes address
      let result ← s.router.subscribe client.clid [sub]
      return { s with router := result.2 }
  | .receive task address buffer => do
      let client ← s.clients.boxes address
      if buffer.length ≤ ClientTask.bufferLength then
        match ClientPacketV5.decode buffer with
        | .ok (.publish packet, _) => s.queueStep (.append task (client.clid, packet))
        | _ => none
      else none
  | .append task => s.queueStep (.appendStep task)
  | .poll => if s.queue.taken.length = s.handled then s.queueStep .take else none
  | .take => s.queueStep .takeStep
  | .observe =>
      match s.queue.taken[s.handled]? with
      | none => none
      | some (_, publisher, packet) =>
          (s.delivery.step (.dequeue publisher packet (s.router.route packet.topic))).map
            fun delivery => { s with delivery, handled := s.handled + 1 }
  | .find task =>
      match s.delivery.current task, s.held task with
      | some (frame, 0), none => do
          let found ← s.clients.find frame.packet.target
          let address ← found
          return s.hold task (some address)
      | _, _ => none
  | .notFound task =>
      match s.delivery.current task, s.held task with
      | some (frame, 0), none =>
          if s.clients.find frame.packet.target = some none then
            (s.delivery.step (.notFound task)).map fun delivery => { s with delivery }
          else none
      | _, _ => none
  | .write task n => do
      let (frame, written) ← s.delivery.current task
      let address ← s.held task
      let _ ← s.clients.boxes address
      let delivery ← s.delivery.step (.write task n)
      return { s with
        delivery
        held := if written + n = frame.size then Function.update s.held task none else s.held }
  | .fail task => do
      let address ← s.held task
      let _ ← s.clients.boxes address
      let delivery ← s.delivery.fail task
      return { s with delivery }.hold task none

/-- All interleavings of the broker's tasks. -/
def system : System Exchange ExchangeAction := .ofStep new step

/-- The client is in the registry. -/
def Registered (s : Exchange) (clid : ClientID) : Prop :=
  ∃ clients, s.clients.readAll s.clients.list = some clients ∧ clid ∈ clients.map Client.clid

/-- A message that `observer` found a subscriber for. -/
structure Order where
  call : LinkedList.Call Enqueued
  subs : SubscriberInstance

namespace Order

/-- What `observer` hands to the task. -/
def publish (order : Order) : Publish := ⟨queueMessage order.call.2.1 order.call.2.2, order.subs⟩

/-- The task it spawns. -/
def task (order : Order) : ForwardTask := .spawn order.call.2.1 order.publish

/-- The octets of its message. -/
def octets (order : Order) : Bytes :=
  order.call.2.2.fixedHeader ::
    (RemainingLength.form order.call.2.2.encodedBody.length ++ order.call.2.2.encodedBody)

/-- The message as a packet for the subscriber. -/
def message (order : Order) : Packet := ⟨order.subs.clid, order.octets, true⟩

/-- An acknowledgement for the publisher. -/
def acknowledgement (order : Order) (packetType : PubACKType) : Packet :=
  ⟨order.call.2.1, PubackPacket.plainBytes packetType (order.call.2.2.packetId.getD 0), false⟩

/-- What is written for the order, one packet after another. -/
def packets (order : Order) : List Packet :=
  match order.publish.qos with
  | .qos0 => [order.message]
  | .qos1 => [order.message, order.acknowledgement .pubAck]
  | .qos2 => [order.acknowledgement .pubRec, order.message, order.acknowledgement .pubRel]

/-- A packet is the message, or an acknowledgement for the publisher. -/
theorem mem_packets {order : Order} {packet : Packet} (member : packet ∈ order.packets) :
    packet = order.message ∨ packet.message = false ∧ packet.target = order.call.2.1 := by
  rw [packets] at member
  cases level : order.publish.qos <;>
    simp only [level, List.mem_cons, List.not_mem_nil, or_false] at member
  · exact .inl member
  · rcases member with rfl | rfl
    · exact .inl rfl
    · exact .inr ⟨rfl, rfl⟩
  · rcases member with rfl | rfl | rfl
    · exact .inr ⟨rfl, rfl⟩
    · exact .inl rfl
    · exact .inr ⟨rfl, rfl⟩

/-- A packet that came in one receive buffer is always forwarded. -/
theorem forward_eq {order : Order} {buffer rest : Bytes}
    (received : buffer.length ≤ ClientTask.bufferLength)
    (decoded : ClientPacketV5.decode buffer = .ok (.publish order.call.2.2, rest)) :
    (∃ call, order.publish.forward = .ok call) ∧ order.task.packets = order.packets := by
  have limit := RemainingLength.limit_eq
  obtain ⟨_, _, _, _, published⟩ := ClientPacketV5.publish_of_decode decoded
  obtain ⟨_, length⟩ := PublishPacket.decode_encodable published
  have short : order.call.2.2.encodedBody.length < RemainingLength.limit := by
    rw [ClientTask.bufferLength] at received
    omega
  obtain ⟨_, forwarded⟩ :=
    Publish.forward_decoded decoded (by omega) order.call.2.1 order.subs
  rw [if_pos short] at forwarded
  have forwarded : order.publish.forward = .ok (.ofLevel order.publish.qos order.call.2.1
      order.subs.clid (order.call.2.2.packetId.getD 0) order.octets) := forwarded
  refine ⟨⟨_, forwarded⟩, ?_⟩
  simp only [task, ForwardTask.spawn, forwarded, packets]
  cases order.publish.qos <;> rfl

end Order

/-- The step of the queue's list in a step of the exchange. -/
def queueAction (s : Exchange) : ExchangeAction → Option (LinkedList.Action Enqueued)
  | .receive task address buffer =>
      match s.clients.boxes address, ClientPacketV5.decode buffer with
      | some client, .ok (.publish packet, _) => some (.append task (client.clid, packet))
      | _, _ => none
  | .append task => some (.appendStep task)
  | .poll => some .take
  | .take => some .takeStep
  | _ => none

/-- The request in a step. -/
def request (s : Exchange) : ExchangeAction → Option RouterTree.Request
  | .subscribe address sub => (s.clients.boxes address).map fun client => (client.clid, sub)
  | _ => none

/-- The order that a step makes. -/
def ordered (s : Exchange) : ExchangeAction → Option Order
  | .observe => do
      let call ← s.queue.taken[s.handled]?
      let subs ← s.router.route call.2.2.topic
      return ⟨call, subs⟩
  | _ => none

/-- The task that a step stops before its end. -/
def stopped (_ : Exchange) : ExchangeAction → Option Nat
  | .notFound task | .fail task => some task
  | _ => none

/-- The requests of a run. -/
def requests (trail : List (Exchange × ExchangeAction)) : List RouterTree.Request :=
  System.emitted request trail

/-- The orders of a run. The task for an order has its place here as its number. -/
def orders (trail : List (Exchange × ExchangeAction)) : List Order := System.emitted ordered trail

/-- The tasks stopped in a run. -/
def stops (trail : List (Exchange × ExchangeAction)) : List Nat := System.emitted stopped trail

/-- What one step can do. -/
inductive Effect (s : Exchange) : ExchangeAction → Exchange → Prop where
  | registry {action clients} (did : s.clients.step action = some clients) :
      Effect s (.registry action) { s with clients }
  | subscribe {address client sub reply router} (alive : s.clients.boxes address = some client)
      (granted : s.router.subscribe client.clid [sub] = some (reply, router)) :
      Effect s (.subscribe address sub) { s with router }
  | queue {action own queue} (isOwn : s.queueAction action = some own)
      (idle : s.request action = none ∧ s.ordered action = none ∧ s.stopped action = none)
      (quiet : ∀ task n, action ≠ .write task n)
      (did : s.queue.definedStep own = some queue) : Effect s action { s with queue }
  | observe {address publisher packet delivery}
      (first : s.queue.taken[s.handled]? = some (address, publisher, packet))
      (did : s.delivery.step (.dequeue publisher packet (s.router.route packet.topic)) =
        some delivery) :
      Effect s .observe { s with delivery, handled := s.handled + 1 }
  | find {task frame address} (isCurrent : s.delivery.current task = some (frame, 0))
      (free : s.held task = none) (found : s.clients.find frame.packet.target = some (some address)) :
      Effect s (.find task) (s.hold task (some address))
  | notFound {task delivery} (free : s.held task = none)
      (did : s.delivery.step (.notFound task) = some delivery) :
      Effect s (.notFound task) { s with delivery }
  | write {task n frame written address client delivery}
      (isCurrent : s.delivery.current task = some (frame, written))
      (holds : s.held task = some address) (alive : s.clients.boxes address = some client)
      (did : s.delivery.step (.write task n) = some delivery) :
      Effect s (.write task n) { s with
        delivery
        held := if written + n = frame.size then Function.update s.held task none else s.held }
  | fail {task delivery} (did : s.delivery.fail task = some delivery) :
      Effect s (.fail task) ({ s with delivery }.hold task none)

theorem step_effect {s after : Exchange} {action : ExchangeAction}
    (stepped : s.step action = some after) : s.Effect action after := by
  cases action with
  | registry action =>
    obtain ⟨clients, did, rfl⟩ := Option.map_eq_some_iff.mp stepped
    exact .registry did
  | subscribe address sub =>
    obtain ⟨client, alive, answered⟩ := Option.bind_eq_some_iff.mp stepped
    obtain ⟨⟨reply, router⟩, granted, same⟩ := Option.bind_eq_some_iff.mp answered
    cases same
    exact .subscribe alive granted
  | receive task address buffer =>
    obtain ⟨client, alive, read⟩ := Option.bind_eq_some_iff.mp stepped
    split at read
    · split at read
      · rename_i packet rest decoded
        obtain ⟨queue, did, rfl⟩ := Option.map_eq_some_iff.mp read
        exact .queue (by simp [queueAction, alive, decoded]) ⟨rfl, rfl, rfl⟩ nofun did
      · cases read
    · cases read
  | append task =>
    obtain ⟨queue, did, rfl⟩ := Option.map_eq_some_iff.mp stepped
    exact .queue rfl ⟨rfl, rfl, rfl⟩ nofun did
  | poll =>
    simp only [step] at stepped
    split at stepped
    · obtain ⟨queue, did, rfl⟩ := Option.map_eq_some_iff.mp stepped
      exact .queue rfl ⟨rfl, rfl, rfl⟩ nofun did
    · cases stepped
  | take =>
    obtain ⟨queue, did, rfl⟩ := Option.map_eq_some_iff.mp stepped
    exact .queue rfl ⟨rfl, rfl, rfl⟩ nofun did
  | observe =>
    simp only [step] at stepped
    split at stepped
    · cases stepped
    · rename_i first
      obtain ⟨delivery, did, rfl⟩ := Option.map_eq_some_iff.mp stepped
      exact .observe first did
  | find task =>
    simp only [step] at stepped
    split at stepped
    · rename_i frame isCurrent free
      obtain ⟨found, searched, lent⟩ := Option.bind_eq_some_iff.mp stepped
      obtain ⟨address, rfl, same⟩ := Option.bind_eq_some_iff.mp lent
      cases same
      exact .find isCurrent free searched
    · cases stepped
  | notFound task =>
    simp only [step] at stepped
    split at stepped
    · rename_i free
      split at stepped
      · obtain ⟨delivery, did, rfl⟩ := Option.map_eq_some_iff.mp stepped
        exact .notFound free did
      · cases stepped
    · cases stepped
  | write task n =>
    obtain ⟨⟨frame, written⟩, isCurrent, holding⟩ := Option.bind_eq_some_iff.mp stepped
    obtain ⟨address, holds, living⟩ := Option.bind_eq_some_iff.mp holding
    obtain ⟨client, alive, writing⟩ := Option.bind_eq_some_iff.mp living
    obtain ⟨delivery, did, same⟩ := Option.bind_eq_some_iff.mp writing
    cases same
    exact .write isCurrent holds alive did
  | fail task =>
    obtain ⟨address, _, living⟩ := Option.bind_eq_some_iff.mp stepped
    obtain ⟨client, _, failing⟩ := Option.bind_eq_some_iff.mp living
    obtain ⟨delivery, did, same⟩ := Option.bind_eq_some_iff.mp failing
    cases same
    exact .fail did

/-- The queue makes the steps of its list, and all others leave it. -/
theorem queue_simulation : System.Simulation system (LinkedList.definedMachine Enqueued)
    (fun _ _ => True) queueAction fun s queue => s.queue = queue where
  initial valid := by
    rw [valid]
    exact ⟨_, rfl, rfl⟩
  step := by
    rintro s action after queue rfl _ stepped
    cases step_effect stepped with
    | queue isOwn _ _ did => exact .inr ⟨_, _, isOwn, did, rfl⟩
    | registry | subscribe | observe | find | notFound | write | fail => exact .inl ⟨rfl, rfl⟩

section Registry

variable {s after : Exchange} {action : ExchangeAction}

theorem registered_iff {clients : List Client} (kept : s.clients.Kept clients) (clid : ClientID) :
    s.Registered clid ↔ clid ∈ clients.map Client.clid := by
  rw [Registered, kept.reads]
  simp

/-- Steps of the tasks leave the registry. -/
theorem Effect.boxes (effect : s.Effect action after) :
    after.clients = s.clients ∨ ∃ own, s.clients.step own = some after.clients := by
  cases effect with
  | registry did => exact .inr ⟨_, did⟩
  | subscribe | queue | observe | find | notFound | write | fail => exact .inl rfl

/-- Nobody leaves the registry. -/
theorem Effect.registered (effect : s.Effect action after) (kept : ∃ clients, s.clients.Kept clients) :
    (∃ clients, after.clients.Kept clients) ∧ ∀ clid, s.Registered clid → after.Registered clid := by
  obtain ⟨clients, kept⟩ := kept
  rcases effect.boxes with same | ⟨own, did⟩
  · simp only [Registered, same]
    exact ⟨⟨clients, kept⟩, fun _ => id⟩
  · obtain ⟨changed, still, stay⟩ := kept.step did
    refine ⟨⟨changed, still⟩, fun clid listed => ?_⟩
    rw [registered_iff still]
    exact stay clid ((registered_iff kept clid).mp listed)

/-- What is in an old box was there before, up to its session. -/
theorem Effect.box (effect : s.Effect action after) {address : Nat} (old : address < s.clients.fresh) :
    address < after.clients.fresh ∧ ∀ client, after.clients.boxes address = some client →
      ∃ before, s.clients.boxes address = some before ∧ before.clid = client.clid := by
  rcases effect.boxes with same | ⟨own, did⟩
  · rw [same]
    exact ⟨old, fun client isClient => ⟨client, isClient, rfl⟩⟩
  · exact Boxes.box_of_step did old

/-- The list is only ever taken from. -/
theorem Effect.taken (effect : s.Effect action after) : s.queue.taken <+: after.queue.taken := by
  cases effect with
  | queue _ _ _ did =>
    exact LinkedList.Machine.taken_isPrefix (LinkedList.Machine.definedStep_eq_some.mp did).2
  | registry | subscribe | observe | find | notFound | write | fail => exact List.prefix_rfl

end Registry

/-- The registry is kept on its pointers, and what tasks write goes to clients that are there. -/
structure Housed (s : Exchange) : Prop where
  kept : ∃ clients, s.clients.Kept clients
  reached : ∀ clid, s.delivery.stream clid ≠ [] → s.Registered clid
  /-- A task writes to a client that it found, under the identifier it looked up. -/
  holding : ∀ {task address}, s.held task = some address → ∃ frame written,
    s.delivery.current task = some (frame, written) ∧ s.Registered frame.packet.target ∧
      address < s.clients.fresh ∧
      ∀ client, s.clients.boxes address = some client → client.clid = frame.packet.target

section Housing

variable {s after : Exchange} {action : ExchangeAction}

theorem housed_new : new.Housed where
  kept := ⟨[], Boxes.kept_new⟩
  reached _ wrote := absurd rfl wrote
  holding holds := by cases holds

/-- A box that a task holds on to, while the task stays at its packet. -/
theorem Housed.stays (housed : s.Housed) (effect : s.Effect action after) {task address : Nat}
    (holds : s.held task = some address)
    (goesOn : ∀ frame written, s.delivery.current task = some (frame, written) →
      ∃ later, after.delivery.current task = some (frame, later)) : ∃ frame written,
    after.delivery.current task = some (frame, written) ∧ after.Registered frame.packet.target ∧
      address < after.clients.fresh ∧
      ∀ client, after.clients.boxes address = some client → client.clid = frame.packet.target := by
  obtain ⟨frame, written, isCurrent, registered, old, own⟩ := housed.holding holds
  obtain ⟨later, isNext⟩ := goesOn frame written isCurrent
  obtain ⟨still, before⟩ := effect.box old
  refine ⟨frame, later, isNext, (effect.registered housed.kept).2 _ registered, still, ?_⟩
  intro client isClient
  obtain ⟨earlier, was, same⟩ := before client isClient
  exact same.symm.trans (own earlier was)

theorem Housed.step (housed : s.Housed) (stepped : s.step action = some after) : after.Housed := by
  have effect := step_effect stepped
  obtain ⟨kept, stay⟩ := effect.registered housed.kept
  have keeps (stream : after.delivery.stream = s.delivery.stream) (clid : ClientID)
      (wrote : after.delivery.stream clid ≠ []) : after.Registered clid :=
    stay clid (housed.reached clid (stream ▸ wrote))
  have alike (held : after.held = s.held) (stands : ∀ {task address place},
        s.held task = some address → s.delivery.current task = some place →
        after.delivery.current task = some place) {task address : Nat}
      (holds : after.held task = some address) :=
    housed.stays effect (held ▸ holds) fun frame written isCurrent =>
      ⟨written, stands (held ▸ holds) isCurrent⟩
  cases effect with
  | registry | subscribe | queue => exact ⟨kept, keeps rfl, alike rfl fun _ => id⟩
  | observe first did =>
    have streams := (Delivery.step_silent did nofun).1
    refine ⟨kept, keeps streams, alike rfl fun _ isCurrent => ?_⟩
    exact Delivery.current_of_others did ⟨nofun, nofun⟩ isCurrent
  | notFound free did =>
    have streams := (Delivery.step_silent did nofun).1
    refine ⟨kept, keeps streams, alike rfl fun holds isCurrent => ?_⟩
    refine Delivery.current_of_others did ⟨?_, nofun⟩ isCurrent
    rintro ⟨⟩
    rw [free] at holds
    cases holds
  | @find task frame address isCurrent free found =>
    refine ⟨kept, keeps rfl, fun {other held} holds => ?_⟩
    by_cases mine : other = task
    · subst mine
      rw [held_hold, Option.some.injEq] at holds
      subst holds
      obtain ⟨clients, registry⟩ := housed.kept
      obtain ⟨listed, old, client, isClient, same⟩ := registry.find_eq_some found
      refine ⟨frame, 0, isCurrent, (registered_iff registry _).mpr listed, old, ?_⟩
      intro own isOwn
      cases isClient.symm.trans isOwn
      exact same
    · rw [held_hold_ne s mine] at holds
      exact housed.stays (.find isCurrent free found) holds fun later written is => ⟨written, is⟩
  | @fail task delivery did =>
    obtain ⟨streams, _, others⟩ := Delivery.fail_silent did
    refine ⟨kept, keeps streams, fun {other held} holds => ?_⟩
    by_cases mine : other = task
    · rw [mine, held_hold] at holds
      cases holds
    · rw [held_hold_ne _ mine] at holds
      refine housed.stays (.fail did) holds fun frame written isCurrent => ⟨written, ?_⟩
      exact (others other mine).trans isCurrent
  | @write task n frame written address client delivery isCurrent holds alive did =>
    obtain ⟨_, _, again, _, room, _, elsewhere, others, unfinished, _⟩ := Delivery.step_write did
    cases isCurrent.symm.trans again
    obtain ⟨_, _, isCurrent', registered, _⟩ := housed.holding holds
    cases isCurrent.symm.trans isCurrent'
    refine ⟨kept, fun clid wrote => ?_, fun {other held} holds => ?_⟩
    · by_cases toMe : clid = frame.packet.target
      · rw [toMe]
        exact stay _ registered
      · exact stay clid (housed.reached clid (elsewhere clid toMe ▸ wrote))
    · by_cases mine : other = task
      · subst mine
        by_cases finished : written + n = frame.size
        · simp [finished] at holds
        · simp only [finished, if_false] at holds
          refine housed.stays (.write isCurrent ‹_› alive did) holds fun later offset is => ?_
          cases isCurrent.symm.trans is
          exact ⟨_, unfinished (Nat.lt_of_le_of_ne room finished)⟩
      · have before : s.held other = some held := by
          rw [← holds]
          split
          · exact (Function.update_of_ne mine ..).symm
          · rfl
        refine housed.stays (.write isCurrent ‹_› alive did) before fun later offset is => ?_
        exact ⟨offset, (others other mine).trans is⟩

theorem housedInvariant : system.Invariant Housed where
  initial valid := by
    rw [valid]
    exact housed_new
  preserved housed stepped := housed.step stepped

end Housing

/-- What holds after a run of the router, the queue and the tasks that were spawned. -/
structure Consistent (trail : List (Exchange × ExchangeAction)) (s : Exchange) : Prop where
  intact : s.router.Intact
  routes : ∀ topic, s.router.route topic =
    ((RouterTree.onTopic topic (requests trail)).head?).map RouterTree.Request.instance
  within : s.handled ≤ s.queue.taken.length
  taken : ((orders trail).map Order.call).Sublist (s.queue.taken.take s.handled)
  routed : ∀ order ∈ orders trail, s.router.route order.call.2.2.topic = some order.subs
  accounted : s.delivery.Accounted ((orders trail).map Order.task) (stops trail)

theorem consistent_new : Consistent [] new where
  intact := Trie.intact_new
  routes topic := (Trie.getVal_eq rfl Child.distinct_new topic).trans (Child.valueAt_new _)
  within := Nat.le_refl 0
  taken := .slnil
  routed _ member := by cases member
  accounted := Delivery.accounted_new

theorem requests_append (trail : List (Exchange × ExchangeAction)) (s : Exchange)
    (action : ExchangeAction) :
    requests (trail ++ [(s, action)]) = requests trail ++ (s.request action).toList :=
  System.emitted_append ..

theorem orders_append (trail : List (Exchange × ExchangeAction)) (s : Exchange)
    (action : ExchangeAction) :
    orders (trail ++ [(s, action)]) = orders trail ++ (s.ordered action).toList :=
  System.emitted_append ..

theorem stops_append (trail : List (Exchange × ExchangeAction)) (s : Exchange)
    (action : ExchangeAction) :
    stops (trail ++ [(s, action)]) = stops trail ++ (s.stopped action).toList :=
  System.emitted_append ..

section Steps

variable {trail : List (Exchange × ExchangeAction)} {s after : Exchange} {action : ExchangeAction}

/-- A request binds its topic unless an earlier one has. -/
theorem routes_of_subscribe (intact : s.router.Intact) {clid : ClientID} {sub : Subscribe}
    {reply : Except Malformed (List SubAckResult)} {router : RouterTree}
    (granted : s.router.subscribe clid [sub] = some (reply, router)) :
    router.Intact ∧ ∀ topic, router.route topic = (s.router.route topic).or
      (((RouterTree.onTopic topic [(clid, sub)]).head?).map RouterTree.Request.instance) := by
  obtain ⟨next, did, nextIntact, bound⟩ := RouterTree.subscribe_spec intact clid [sub]
  rw [granted, Option.some.injEq, Prod.mk.injEq] at did
  obtain ⟨_, rfl⟩ := did
  refine ⟨nextIntact, fun topic => ?_⟩
  rw [RouterTree.route, bound, RouterTree.bindAll_eq]
  rfl

/-- A step of the observer puts its order behind the earlier ones. -/
theorem Consistent.observe (consistent : Consistent trail s) {address : LinkedList.Addr}
    {publisher : ClientID} {packet : PublishPacket} {delivery : Delivery}
    (first : s.queue.taken[s.handled]? = some (address, publisher, packet))
    (did : s.delivery.step (.dequeue publisher packet (s.router.route packet.topic)) =
      some delivery) :
    Consistent (trail ++ [(s, .observe)]) { s with delivery, handled := s.handled + 1 } := by
  have later : orders (trail ++ [(s, .observe)]) = orders trail ++
      ((s.router.route packet.topic).map (Order.mk (address, publisher, packet))).toList := by
    rw [orders_append, ordered, first]
    cases found : s.router.route packet.topic <;> simp [found]
  have longer : s.queue.taken.take (s.handled + 1) =
      s.queue.taken.take s.handled ++ [(address, publisher, packet)] := by
    rw [List.take_add_one, first, Option.toList_some]
  refine ⟨consistent.intact, ?_, (List.getElem?_eq_some_iff.mp first).1, ?_, ?_, ?_⟩
  · intro topic
    rw [requests_append, show s.request .observe = none from rfl, Option.toList_none,
      List.append_nil]
    exact consistent.routes topic
  · change List.Sublist _ (s.queue.taken.take (s.handled + 1))
    rw [longer, later, List.map_append]
    refine consistent.taken.append ?_
    cases s.router.route packet.topic with
    | none => exact List.nil_sublist _
    | some subs => exact List.Sublist.refl _
  · intro order member
    rw [later, List.mem_append] at member
    rcases member with old | new
    · exact consistent.routed order old
    · obtain ⟨subs, found, rfl⟩ := Option.map_eq_some_iff.mp (Option.mem_toList.mp new)
      exact found
  · rw [later, stops_append, show s.stopped .observe = none from rfl, Option.toList_none,
      List.append_nil]
    have spawned := consistent.accounted.dequeue did
    cases found : s.router.route packet.topic with
    | none => simpa [found] using spawned
    | some subs => simpa [found, Order.task, Order.publish] using spawned

/-- A step that orders nothing. -/
theorem Consistent.keep (consistent : Consistent trail s) (ordered : s.ordered action = none)
    (intact : after.router.Intact)
    (routes : ∀ topic, after.router.route topic = (s.router.route topic).or
      (((RouterTree.onTopic topic (s.request action).toList).head?).map RouterTree.Request.instance))
    (taken : s.queue.taken <+: after.queue.taken) (handled : after.handled = s.handled)
    (accounted : after.delivery.Accounted ((orders trail).map Order.task)
      (stops trail ++ (s.stopped action).toList)) : Consistent (trail ++ [(s, action)]) after := by
  have sameOrders : orders (trail ++ [(s, action)]) = orders trail := by
    rw [orders_append, ordered, Option.toList_none, List.append_nil]
  refine ⟨intact, fun topic => ?_, ?_, ?_, fun order member => ?_, ?_⟩
  · rw [routes, consistent.routes, requests_append, RouterTree.onTopic_append, List.head?_append,
      Option.map_or]
  · rw [handled]
    exact consistent.within.trans taken.length_le
  · rw [sameOrders, handled]
    exact consistent.taken.trans (taken.take _).sublist
  · rw [sameOrders] at member
    rw [routes, consistent.routed order member, Option.some_or]
  · rw [sameOrders, stops_append]
    exact accounted

theorem Consistent.step (consistent : Consistent trail s) (stepped : s.step action = some after) :
    Consistent (trail ++ [(s, action)]) after := by
  have effect := step_effect stepped
  have taken := effect.taken
  have unbound (topic : Str) : s.router.route topic = (s.router.route topic).or
      (((RouterTree.onTopic topic (none : Option RouterTree.Request).toList).head?).map
        RouterTree.Request.instance) := (Option.or_none ..).symm
  have unstopped : s.delivery.Accounted ((orders trail).map Order.task)
      (stops trail ++ (none : Option Nat).toList) := by
    rw [Option.toList_none, List.append_nil]
    exact consistent.accounted
  cases effect with
  | registry | find => exact consistent.keep rfl consistent.intact unbound taken rfl unstopped
  | @subscribe address client sub _ _ alive granted =>
    obtain ⟨intact, routes⟩ := routes_of_subscribe consistent.intact granted
    refine consistent.keep rfl intact ?_ taken rfl unstopped
    have asked : s.request (.subscribe address sub) = some (client.clid, sub) := by
      rw [request, alive, Option.map_some]
    rw [asked]
    exact routes
  | queue _ idle _ _ =>
    refine consistent.keep idle.2.1 consistent.intact ?_ taken rfl ?_
    · rw [idle.1]
      exact unbound
    · rw [idle.2.2]
      exact unstopped
  | observe first did => exact consistent.observe first did
  | notFound _ did =>
    exact consistent.keep rfl consistent.intact unbound taken rfl (consistent.accounted.notFound did)
  | fail did =>
    exact consistent.keep rfl consistent.intact unbound taken rfl (consistent.accounted.fail did)
  | @write task n _ _ _ _ _ _ _ _ did =>
    refine consistent.keep rfl consistent.intact unbound taken rfl ?_
    rw [show s.stopped (.write task n) = none from rfl, Option.toList_none, List.append_nil]
    exact consistent.accounted.write did

theorem consistent_of_run (run : system.Run trail s) : Consistent trail s := by
  induction run with
  | initial valid =>
    rw [valid]
    exact consistent_new
  | step _ transition inductionHypothesis => exact inductionHypothesis.step transition

/-- The packets of a task differ from each other. -/
theorem distinct_packets : ∀ first ∈ (orders trail).map Order.task, first.packets.Nodup := by
  intro first member
  obtain ⟨order, _, rfl⟩ := List.mem_map.mp member
  exact ForwardTask.nodup_spawn ..

end Steps

/-- In a step a task writes this octet of its packet to the client in the box, which is not freed
and has the identifier that was looked up. -/
def Puts (frame : Frame) (i address : Nat) (s : Exchange) (action : ExchangeAction) : Prop :=
  ∃ n written client, action = .write frame.task n ∧
    s.delivery.current frame.task = some (frame, written) ∧ written ≤ i ∧ i < written + n ∧
    s.held frame.task = some address ∧ s.clients.boxes address = some client ∧
    client.clid = frame.packet.target

/-- The octet went to the client in the box. -/
def Through (trail : List (Exchange × ExchangeAction)) (frame : Frame) (i address : Nat) : Prop :=
  ∃ entry ∈ trail, Puts frame i address entry.1 entry.2

/-- Each octet that was written went to a client, and those of one packet to the same. -/
structure Carried (trail : List (Exchange × ExchangeAction)) (s : Exchange) : Prop where
  sent : ∀ {clid frame i}, (frame, i) ∈ s.delivery.stream clid → ∃ address,
    Through trail frame i address
  known : ∀ {frame i address}, Through trail frame i address →
    (frame, i) ∈ s.delivery.stream frame.packet.target
  /-- A task in the middle of its packet still writes to that client. -/
  going : ∀ {frame i address written}, Through trail frame i address →
    s.delivery.current frame.task = some (frame, written) → s.held frame.task = some address
  sole : ∀ {frame i j one other}, Through trail frame i one → Through trail frame j other →
    one = other

section Carrying

variable {trail : List (Exchange × ExchangeAction)} {s after : Exchange} {action : ExchangeAction}
  {orders : List ForwardTask} {stopped : List Nat}

theorem through_append {frame : Frame} {i address : Nat} :
    Through (trail ++ [(s, action)]) frame i address ↔
      Through trail frame i address ∨ Puts frame i address s action := by
  simp only [Through, List.mem_append, List.mem_singleton, or_and_right, exists_or,
    exists_eq_left]

theorem carried_new : Carried [] new where
  sent member := by cases member
  known through := by simp [Through] at through
  going through := by simp [Through] at through
  sole through := by simp [Through] at through

/-- A step that writes nothing. -/
theorem Carried.silent (carried : Carried trail s) (accounted : after.delivery.Accounted orders stopped)
    (distinct : ∀ first ∈ orders, first.packets.Nodup) (quiet : ∀ task n, action ≠ .write task n)
    (stream : after.delivery.stream = s.delivery.stream)
    (same : ∀ {task frame written}, after.delivery.current task = some (frame, written) →
      0 < written → s.delivery.current task = some (frame, written) ∧
        after.held task = s.held task) : Carried (trail ++ [(s, action)]) after := by
  have old {frame : Frame} {i address : Nat}
      (through : Through (trail ++ [(s, action)]) frame i address) :
      Through trail frame i address := by
    rcases through_append.mp through with before | ⟨n, _, _, isWrite, _⟩
    · exact before
    · exact absurd isWrite (quiet _ n)
  refine ⟨fun member => ?_, fun through => ?_, fun through isCurrent => ?_, fun left right => ?_⟩
  · obtain ⟨address, through⟩ := carried.sent (stream ▸ member)
    exact ⟨address, through_append.mpr (.inl through)⟩
  · rw [stream]
    exact carried.known (old through)
  · -- An octet of the packet is out, so the task is in the middle of it, and was before.
    have out := carried.known (old through)
    rw [← stream] at out
    have begun := Nat.lt_of_le_of_lt (Nat.zero_le _) (accounted.unwritten distinct isCurrent out)
    obtain ⟨before, held⟩ := same isCurrent begun
    rw [held]
    exact carried.going (old through) before
  · exact carried.sole (old left) (old right)

theorem Carried.write (carried : Carried trail s) (housed : s.Housed) {task n written address : Nat}
    {frame : Frame} {client : Client} {delivery : Delivery}
    (accounted : delivery.Accounted orders stopped)
    (distinct : ∀ first ∈ orders, first.packets.Nodup)
    (isCurrent : s.delivery.current task = some (frame, written))
    (holds : s.held task = some address) (alive : s.clients.boxes address = some client)
    (did : s.delivery.step (.write task n) = some delivery) :
    Carried (trail ++ [(s, .write task n)]) { s with
      delivery
      held := if written + n = frame.size then Function.update s.held task none else s.held } := by
  obtain ⟨_, _, again, _, _, mine, elsewhere, _⟩ := Delivery.step_write did
  cases isCurrent.symm.trans again
  obtain rfl := Delivery.task_of_current isCurrent
  have own : client.clid = frame.packet.target := by
    obtain ⟨_, _, isCurrent', _, _, own⟩ := housed.holding holds
    cases isCurrent.symm.trans isCurrent'
    exact own client alive
  have now {other : Frame} {i place : Nat} (puts : Puts other i place s (.write frame.task n)) :
      other = frame ∧ written ≤ i ∧ i < written + n ∧ place = address := by
    obtain ⟨m, offset, _, isWrite, isOther, after, before, held, _⟩ := puts
    obtain ⟨same, rfl⟩ := ExchangeAction.write.inj isWrite
    rw [← same] at isOther held
    cases isCurrent.symm.trans isOther
    exact ⟨rfl, after, before, Option.some.inj (held.symm.trans holds)⟩
  have grows {other : Frame} {i : Nat} (member : (other, i) ∈ s.delivery.stream other.packet.target) :
      (other, i) ∈ delivery.stream other.packet.target := by
    by_cases toMe : other.packet.target = frame.packet.target
    · rw [toMe, mine]
      exact List.mem_append_left _ (toMe ▸ member)
    · rw [elsewhere _ toMe]
      exact member
  have known {other : Frame} {i place : Nat}
      (through : Through (trail ++ [(s, .write frame.task n)]) other i place) :
      (other, i) ∈ delivery.stream other.packet.target := by
    rcases through_append.mp through with before | puts
    · exact grows (carried.known before)
    · obtain ⟨rfl, from_, to_, _⟩ := now puts
      rw [mine]
      refine List.mem_append_right _ (List.mem_map.mpr ⟨i, ?_, rfl⟩)
      rw [List.mem_range'_1]
      exact ⟨from_, to_⟩
  refine ⟨fun {clid other i} member => ?_, known, fun {other i place offset} through isNext => ?_,
    fun {other i j one two} left right => ?_⟩
  · have old (before : (other, i) ∈ s.delivery.stream clid) : ∃ address,
        Through (trail ++ [(s, .write frame.task n)]) other i address := by
      obtain ⟨address, through⟩ := carried.sent before
      exact ⟨address, through_append.mpr (.inl through)⟩
    by_cases toMe : clid = frame.packet.target
    · subst toMe
      change (other, i) ∈ delivery.stream frame.packet.target at member
      rw [mine, List.mem_append] at member
      rcases member with before | written_
      · exact old before
      · obtain ⟨place, inside, same⟩ := List.mem_map.mp written_
        cases same
        rw [List.mem_range'_1] at inside
        exact ⟨address, through_append.mpr (.inr
          ⟨n, written, client, rfl, isCurrent, inside.1, inside.2, holds, alive, own⟩)⟩
    · exact old (elsewhere clid toMe ▸ member)
  · have begun := Nat.lt_of_le_of_lt (Nat.zero_le _)
      (accounted.unwritten distinct isNext (known through))
    rcases Delivery.current_of_write isCurrent did isNext begun with
      ⟨isTask, rfl, _, unfinished⟩ | ⟨apart, before⟩
    · have held : s.held other.task = some place := by
        rcases through_append.mp through with before | puts
        · exact carried.going before isCurrent
        · rw [(now puts).2.2.2]
          exact holds
      simpa [Nat.ne_of_lt unfinished] using held
    · have earlier : Through trail other i place := by
        rcases through_append.mp through with before | puts
        · exact before
        · exact absurd ((now puts).1 ▸ rfl) apart
      rw [← carried.going earlier before]
      change (if written + n = frame.size then Function.update s.held frame.task none
        else s.held) other.task = s.held other.task
      split
      · exact Function.update_of_ne apart ..
      · rfl
  · have mixed {place there : Nat} {i : Nat} (before : Through trail other i place)
        (puts : Puts other j there s (.write frame.task n)) : place = there := by
      obtain ⟨rfl, _, _, rfl⟩ := now puts
      exact Option.some.inj ((carried.going before isCurrent).symm.trans holds)
    rcases through_append.mp left with before | puts <;>
      rcases through_append.mp right with earlier | writes
    · exact carried.sole before earlier
    · exact mixed before writes
    · obtain ⟨rfl, _, _, rfl⟩ := now puts
      exact Option.some.inj (holds.symm.trans (carried.going earlier isCurrent))
    · rw [(now puts).2.2.2, (now writes).2.2.2]

theorem carried_of_run (run : system.Run trail s) : Carried trail s := by
  induction run with
  | initial valid =>
    rw [valid]
    exact carried_new
  | @step trail state action next prior transition inductionHypothesis =>
    have housed := housedInvariant.of_run prior
    have accounted := (consistent_of_run (.step prior transition)).accounted
    have silent (quiet : ∀ task n, action ≠ .write task n) :=
      inductionHypothesis.silent accounted distinct_packets quiet
    have effect := step_effect transition
    cases effect with
    | registry | subscribe => exact silent nofun rfl fun isCurrent _ => ⟨isCurrent, rfl⟩
    | queue _ _ quiet _ => exact silent quiet rfl fun isCurrent _ => ⟨isCurrent, rfl⟩
    | observe _ did =>
      obtain ⟨streams, busy⟩ := Delivery.step_silent did nofun
      exact silent nofun streams fun isCurrent begun => ⟨(busy _ _ _ begun).mp isCurrent, rfl⟩
    | notFound _ did =>
      obtain ⟨streams, busy⟩ := Delivery.step_silent did nofun
      exact silent nofun streams fun isCurrent begun => ⟨(busy _ _ _ begun).mp isCurrent, rfl⟩
    | @find task frame address unbegun _ _ =>
      refine silent nofun rfl fun {other later written} isCurrent begun =>
        ⟨isCurrent, held_hold_ne state ?_ _⟩
      rintro rfl
      cases unbegun.symm.trans isCurrent
      exact Nat.lt_irrefl 0 begun
    | @fail task delivery did =>
      obtain ⟨streams, ended, others⟩ := Delivery.fail_silent did
      refine silent nofun streams fun {other later written} isCurrent begun => ?_
      have different : other ≠ task := by
        rintro rfl
        cases ended.symm.trans isCurrent
      exact ⟨(others other different).symm.trans isCurrent, held_hold_ne _ different none⟩
    | write isCurrent holds alive did =>
      exact inductionHypothesis.write housed accounted distinct_packets isCurrent holds alive did

end Carrying

section Results

variable {trail : List (Exchange × ExchangeAction)} {s : Exchange}

/-- The task for the client in a box that is not freed reads a PUBLISH. -/
def Received (trail : List (Exchange × ExchangeAction)) (publisher : ClientID)
    (packet : PublishPacket) : Prop :=
  ∃ earlier task address client buffer rest, (earlier, .receive task address buffer) ∈ trail ∧
    earlier.clients.boxes address = some client ∧ client.clid = publisher ∧
    buffer.length ≤ ClientTask.bufferLength ∧
    ClientPacketV5.decode buffer = .ok (.publish packet, rest)

/-- The queue's list makes a run of its own. -/
theorem queue_run (run : system.Run trail s) :
    ∃ history, (LinkedList.definedMachine Enqueued).Run history s.queue ∧
      history.map Prod.snd = System.emitted queueAction trail := by
  obtain ⟨history, _, queue, labels, rfl⟩ := queue_simulation.of_run run fun _ _ => trivial
  exact ⟨history, queue, labels⟩

/-- Every order is for a message that the task of its publisher received. -/
theorem received_of_order (run : system.Run trail s) {order : Order} (member : order ∈ orders trail) :
    Received trail order.call.2.1 order.call.2.2 := by
  obtain ⟨history, defined, labels⟩ := queue_run run
  have queue := LinkedList.Machine.run_of_defined defined
  have taken : order.call ∈ s.queue.taken :=
    List.mem_of_mem_take ((consistent_of_run run).taken.subset (List.mem_map_of_mem member))
  obtain ⟨task, began⟩ := (LinkedList.Machine.begun_of_run queue).returned order.call
    ((LinkedList.Machine.taken_sublist queue).1.subset taken)
  have begun := LinkedList.Machine.begun_of_mem_callsOf began
  rw [labels, System.emitted, List.mem_filterMap] at begun
  obtain ⟨⟨earlier, action⟩, listed, isAppend⟩ := begun
  obtain ⟨after, stepped⟩ := run.stepped listed
  cases action with
  | receive other address buffer =>
    simp only [queueAction] at isAppend
    split at isAppend
    · rename_i client packet rest alive decoded
      simp only [Option.some.injEq, LinkedList.Action.append.injEq] at isAppend
      obtain ⟨rfl, same⟩ := isAppend
      rw [← same]
      refine ⟨earlier, other, address, client, buffer, rest, listed, alive, rfl, ?_, decoded⟩
      obtain ⟨_, _, read⟩ := Option.bind_eq_some_iff.mp stepped
      by_contra long
      rw [if_neg long] at read
      cases read
    · cases isAppend
  | append | poll | take | registry | subscribe | observe | find | notFound | write | fail =>
    cases isAppend

/-- The task for an order writes the packets of the order. -/
theorem packets_of_order (run : system.Run trail s) {order : Order} (member : order ∈ orders trail) :
    (∃ call, order.publish.forward = .ok call) ∧ order.task.packets = order.packets := by
  obtain ⟨_, _, _, _, buffer, rest, _, _, _, short, decoded⟩ := received_of_order run member
  exact Order.forward_eq short decoded

/-- The task of an order, by its number. -/
theorem task_of_order {number : Nat} {order : Order} (listed : (orders trail)[number]? = some order) :
    ((orders trail).map Order.task)[number]? = some order.task := by
  rw [List.getElem?_map, listed, Option.map_some]

/-- All the octets of a packet were written to one client. -/
def Whole (trail : List (Exchange × ExchangeAction)) (order : Order) (number : Nat)
    (packet : Packet) : Prop :=
  ∃ address, ∀ i < packet.bytes.length, Through trail (order.task.frame number packet) i address

/-- Some octet of a packet was written. -/
def Begun (trail : List (Exchange × ExchangeAction)) (order : Order) (number : Nat)
    (packet : Packet) : Prop :=
  ∃ i address, Through trail (order.task.frame number packet) i address

/-- A packet whose octets are all out went to one client. -/
theorem Carried.whole (carried : Carried trail s) {order : Order} {number : Nat} {packet : Packet}
    (out : ∀ i < packet.bytes.length,
      (order.task.frame number packet, i) ∈ s.delivery.stream packet.target) :
    Whole trail order number packet := by
  by_cases some : 0 < packet.bytes.length
  · obtain ⟨address, first⟩ := carried.sent (out 0 some)
    refine ⟨address, fun i inside => ?_⟩
    obtain ⟨other, through⟩ := carried.sent (out i inside)
    rw [carried.sole first through]
    exact through
  · exact ⟨0, fun i inside => absurd (Nat.lt_of_le_of_lt (Nat.zero_le i) inside) some⟩

/-- What holds of all that was written, after any run. -/
structure Confined (trail : List (Exchange × ExchangeAction)) (s : Exchange) : Prop where
  /-- The orders are for messages taken from the queue, in their order. -/
  taken : ((orders trail).map Order.call).Sublist s.queue.taken
  /-- No message is ordered twice. -/
  once : ((orders trail).map fun order => order.call.1).Nodup
  /-- Its publisher's task received it. -/
  received : ∀ order ∈ orders trail, Received trail order.call.2.1 order.call.2.2
  /-- Its subscriber was the first to ask for the topic. -/
  routed : ∀ order ∈ orders trail,
    (RouterTree.onTopic order.call.2.2.topic (requests trail)).head? =
      some (order.subs.clid, ⟨order.call.2.2.topic, order.subs.maxQos⟩)
  /-- The subscriber gets octets of the message, and the publisher of acknowledgements. -/
  octets : ∀ clid, ∀ octet ∈ s.delivery.stream clid, ∃ order,
    (orders trail)[octet.1.task]? = some order ∧ octet.2 < octet.1.size ∧
      (octet.1.packet = order.message ∧ clid = order.subs.clid ∨
        octet.1.packet.message = false ∧ clid = order.call.2.1)
  /-- Each is written to a client that is not freed and has the identifier looked up, and those of
  one packet to the same. -/
  through : ∀ clid, ∀ octet ∈ s.delivery.stream clid, ∃ address, Through trail octet.1 octet.2 address
  sole : ∀ {frame i j one other}, Through trail frame i one → Through trail frame j other →
    one = other
  /-- No octet of a packet is written twice. -/
  nodup : ∀ clid, (s.delivery.stream clid).Nodup
  /-- Only registered clients are written to. -/
  registered : ∀ clid, s.delivery.stream clid ≠ [] → s.Registered clid

theorem valid_publisher : Utf8.valid [0x61] = true := rfl

theorem valid_subscriber : Utf8.valid [0x62] = true := rfl

def publisher : Client := lettered 0x61 valid_publisher

def subscriber : Client := lettered 0x62 valid_subscriber

/-- A client at level 2 asks for a topic and its session runs out, it comes back and gets a new
box while the old one is freed, and another client publishes at level 1. -/
def oneMessage : List ExchangeAction :=
  [.registry (.insert publisher 0), .registry (.insert subscriber 0),
    .subscribe 1 ⟨⟨[0x74], RawSubscribe.valid_topic⟩, .qos2⟩, .registry (.insert subscriber 200),
    .receive 0 0 Publish.levelOne, .append 0, .append 0, .poll, .take, .take, .take, .observe,
    .find 0, .write 0 4, .registry (.free 1), .write 0 6, .find 0, .write 0 5]

/-- The subscriber has the message and the publisher its acknowledgement. -/
theorem oneMessage_runs :
    let trail := System.trailOf step new oneMessage
    ∃ s, system.Run trail s ∧ s.delivery.wire subscriber.clid = Publish.levelOne ∧
      s.delivery.wire publisher.clid = PubackPacket.plainBytes .pubAck 7 ∧
      s.clients.freed = [1] := by
  intro trail
  have ran : (System.execute step new oneMessage).map (fun s =>
      (s.delivery.wire subscriber.clid, s.delivery.wire publisher.clid, s.clients.freed)) =
        some (Publish.levelOne, PubackPacket.plainBytes .pubAck 7, [1]) := by
    decide
  obtain ⟨s, executed, wrote⟩ := Option.map_eq_some_iff.mp ran
  simp only [Prod.mk.injEq] at wrote
  exact ⟨s, System.run_of_execute executed, wrote⟩

theorem oneMessage_order :
    ∃ order, (orders (System.trailOf step new oneMessage))[0]? = some order ∧
      order.publish.qos = .qos1 := by
  have made : ((orders (System.trailOf step new oneMessage))[0]?).map
      (fun order => order.publish.qos) = some .qos1 := by
    decide
  exact Option.map_eq_some_iff.mp made

/-- In every interleaving of the broker's tasks, whatever is lost or fails, the octets that the
tasks for messages write go, those of a message, only to the client that first asked for its
topic, and those of its acknowledgements only to its publisher, each octet at most once and those
of one packet to one client that is not freed. -/
theorem confined (run : system.Run trail s) : Confined trail s := by
  have consistent := consistent_of_run run
  have carried := carried_of_run run
  obtain ⟨history, defined, _⟩ := queue_run run
  have queue := LinkedList.Machine.run_of_defined defined
  have taken : ((orders trail).map Order.call).Sublist s.queue.taken :=
    consistent.taken.trans (List.take_sublist _ _)
  refine ⟨taken, ?_, fun order => received_of_order run, ?_, ?_,
    fun clid octet => carried.sent, carried.sole, ?_, (housedInvariant.of_run run).reached⟩
  · have distinct := (LinkedList.Machine.taken_sublist queue).2.sublist (taken.map Prod.fst)
    rwa [List.map_map] at distinct
  · intro order member
    have bound := consistent.routed order member
    rw [consistent.routes, Option.map_eq_some_iff] at bound
    obtain ⟨⟨clid, sub⟩, first, same⟩ := bound
    have onTopic := List.mem_filter.mp (List.mem_of_head? first)
    have topic : sub.topic = order.call.2.2.topic := of_decide_eq_true onTopic.2
    rw [first, ← same, ← topic]
    rfl
  · intro clid octet member
    obtain ⟨first, packet, listed, isPacket, isFrame, target, inside⟩ :=
      consistent.accounted.origin member
    rw [List.getElem?_map, Option.map_eq_some_iff] at listed
    obtain ⟨order, ordered, rfl⟩ := listed
    rw [(packets_of_order run (List.mem_of_getElem? ordered)).2] at isPacket
    have same : octet.1.packet = packet := by
      rw [isFrame]
      rfl
    refine ⟨order, ordered, by rw [Frame.size, same]; exact inside, ?_⟩
    rw [same, ← target]
    rcases Order.mem_packets isPacket with rfl | acknowledgement
    · exact .inl ⟨rfl, rfl⟩
    · exact .inr acknowledgement
  · exact consistent.accounted.nodup distinct_packets

theorem confined_oneMessage :
    let trail := System.trailOf step new oneMessage
    ∃ s, system.Run trail s ∧ s.delivery.wire subscriber.clid = Publish.levelOne ∧
      Confined trail s := by
  intro trail
  obtain ⟨s, run, wrote, _⟩ := oneMessage_runs
  exact ⟨s, run, wrote, confined run⟩

/-- What precedes an acknowledgement, by the level of the delivery. -/
def AcknowledgedAfter (trail : List (Exchange × ExchangeAction)) (number : Nat) (order : Order) :
    Prop :=
  match order.publish.qos with
  | .qos0 => True
  | .qos1 =>
      Begun trail order number (order.acknowledgement .pubAck) → Whole trail order number order.message
  | .qos2 =>
      (Begun trail order number order.message →
        Whole trail order number (order.acknowledgement .pubRec)) ∧
      (Begun trail order number (order.acknowledgement .pubRel) →
        Whole trail order number order.message)

/-- In every interleaving, a publisher gets no octet of a PUBACK or PUBREL before all of its
message was written to one client with the subscriber's identifier, and the subscriber none of a
message at level 2 before all of the PUBREC was written to one with the publisher's. -/
theorem acknowledged_after (run : system.Run trail s) {number : Nat} {order : Order}
    (listed : (orders trail)[number]? = some order) : AcknowledgedAfter trail number order := by
  have consistent := consistent_of_run run
  have carried := carried_of_run run
  have packets := (packets_of_order run (List.mem_of_getElem? listed)).2
  have before {earlier later : List Packet} {packet first : Packet}
      (split : order.packets = earlier ++ packet :: later) (isEarlier : first ∈ earlier)
      (begun : Begun trail order number packet) : Whole trail order number first := by
    obtain ⟨place, address, through⟩ := begun
    refine carried.whole fun i inside => ?_
    exact consistent.accounted.earlier (task_of_order listed) (ForwardTask.nodup_spawn ..)
      (packets.trans split) (carried.known through) isEarlier inside
  rw [AcknowledgedAfter]
  cases level : order.publish.qos with
  | qos0 => trivial
  | qos1 =>
    have split : order.packets = [order.message] ++ order.acknowledgement .pubAck :: [] := by
      rw [Order.packets, level]
      rfl
    exact before split List.mem_cons_self
  | qos2 =>
    have first : order.packets = [order.acknowledgement .pubRec] ++
        order.message :: [order.acknowledgement .pubRel] := by
      rw [Order.packets, level]
      rfl
    have last : order.packets = [order.acknowledgement .pubRec, order.message] ++
        order.acknowledgement .pubRel :: [] := by
      rw [Order.packets, level]
      rfl
    exact ⟨before first List.mem_cons_self, before last (List.mem_cons_of_mem _ List.mem_cons_self)⟩

/-- The PUBACK follows the message. -/
theorem acknowledged_after_oneMessage :
    let trail := System.trailOf step new oneMessage
    ∃ s order, system.Run trail s ∧ (orders trail)[0]? = some order ∧ order.publish.qos = .qos1 ∧
      AcknowledgedAfter trail 0 order := by
  intro trail
  obtain ⟨s, run, _⟩ := oneMessage_runs
  obtain ⟨order, listed, level⟩ := oneMessage_order
  exact ⟨s, order, run, listed, level, acknowledged_after run listed⟩

/-- In every run, the task for a message that has a subscriber does not abort, and once it has
nothing left to write it has written the whole message and all acknowledgements, each to one
client, unless a client was missing or a socket failed. -/
theorem written_unless_stopped (run : system.Run trail s) {number : Nat} {order : Order}
    (listed : (orders trail)[number]? = some order) :
    (∃ call, order.publish.forward = .ok call) ∧
      (number ∈ stops trail ∨ s.delivery.current number ≠ none ∨
        ∀ packet ∈ order.packets, Whole trail order number packet) := by
  obtain ⟨forwarded, packets⟩ := packets_of_order run (List.mem_of_getElem? listed)
  refine ⟨forwarded, ?_⟩
  by_cases halted : number ∈ stops trail
  · exact .inl halted
  by_cases ended : s.delivery.current number = none
  · refine .inr (.inr fun packet isPacket => (carried_of_run run).whole fun i inside => ?_)
    exact (consistent_of_run run).accounted.complete (task_of_order listed) halted ended
      (packets ▸ isPacket) inside
  · exact .inr (.inl ended)

theorem written_unless_stopped_oneMessage :
    let trail := System.trailOf step new oneMessage
    ∃ s order, system.Run trail s ∧ (orders trail)[0]? = some order ∧
      (∃ call, order.publish.forward = .ok call) ∧
        (0 ∈ stops trail ∨ s.delivery.current 0 ≠ none ∨
          ∀ packet ∈ order.packets, Whole trail order 0 packet) := by
  intro trail
  obtain ⟨s, run, _⟩ := oneMessage_runs
  obtain ⟨order, listed, _⟩ := oneMessage_order
  exact ⟨s, order, run, listed, written_unless_stopped run listed⟩

end Results

end Exchange
end Sipusu.MessageBroker
