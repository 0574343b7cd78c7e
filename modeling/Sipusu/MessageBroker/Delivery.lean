import Sipusu.Foundation.Runs
import Sipusu.Foundation.Stream
import Sipusu.MessageBroker.Acknowledge

/-!
# Tasks that write to one socket

The tasks that `observer` spawns, one for each message, run side by side. `pubish` gives
up the registry's lock before it awaits `write_all`, and `write_all` is a series of
partial writes, so nothing keeps the octets of two tasks apart or in order.
-/

namespace Sipusu.MessageBroker

open Sipusu.Foundation Sipusu.Protocol Sipusu.Protocol.V5

/-- Octets that a task hands to `pubish`: the message itself, or an acknowledgement. -/
structure Packet where
  target : ClientID
  bytes : Bytes
  message : Bool
deriving DecidableEq

/-- What a call of the forwarder writes, one packet after another, if nothing stops it. -/
def SendCall.packets : SendCall → List Packet
  | .qos0 subscriber buffer => [⟨subscriber, buffer, true⟩]
  | .qos1 publisher subscriber packetId buffer =>
      [⟨subscriber, buffer, true⟩,
        ⟨publisher, PubackPacket.plainBytes .pubAck packetId, false⟩]
  | .qos2 publisher subscriber packetId buffer =>
      [⟨publisher, PubackPacket.plainBytes .pubRec packetId, false⟩, ⟨subscriber, buffer, true⟩,
        ⟨publisher, PubackPacket.plainBytes .pubRel packetId, false⟩]

/-- What a call has written when it ends is a front of its packets. -/
theorem SendCall.written_send_isPrefix {peers : Nat → Peers}
    (ascending : ∀ k, Clients.Ascending (peers k).clients) (working : ∀ k, (peers k).Working)
    (call : SendCall) :
    (call.send peers).written <+: call.packets.map fun packet => (packet.target, packet.bytes) := by
  have sends (k : Nat) := Peers.pubish_eq (ascending k) (working k)
  have encoded (packetType : PubACKType) (packetId : UInt16) :
      (PubackPacket.plain packetType packetId).encode.unwrap =
        (.ok (PubackPacket.plainBytes packetType packetId) : Outcome PubishError Bytes) := rfl
  -- Each `pubish` writes its packet and goes on, or ends the call.
  have goesOn {k : Nat} {conId : ClientID} {packet : Bytes} {next : Unit → Traced Write PubishError Unit}
      {rest : List Write} (later : (next ()).written <+: rest) :
      ((peers k).pubish conId packet >>= next).written <+: (conId, packet) :: rest := by
    rw [sends]
    split
    · rw [Traced.written_bind_of_ok rfl]
      exact List.prefix_append_right_inj _ |>.mpr later
    · rw [Traced.written_bind_of_err rfl]
      exact List.nil_prefix
  have last {k : Nat} {conId : ClientID} {packet : Bytes} :
      ((peers k).pubish conId packet).written <+: [(conId, packet)] := by
    rw [sends]
    split
    · exact List.prefix_rfl
    · exact List.nil_prefix
  cases call with
  | qos0 subscriber buffer =>
    rw [send, Traced.written_discard]
    exact last
  | qos1 publisher subscriber packetId buffer =>
    rw [send, encoded, Traced.ofOutcome_ok_bind]
    exact goesOn last
  | qos2 publisher subscriber packetId buffer =>
    simp only [send, encoded, Traced.ofOutcome_ok_bind]
    exact goesOn (goesOn last)

/-- A packet and where it comes from: the task, by its place in the order of dequeueing, and
the publisher and the topic of its message. -/
structure Frame where
  task : Nat
  publisher : ClientID
  topic : Str
  packet : Packet
deriving DecidableEq

namespace Frame

/-- The number of octets to write. -/
def size (frame : Frame) : Nat := frame.packet.bytes.length

/-- Both frames are messages of one publisher on one topic. -/
def Related (left right : Frame) : Prop :=
  left.packet.message = true ∧ right.packet.message = true ∧ left.publisher = right.publisher ∧
    left.topic = right.topic

instance (left right : Frame) : Decidable (Related left right) :=
  inferInstanceAs (Decidable (_ ∧ _ ∧ _ ∧ _))

end Frame

/-- A task of `Publish::forward`: the packets that it has left to write, and how many octets
of the first it has written. -/
structure ForwardTask where
  publisher : ClientID
  topic : Str
  packets : List Packet
  written : Nat

namespace ForwardTask

/-- The task for a message. One whose packet has no encoding writes nothing. -/
def spawn (publisher : ClientID) (order : Publish) : ForwardTask where
  publisher
  topic := order.msg.packet.topic
  packets :=
    match order.forward with
    | .ok call => call.packets
    | _ => []
  written := 0

/-- The socket has taken some more octets of the first packet. -/
def advance (task : ForwardTask) (n : Nat) : ForwardTask :=
  match task.packets with
  | [] => task
  | packet :: rest =>
      if task.written + n = packet.bytes.length then { task with packets := rest, written := 0 }
      else { task with written := task.written + n }

section Advance

variable {task : ForwardTask} {packet : Packet} {rest : List Packet} {n : Nat}

theorem advance_of_unfinished (isFirst : task.packets = packet :: rest)
    (unfinished : task.written + n < packet.bytes.length) :
    task.advance n = { task with written := task.written + n } := by
  simp only [advance, isFirst, if_neg (Nat.ne_of_lt unfinished)]

theorem advance_of_finished (isFirst : task.packets = packet :: rest)
    (finished : task.written + n = packet.bytes.length) :
    task.advance n = { task with packets := rest, written := 0 } := by
  simp only [advance, isFirst, if_pos finished]

end Advance

end ForwardTask

/-- The tasks in the order in which their messages were dequeued, and the octets written to
each client. -/
structure Delivery where
  tasks : List ForwardTask
  stream : ClientID → List (Frame × Nat)

/-- What happens at the tasks. -/
inductive DeliveryAction where
  /-- `observer` dequeues a publisher's packet, for whose topic the router returns this. -/
  | dequeue (publisher : ClientID) (packet : PublishPacket) (subs : Option SubscriberInstance)
  /-- `pubish` does not find the client. -/
  | notFound (task : Nat)
  /-- A socket takes some octets of the packet that a task writes. -/
  | write (task : Nat) (n : Nat)

namespace Delivery

/-- Nothing has been dequeued yet. -/
def new : Delivery := { tasks := [], stream := fun _ => [] }

/-- The packet that a task writes, and how many octets of it are written. -/
def current (state : Delivery) (task : Nat) : Option (Frame × Nat) := do
  let own ← state.tasks[task]?
  let packet ← own.packets.head?
  return ({ task, publisher := own.publisher, topic := own.topic, packet }, own.written)

/-- One step of any task. -/
def step (state : Delivery) : DeliveryAction → Option Delivery
  | .dequeue publisher packet subs =>
      match observe (fun _ => subs) (queueMessage publisher packet) with
      | none => some state
      | some order =>
          some { state with tasks := state.tasks ++ [ForwardTask.spawn publisher order] }
  | .notFound task =>
      match state.current task with
      | some (_, 0) =>
          some { state with tasks := state.tasks.modify task fun own => { own with packets := [] } }
      | _ => none
  | .write task n =>
      match state.current task with
      | none => none
      | some (frame, written) =>
          if 0 < n ∧ written + n ≤ frame.size then
            some { tasks := state.tasks.modify task (ForwardTask.advance · n)
                   stream := Function.update state.stream frame.packet.target
                     (state.stream frame.packet.target ++ Stream.piece frame written n) }
          else none

/-- All interleavings of the tasks. -/
def system : System Delivery DeliveryAction := .ofStep new step

/-- The octets themselves. -/
def wire (state : Delivery) (clid : ClientID) : Bytes :=
  (state.stream clid).map fun octet => octet.1.packet.bytes.getD octet.2 0

/-- The task is in the middle of a packet to the client. -/
def Busy (state : Delivery) (task : Nat) (clid : ClientID) : Prop :=
  ∃ frame written, state.current task = some (frame, written) ∧ 0 < written ∧
    frame.packet.target = clid

/-- No message stands before an earlier one of the same publisher on the same topic. -/
def InOrder (stream : List (Frame × Nat)) : Prop :=
  stream.Pairwise fun earlier later =>
    earlier.1.Related later.1 → earlier.1.task ≤ later.1.task

/-- A client gets whole packets, one of which a task may still be writing at the end, and
the messages of one publisher on one topic in the order of dequeueing. -/
def WellFormed (state : Delivery) (clid : ClientID) : Prop :=
  (∃ frames front, state.stream clid = Stream.wholes Frame.size frames ++ front ∧
    (front = [] ∨ ∃ task frame written, state.current task = some (frame, written) ∧
      frame.packet.target = clid ∧ written ≤ frame.size ∧ front = Stream.piece frame 0 written)) ∧
  InOrder (state.stream clid)

/-- The condition on steps: a socket takes octets of a task only while no other task is in
the middle of a packet to that client, and while nothing of a later message of the same
publisher on the same topic was written to it. -/
def Guarded (state : Delivery) : DeliveryAction → Prop
  | .write task _ => ∀ frame written, state.current task = some (frame, written) →
      (∀ other, other ≠ task → ¬ state.Busy other frame.packet.target) ∧
      ∀ octet ∈ state.stream frame.packet.target, octet.1.Related frame → octet.1.task ≤ task
  | _ => True

/-- What guarded steps keep: at most one task is in the middle of a packet to a client, and
then the stream ends with what it has written of it. -/
structure Separate (state : Delivery) : Prop where
  inside : ∀ {task frame written}, state.current task = some (frame, written) →
    0 < written → written < frame.size
  sole : ∀ {task other clid}, state.Busy task clid → state.Busy other clid → task = other
  busy : ∀ {task frame written}, state.current task = some (frame, written) → 0 < written →
    ∃ frames, state.stream frame.packet.target =
      Stream.wholes Frame.size frames ++ Stream.piece frame 0 written
  idle : ∀ {clid}, (∀ task, ¬ state.Busy task clid) →
    ∃ frames, state.stream clid = Stream.wholes Frame.size frames
  ordered : ∀ clid, InOrder (state.stream clid)

theorem Separate.wellFormed {state : Delivery} (separate : state.Separate) (clid : ClientID) :
    state.WellFormed clid := by
  refine ⟨?_, separate.ordered clid⟩
  by_cases someone : ∃ task, state.Busy task clid
  · obtain ⟨task, frame, written, isCurrent, begun, rfl⟩ := someone
    obtain ⟨frames, split⟩ := separate.busy isCurrent begun
    exact ⟨frames, _, split, .inr ⟨task, frame, written, isCurrent, rfl,
      Nat.le_of_lt (separate.inside isCurrent begun), rfl⟩⟩
  · obtain ⟨frames, split⟩ := separate.idle (not_exists.mp someone)
    exact ⟨frames, [], by rw [split, List.append_nil], .inl rfl⟩

/-- Every octet of a well-formed stream follows the one before it. -/
theorem WellFormed.isChain {state : Delivery} {clid : ClientID}
    (wellFormed : state.WellFormed clid) :
    (state.stream clid).IsChain (Stream.Follows Frame.size) := by
  obtain ⟨⟨frames, front, split, whole | ⟨_, frame, written, _, _, _, part⟩⟩, _⟩ := wellFormed
  · cases frames with
    | nil =>
      rw [split, whole]
      exact .nil
    | cons first rest =>
      rw [split, whole, ← Stream.piece_zero first 0]
      exact Stream.isChain_wholes_append ..
  · rw [split, part]
    exact Stream.isChain_wholes_append ..

theorem wire_piece (frame : Frame) {n : Nat} (within : n ≤ frame.size) :
    (Stream.piece frame 0 n).map (fun octet => octet.1.packet.bytes.getD octet.2 0) =
      frame.packet.bytes.take n := by
  rw [Stream.piece, List.map_map]
  have lengths : n = min n frame.packet.bytes.length := (Nat.min_eq_left within).symm
  refine List.ext_getElem (by simpa using lengths) fun i left right => ?_
  rw [List.length_take] at right
  have inside : i < frame.packet.bytes.length := by omega
  simp [inside]

/-- In octets, a well-formed stream is whole packets, and behind them the front of one that
a task is still writing. -/
theorem WellFormed.wire_eq {state : Delivery} {clid : ClientID}
    (wellFormed : state.WellFormed clid) :
    ∃ frames : List Frame, ∃ front,
      state.wire clid = (frames.flatMap fun frame => frame.packet.bytes) ++ front ∧
      (front = [] ∨ ∃ task frame written, state.current task = some (frame, written) ∧
        frame.packet.target = clid ∧ front = frame.packet.bytes.take written) := by
  obtain ⟨⟨frames, front, split, tail⟩, _⟩ := wellFormed
  have whole : (Stream.wholes Frame.size frames).map
      (fun octet => octet.1.packet.bytes.getD octet.2 0) =
        frames.flatMap fun frame => frame.packet.bytes := by
    rw [Stream.wholes, List.map_flatMap]
    refine List.flatMap_congr fun frame _ => ?_
    rw [wire_piece frame (Nat.le_refl _), Frame.size, List.take_length]
  refine ⟨frames, _, by rw [wire, split, List.map_append, whole], ?_⟩
  rcases tail with rfl | ⟨task, frame, written, isCurrent, target, within, rfl⟩
  · exact .inl rfl
  · exact .inr ⟨task, frame, written, isCurrent, target, wire_piece frame within⟩

theorem separate_new : new.Separate where
  inside isCurrent := nomatch isCurrent
  sole busy := by
    obtain ⟨_, _, isCurrent, _⟩ := busy
    cases isCurrent
  busy isCurrent := nomatch isCurrent
  idle _ := ⟨[], rfl⟩
  ordered _ := .nil

theorem current_eq_some {state : Delivery} {task : Nat} {frame : Frame} {written : Nat} :
    state.current task = some (frame, written) ↔
      ∃ own packet rest, state.tasks[task]? = some own ∧ own.packets = packet :: rest ∧
        frame = ⟨task, own.publisher, own.topic, packet⟩ ∧ written = own.written := by
  simp only [current, Option.bind_eq_bind, Option.bind_eq_some_iff, Option.pure_def,
    Option.some.injEq, Prod.mk.injEq, List.head?_eq_some_iff]
  constructor
  · rintro ⟨own, listed, packet, ⟨rest, isFirst⟩, same, offset⟩
    exact ⟨own, packet, rest, listed, isFirst, same.symm, offset.symm⟩
  · rintro ⟨own, packet, rest, listed, isFirst, same, offset⟩
    exact ⟨own, listed, packet, ⟨rest, isFirst⟩, same.symm, offset.symm⟩

theorem task_of_current {state : Delivery} {task : Nat} {frame : Frame} {written : Nat}
    (isCurrent : state.current task = some (frame, written)) : frame.task = task := by
  obtain ⟨_, _, _, _, _, rfl, _⟩ := current_eq_some.mp isCurrent
  rfl

/-- Changing one task leaves what the others write. -/
theorem current_modify_ne {state next : Delivery} {task other : Nat}
    {f : ForwardTask → ForwardTask} (tasks : next.tasks = state.tasks.modify task f)
    (different : other ≠ task) : next.current other = state.current other := by
  have unchanged : next.tasks[other]? = state.tasks[other]? := by
    simp [tasks, Ne.symm different]
  rw [current, current, unchanged]

/-- What a step does that writes nothing: no task gets into the middle of a packet. -/
theorem step_silent {state next : Delivery} {action : DeliveryAction}
    (stepped : state.step action = some next) (silent : ∀ task n, action ≠ .write task n) :
    next.stream = state.stream ∧ ∀ task frame written, 0 < written →
      (next.current task = some (frame, written) ↔ state.current task = some (frame, written)) := by
  cases action with
  | dequeue publisher packet subs =>
    rw [step] at stepped
    split at stepped
    · rw [Option.some.injEq] at stepped
      subst stepped
      exact ⟨rfl, fun _ _ _ _ => Iff.rfl⟩
    · rename_i order _
      rw [Option.some.injEq] at stepped
      subst stepped
      refine ⟨rfl, fun task frame written begun => ?_⟩
      by_cases known : task < state.tasks.length
      · rw [current, current, List.getElem?_append_left known]
      · have absent : state.current task = none := by
          rw [current, List.getElem?_eq_none (Nat.le_of_not_lt known)]
          rfl
        rw [absent]
        refine iff_of_false ?_ nofun
        rw [current_eq_some]
        rintro ⟨own, _, _, listed, _, _, offset⟩
        rw [List.getElem?_append_right (Nat.le_of_not_lt known),
          List.getElem?_singleton] at listed
        split at listed
        · rw [Option.some.injEq] at listed
          rw [offset, ← listed] at begun
          exact absurd begun (Nat.lt_irrefl 0)
        · cases listed
  | notFound given =>
    rw [step] at stepped
    split at stepped
    · rename_i before isCurrent
      rw [Option.some.injEq] at stepped
      subst stepped
      refine ⟨rfl, fun task frame written begun => ?_⟩
      by_cases same : task = given
      · subst same
        refine iff_of_false ?_ ?_
        · rw [current_eq_some]
          rintro ⟨own, packet, rest, listed, isFirst, _, _⟩
          rw [List.getElem?_modify_eq, Option.map_eq_map, Option.map_eq_some_iff] at listed
          obtain ⟨_, _, rfl⟩ := listed
          cases isFirst
        · rw [isCurrent]
          rintro same
          simp only [Option.some.injEq, Prod.mk.injEq] at same
          rw [← same.2] at begun
          exact absurd begun (Nat.lt_irrefl 0)
      · rw [current_modify_ne rfl same]
    · cases stepped
  | write task n => exact absurd rfl (silent task n)

/-- What a write does. -/
theorem step_write {state next : Delivery} {task n : Nat}
    (stepped : state.step (.write task n) = some next) :
    ∃ frame written, state.current task = some (frame, written) ∧ 0 < n ∧
      written + n ≤ frame.size ∧
      next.stream frame.packet.target =
        state.stream frame.packet.target ++ Stream.piece frame written n ∧
      (∀ clid, clid ≠ frame.packet.target → next.stream clid = state.stream clid) ∧
      (∀ other, other ≠ task → next.current other = state.current other) ∧
      (written + n < frame.size → next.current task = some (frame, written + n)) ∧
      (written + n = frame.size → ∀ later offset, next.current task = some (later, offset) →
        offset = 0) := by
  rw [step] at stepped
  split at stepped
  · cases stepped
  · rename_i frame written isCurrent
    split at stepped
    · rename_i room
      rw [Option.some.injEq] at stepped
      subst stepped
      refine ⟨frame, written, isCurrent, room.1, room.2, Function.update_self ..,
        fun clid other => Function.update_of_ne other .., fun other different =>
          current_modify_ne rfl different, ?_, ?_⟩ <;>
        obtain ⟨own, packet, rest, listed, isFirst, rfl, rfl⟩ := current_eq_some.mp isCurrent
      · intro unfinished
        refine current_eq_some.mpr ⟨{ own with written := own.written + n }, packet, rest, ?_,
          isFirst, rfl, rfl⟩
        rw [List.getElem?_modify_eq, listed, Option.map_eq_map, Option.map_some,
          ForwardTask.advance_of_unfinished isFirst unfinished]
      · intro finished later offset next
        obtain ⟨after, _, _, modified, _, _, rfl⟩ := current_eq_some.mp next
        rw [List.getElem?_modify_eq, listed, Option.map_eq_map, Option.map_some,
          ForwardTask.advance_of_finished isFirst finished, Option.some.injEq] at modified
        rw [← modified]
    · cases stepped

theorem Separate.of_silent {state next : Delivery} {action : DeliveryAction}
    (separate : state.Separate) (stepped : state.step action = some next)
    (silent : ∀ task n, action ≠ .write task n) : next.Separate := by
  obtain ⟨streams, agree⟩ := step_silent stepped silent
  have busyIff (task : Nat) (clid : ClientID) : next.Busy task clid ↔ state.Busy task clid := by
    constructor <;> rintro ⟨frame, written, isCurrent, begun, target⟩
    · exact ⟨frame, written, (agree _ _ _ begun).mp isCurrent, begun, target⟩
    · exact ⟨frame, written, (agree _ _ _ begun).mpr isCurrent, begun, target⟩
  constructor
  · intro task frame written isCurrent begun
    exact separate.inside ((agree _ _ _ begun).mp isCurrent) begun
  · intro task other clid left right
    exact separate.sole ((busyIff _ _).mp left) ((busyIff _ _).mp right)
  · intro task frame written isCurrent begun
    rw [streams]
    exact separate.busy ((agree _ _ _ begun).mp isCurrent) begun
  · intro clid nobody
    rw [streams]
    exact separate.idle fun task busy => nobody task ((busyIff _ _).mpr busy)
  · intro clid
    rw [streams]
    exact separate.ordered clid

/-- Before a guarded write the stream ends with what the task has written of its packet. -/
theorem Separate.before_write {state : Delivery} (separate : state.Separate) {task : Nat}
    {frame : Frame} {written : Nat} (isCurrent : state.current task = some (frame, written))
    (alone : ∀ other, other ≠ task → ¬ state.Busy other frame.packet.target) :
    ∃ frames, state.stream frame.packet.target =
      Stream.wholes Frame.size frames ++ Stream.piece frame 0 written := by
  rcases Nat.eq_zero_or_pos written with rfl | begun
  · have nobody : ∀ other, ¬ state.Busy other frame.packet.target := by
      rintro other busy
      by_cases same : other = task
      · obtain ⟨_, offset, again, begun, _⟩ := same ▸ busy
        rw [isCurrent, Option.some.injEq, Prod.mk.injEq] at again
        rw [← again.2] at begun
        exact absurd begun (Nat.lt_irrefl 0)
      · exact alone other same busy
    obtain ⟨frames, split⟩ := separate.idle nobody
    exact ⟨frames, by rw [split, Stream.piece_zero, List.append_nil]⟩
  · exact separate.busy isCurrent begun

/-- In the middle of a packet after a write: the task itself, or one that already was. -/
theorem current_of_write {state next : Delivery} {task n written : Nat} {frame : Frame}
    (isCurrent : state.current task = some (frame, written))
    (stepped : state.step (.write task n) = some next) {other offset : Nat} {later : Frame}
    (isNext : next.current other = some (later, offset)) (begun : 0 < offset) :
    (other = task ∧ later = frame ∧ offset = written + n ∧ written + n < frame.size) ∨
      (other ≠ task ∧ state.current other = some (later, offset)) := by
  obtain ⟨_, _, again, _, room, _, _, others, unfinished, finished⟩ := step_write stepped
  rw [isCurrent, Option.some.injEq, Prod.mk.injEq] at again
  obtain ⟨rfl, rfl⟩ := again
  by_cases same : other = task
  · subst same
    rcases Nat.lt_or_eq_of_le room with short | full
    · rw [unfinished short, Option.some.injEq, Prod.mk.injEq] at isNext
      exact .inl ⟨rfl, isNext.1.symm, isNext.2.symm, short⟩
    · rw [finished full _ _ isNext] at begun
      exact absurd begun (Nat.lt_irrefl 0)
  · exact .inr ⟨same, (others other same).symm.trans isNext⟩

/-- A packet of the latest task keeps the order. -/
theorem InOrder.append_piece {stream : List (Frame × Nat)} (ordered : InOrder stream)
    {frame : Frame} {start count : Nat}
    (latest : ∀ earlier ∈ stream, earlier.1.Related frame → earlier.1.task ≤ frame.task) :
    InOrder (stream ++ Stream.piece frame start count) := by
  rw [InOrder, List.pairwise_append]
  refine ⟨ordered, ?_, ?_⟩
  · refine List.pairwise_of_forall_mem_list fun left isLeft right isRight _ => ?_
    rw [Stream.mem_piece isLeft, Stream.mem_piece isRight]
  · intro earlier member later piece related
    rw [Stream.mem_piece piece] at related ⊢
    exact latest earlier member related

theorem Separate.of_write {state next : Delivery} (separate : state.Separate) {task n : Nat}
    (guarded : state.Guarded (.write task n)) (stepped : state.step (.write task n) = some next) :
    next.Separate := by
  obtain ⟨frame, written, isCurrent, some, room, here, elsewhere, others, unfinished, finished⟩ :=
    step_write stepped
  obtain ⟨alone, latest⟩ := guarded frame written isCurrent
  obtain ⟨frames, before⟩ := separate.before_write isCurrent alone
  have longer : next.stream frame.packet.target =
      Stream.wholes Frame.size frames ++ Stream.piece frame 0 (written + n) := by
    rw [here, before, List.append_assoc, Stream.piece_append]
  constructor
  · intro other later offset isNext begun
    rcases current_of_write isCurrent stepped isNext begun with ⟨_, rfl, rfl, short⟩ | ⟨_, already⟩
    · exact short
    · exact separate.inside already begun
  · rintro left right clid ⟨leftFrame, leftOffset, isLeft, leftBegun, rfl⟩
      ⟨rightFrame, rightOffset, isRight, rightBegun, target⟩
    rcases current_of_write isCurrent stepped isLeft leftBegun with
        ⟨rfl, rfl, _⟩ | ⟨leftOther, leftAlready⟩ <;>
      rcases current_of_write isCurrent stepped isRight rightBegun with
        ⟨rfl, rfl, _⟩ | ⟨rightOther, rightAlready⟩
    · rfl
    · exact absurd ⟨_, _, rightAlready, rightBegun, target⟩ (alone right rightOther)
    · exact absurd ⟨_, _, leftAlready, leftBegun, target.symm⟩ (alone left leftOther)
    · exact separate.sole ⟨_, _, leftAlready, leftBegun, rfl⟩ ⟨_, _, rightAlready, rightBegun, target⟩
  · intro other later offset isNext begun
    rcases current_of_write isCurrent stepped isNext begun with
      ⟨_, rfl, rfl, _⟩ | ⟨isOther, already⟩
    · exact ⟨frames, longer⟩
    · rw [elsewhere _ fun target => alone other isOther ⟨_, _, already, begun, target⟩]
      exact separate.busy already begun
  · intro clid nobody
    by_cases same : clid = frame.packet.target
    · subst same
      rcases Nat.lt_or_eq_of_le room with short | full
      · exact absurd ⟨_, _, unfinished short, by omega, rfl⟩ (nobody task)
      · exact ⟨frames ++ [frame], by rw [longer, full, Stream.wholes_concat]⟩
    · rw [elsewhere clid same]
      refine separate.idle fun other busy => ?_
      obtain ⟨later, offset, already, begun, target⟩ := busy
      by_cases own : other = task
      · rw [own, isCurrent, Option.some.injEq, Prod.mk.injEq] at already
        exact same (target.symm.trans (congrArg (fun frame => frame.packet.target) already.1.symm))
      · exact nobody other ⟨later, offset, (others other own).trans already, begun, target⟩
  · intro clid
    by_cases same : clid = frame.packet.target
    · subst same
      rw [here]
      refine (separate.ordered _).append_piece fun earlier member related => ?_
      rw [task_of_current isCurrent]
      exact latest earlier member related
    · rw [elsewhere clid same]
      exact separate.ordered clid

/-- Any other write cuts a packet of another task or overtakes a message. -/
theorem not_wellFormed_of_unguarded {state next : Delivery} (separate : state.Separate)
    {task n : Nat} (unguarded : ¬ state.Guarded (.write task n))
    (stepped : state.step (.write task n) = some next) : ∃ clid, ¬ next.WellFormed clid := by
  obtain ⟨frame, written, isCurrent, some, room, here, _⟩ := step_write stepped
  refine ⟨frame.packet.target, fun wellFormed => unguarded ?_⟩
  rintro given offset again
  rw [isCurrent, Option.some.injEq, Prod.mk.injEq] at again
  obtain ⟨rfl, rfl⟩ := again
  constructor
  · rintro other different ⟨cut, progress, already, begun, target⟩
    obtain ⟨frames, before⟩ := separate.busy already begun
    have distinct : frame ≠ cut := by
      rintro rfl
      exact different ((task_of_current already).symm.trans (task_of_current isCurrent))
    have chain := wellFormed.isChain
    rw [here, ← target, before] at chain
    exact Stream.not_isChain_of_cut Frame.size frames distinct begun
      (separate.inside already begun) written some chain
  · intro octet member related
    have ordered := wellFormed.2
    rw [InOrder, here, List.pairwise_append] at ordered
    obtain ⟨n, rfl⟩ := Nat.exists_eq_add_one_of_ne_zero (Nat.ne_of_gt some)
    have first : (frame, written) ∈ Stream.piece frame written (n + 1) := List.mem_cons_self
    rw [← task_of_current isCurrent]
    exact ordered.2.2 octet member _ first related

/-- Guarded steps keep the tasks apart, and any other step breaks a stream. -/
theorem exactGuard : system.ExactGuard Guarded Separate fun state => ∀ clid, state.WellFormed clid where
  initial valid := by
    rw [valid]
    exact separate_new
  preserved {state action next} separate guarded stepped := by
    cases action with
    | write task n => exact separate.of_write guarded stepped
    | dequeue => exact separate.of_silent stepped nofun
    | notFound => exact separate.of_silent stepped nofun
  sound separate := separate.wellFormed
  sharp {state action next} separate unguarded stepped wellFormed := by
    cases action with
    | write task n =>
      obtain ⟨clid, broken⟩ := not_wellFormed_of_unguarded separate unguarded stepped
      exact broken (wellFormed clid)
    | dequeue => exact unguarded trivial
    | notFound => exact unguarded trivial

/-- In every interleaving of the tasks, the streams of all clients are well formed and in
order in every state reached, exactly when all writes meet the guard. -/
theorem streams_wellFormed_iff {trail : List (Delivery × DeliveryAction)} {state : Delivery}
    (run : system.Run trail state) :
    System.Run.AllStates (fun state => ∀ clid, state.WellFormed clid) trail state ↔
      System.Run.AllSteps Guarded trail :=
  exactGuard.safe_iff_guarded run

/-- While the other tasks are not in the middle of a packet, and nothing of a later one is
written, the writes of a task are guarded. -/
theorem guarded_of_calm {state : Delivery} {task : Nat}
    (calm : ∀ other own, other ≠ task → state.tasks[other]? = some own → own.written = 0)
    (early : ∀ clid, ∀ octet ∈ state.stream clid, octet.1.task ≤ task) (n : Nat) :
    state.Guarded (.write task n) := by
  rintro frame written _
  refine ⟨?_, fun octet member _ => early _ octet member⟩
  rintro other different ⟨_, _, isCurrent, begun, _⟩
  obtain ⟨own, _, _, listed, _, _, rfl⟩ := current_eq_some.mp isCurrent
  exact absurd (calm other own different listed) (Nat.ne_of_gt begun)

/-- What a task writes is its own. -/
theorem early_of_write {state next : Delivery} {task n last : Nat}
    (early : ∀ clid, ∀ octet ∈ state.stream clid, octet.1.task ≤ last) (own : task ≤ last)
    (stepped : state.step (.write task n) = some next) :
    ∀ clid, ∀ octet ∈ next.stream clid, octet.1.task ≤ last := by
  obtain ⟨frame, written, isCurrent, _, _, appended, others, _⟩ := step_write stepped
  intro clid octet member
  by_cases target : clid = frame.packet.target
  · rw [target, appended, List.mem_append] at member
    rcases member with before | new
    · exact early _ octet before
    · rw [Stream.mem_piece new, task_of_current isCurrent]
      exact own
  · rw [others clid target] at member
    exact early clid octet member

/-- Two messages of one publisher to one client, the first of which its socket takes in two
pieces. -/
theorem streams_wellFormed_iff_two :
    let a : ClientID := .new ⟨[0x61], by decide⟩
    let b : ClientID := .new ⟨[0x62], by decide⟩
    let actions : List DeliveryAction :=
      [.dequeue a Publish.levelOnePacket (some ⟨b, .qos0⟩),
        .dequeue a Publish.levelOnePacket (some ⟨b, .qos0⟩),
        .write 0 4, .write 0 6, .write 1 10]
    ∃ state, system.Run (System.trailOf step new actions) state ∧
      state.wire b = Publish.levelOne ++ Publish.levelOne ∧
      System.Run.AllStates (fun state => ∀ clid, state.WellFormed clid)
        (System.trailOf step new actions) state := by
  intro a b actions
  let task : ForwardTask := ⟨a, ⟨[0x74], by decide⟩, [⟨b, Publish.levelOne, true⟩], 0⟩
  let frame : Frame := ⟨0, a, ⟨[0x74], by decide⟩, ⟨b, Publish.levelOne, true⟩⟩
  let one : Delivery := ⟨[task], fun _ => []⟩
  let two : Delivery := ⟨[task, task], fun _ => []⟩
  let begun : Delivery :=
    ⟨[{ task with written := 4 }, task], Function.update (fun _ => []) b (Stream.piece frame 0 4)⟩
  let half : Delivery :=
    ⟨[{ task with packets := [] }, task], Function.update begun.stream b
      (Stream.piece frame 0 4 ++ Stream.piece frame 4 6)⟩
  have spawned : ForwardTask.spawn a ⟨queueMessage a Publish.levelOnePacket, ⟨b, .qos0⟩⟩ = task := by
    rw [ForwardTask.spawn, Publish.forward_levelOne]
    rfl
  have first : step new (.dequeue a Publish.levelOnePacket (some ⟨b, .qos0⟩)) = some one :=
    congrArg (fun task => some (⟨[task], fun _ => []⟩ : Delivery)) spawned
  have second : step one (.dequeue a Publish.levelOnePacket (some ⟨b, .qos0⟩)) = some two :=
    congrArg (fun other => some (⟨[task, other], fun _ => []⟩ : Delivery)) spawned
  have third : step two (.write 0 4) = some begun := rfl
  have fourth : step begun (.write 0 6) = some half := rfl
  have fifth : (step half (.write 1 10)).map (fun state => state.wire b) =
      some (Publish.levelOne ++ Publish.levelOne) := rfl
  obtain ⟨state, finished, written⟩ := Option.map_eq_some_iff.mp fifth
  have executed : System.execute step new actions = some state := by
    simp only [actions, System.execute, first, second, third, fourth, finished, Option.bind_some]
  have trail : System.trailOf step new actions = [(new, .dequeue a Publish.levelOnePacket
      (some ⟨b, .qos0⟩)), (one, .dequeue a Publish.levelOnePacket (some ⟨b, .qos0⟩)),
      (two, .write 0 4), (begun, .write 0 6), (half, .write 1 10)] := by
    simp only [actions, System.trailOf, first, second, third, fourth, finished]
  have run := System.run_of_execute executed
  refine ⟨state, run, written, (streams_wellFormed_iff run).mpr ?_⟩
  have quiet (own : ForwardTask) : ∀ other second, other ≠ 0 →
      [own, task][other]? = some second → second.written = 0 := by
    rintro (_ | _ | other) second different listed
    · exact absurd rfl different
    · rw [← Option.some.inj listed]
    · cases listed
  have done : ∀ other second, other ≠ 1 →
      half.tasks[other]? = some second → second.written = 0 := by
    rintro (_ | _ | other) second different listed
    · rw [← Option.some.inj listed]
    · exact absurd rfl different
    · cases listed
  have atFirst : ∀ clid, ∀ octet ∈ two.stream clid, octet.1.task ≤ 0 :=
    fun _ _ impossible => absurd impossible List.not_mem_nil
  have atBegun := early_of_write atFirst (Nat.le_refl 0) third
  have atHalf := early_of_write atBegun (Nat.le_refl 0) fourth
  rw [trail]
  rintro entry member
  simp only [List.mem_cons, List.not_mem_nil, or_false] at member
  rcases member with rfl | rfl | rfl | rfl | rfl
  · trivial
  · trivial
  · exact guarded_of_calm (quiet task) atFirst 4
  · exact guarded_of_calm (quiet _) atBegun 6
  · exact guarded_of_calm done (fun clid octet member => (atHalf clid octet member).trans
      (Nat.zero_le 1)) 10

/-- Two messages to one client, of each of which the socket has taken one octet. -/
theorem streams_interleaved :
    let b : ClientID := .new ⟨[0x62], by decide⟩
    ∃ state, system.Reachable state ∧ state.wire b = [0x32, 0x32] ∧ ¬ state.WellFormed b := by
  intro b
  let a : ClientID := .new ⟨[0x61], by decide⟩
  let topic : Str := ⟨[0x74], by decide⟩
  have ran : (System.execute step new
      [.dequeue a Publish.levelOnePacket (some ⟨b, .qos0⟩),
        .dequeue a Publish.levelOnePacket (some ⟨b, .qos0⟩), .write 0 1, .write 1 1]).map
      (fun state => state.stream b) =
        some [(⟨0, a, topic, ⟨b, Publish.levelOne, true⟩⟩, 0),
          (⟨1, a, topic, ⟨b, Publish.levelOne, true⟩⟩, 0)] := by
    decide
  obtain ⟨state, executed, stream⟩ := Option.map_eq_some_iff.mp ran
  refine ⟨state, System.reachable_of_execute executed, by rw [wire, stream]; rfl, ?_⟩
  intro wellFormed
  have chain := wellFormed.isChain
  rw [stream, List.isChain_pair] at chain
  rcases chain with same | ⟨ended, _⟩
  · exact absurd (congrArg (fun octet => octet.1.task) same) (by decide)
  · exact absurd ended (by decide)

end Delivery
end Sipusu.MessageBroker
