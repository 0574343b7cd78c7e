import Sipusu.MessageBroker.Delivery

/-!
# The progress of the forwarding tasks

Whatever the interleaving, a task writes its packets one after another, each to its target
and each octet once, until it stops. It stops behind its last packet, when `pubish` does not
find a client, or when a socket fails.
-/

namespace Sipusu.MessageBroker

open Sipusu.Foundation Sipusu.Protocol Sipusu.Protocol.V5

namespace ForwardTask

/-- A packet as a frame of the task with this number. -/
def frame (task : ForwardTask) (number : Nat) (packet : Packet) : Frame :=
  ⟨number, task.publisher, task.topic, packet⟩

/-- The packets of a task as frames. -/
def frames (task : ForwardTask) (number : Nat) : List Frame := task.packets.map (task.frame number)

@[simp] theorem task_frame (task : ForwardTask) (number : Nat) (packet : Packet) :
    (task.frame number packet).task = number := rfl

@[simp] theorem packet_frame (task : ForwardTask) (number : Nat) (packet : Packet) :
    (task.frame number packet).packet = packet := rfl

theorem frame_injective (task : ForwardTask) (number : Nat) :
    Function.Injective (task.frame number) :=
  fun _ _ same => congrArg Frame.packet same

end ForwardTask

namespace Delivery

open ForwardTask (task_frame packet_frame)

/-- `write_all` fails, and the task ends where it is. -/
def fail (state : Delivery) (task : Nat) : Option Delivery :=
  match state.current task with
  | none => none
  | some _ =>
      some { state with
        tasks := state.tasks.modify task fun own => { own with packets := [], written := 0 } }

/-- A task has written the first `n` octets of its packets, one packet after another and each
to its target. -/
structure Progress (state : Delivery) (number : Nat) (first : ForwardTask) (stopped : Prop)
    (n : Nat) : Prop where
  written : ∀ clid, (state.stream clid).filter (fun octet => octet.1.task = number) =
    ((Stream.wholes Frame.size (first.frames number)).take n).filter fun octet =>
      octet.1.packet.target = clid
  /-- It goes on behind them, or has stopped. -/
  place : ∃ own, state.tasks[number]? = some own ∧ own.publisher = first.publisher ∧
    own.topic = first.topic ∧
    (stopped ∧ own.packets = [] ∨ ∃ done, first.packets = done ++ own.packets ∧
      n = (Stream.wholes Frame.size (done.map (first.frame number))).length + own.written)

/-- All that was written was written by these tasks, some of which were stopped. -/
structure Accounted (state : Delivery) (orders : List ForwardTask) (stopped : List Nat) : Prop where
  length : state.tasks.length = orders.length
  progress : ∀ {number first}, orders[number]? = some first →
    ∃ n, state.Progress number first (number ∈ stopped) n
  known : ∀ {clid octet}, octet ∈ state.stream clid → octet.1.task < orders.length

theorem accounted_new : new.Accounted [] [] where
  length := rfl
  progress listed := by cases listed
  known member := by cases member

section Steps

variable {state next : Delivery} {orders : List ForwardTask} {stopped : List Nat}

/-- A new task has written nothing. -/
theorem Accounted.spawn (accounted : state.Accounted orders stopped) {first : ForwardTask}
    (unbegun : first.written = 0) (tasks : next.tasks = state.tasks ++ [first])
    (stream : next.stream = state.stream) : next.Accounted (orders ++ [first]) stopped := by
  have same := accounted.length
  refine ⟨by simp [tasks, same], fun {number given} listed => ?_, fun member => ?_⟩
  · rw [List.getElem?_append] at listed
    split at listed
    · rename_i old
      obtain ⟨n, progress⟩ := accounted.progress listed
      refine ⟨n, by rw [stream]; exact progress.written, ?_⟩
      rw [tasks, List.getElem?_append_left (same ▸ old)]
      exact progress.place
    · rename_i fresh
      obtain ⟨own, rfl⟩ := List.getElem?_eq_some_iff.mp listed
      have last : number = orders.length := by
        have := List.length_singleton ▸ own
        omega
      subst last
      refine ⟨0, fun clid => ?_, first, ?_, ?_⟩
      · rw [stream, List.take_zero, List.filter_nil, List.filter_eq_nil_iff]
        intro octet member here
        exact absurd (accounted.known member) (by simp at here; omega)
      · simp [tasks, ← same]
      · exact ⟨by simp, by simp, .inr ⟨[], by simp, by simp [unbegun]⟩⟩
  · rw [stream] at member
    rw [List.length_append]
    exact Nat.lt_add_right _ (accounted.known member)

/-- A task that stops has written what it has written. -/
theorem Accounted.stop (accounted : state.Accounted orders stopped) {task : Nat}
    (halt : ForwardTask → ForwardTask) (publisher : ∀ own, (halt own).publisher = own.publisher)
    (topic : ∀ own, (halt own).topic = own.topic) (packets : ∀ own, (halt own).packets = [])
    (tasks : next.tasks = state.tasks.modify task halt) (stream : next.stream = state.stream) :
    next.Accounted orders (stopped ++ [task]) := by
  refine ⟨by rw [tasks, List.length_modify, accounted.length], fun {number first} listed => ?_,
    fun member => accounted.known (stream ▸ member)⟩
  obtain ⟨n, written, own, here, samePublisher, sameTopic, place⟩ := accounted.progress listed
  refine ⟨n, by rw [stream]; exact written, ?_⟩
  rw [tasks, List.getElem?_modify, here]
  by_cases mine : task = number
  · exact ⟨halt own, by simp [mine], (publisher own).trans samePublisher,
      (topic own).trans sameTopic, .inl ⟨by simp [mine], packets own⟩⟩
  · exact ⟨own, by simp [mine], samePublisher, sameTopic,
      place.imp_left fun ended => ⟨List.mem_append_left _ ended.1, ended.2⟩⟩

/-- What a write does to its task and to the streams. -/
theorem step_advance {task n : Nat} (stepped : state.step (.write task n) = some next) :
    ∃ own packet rest, state.tasks[task]? = some own ∧ own.packets = packet :: rest ∧ 0 < n ∧
      own.written + n ≤ packet.bytes.length ∧
      next.tasks = state.tasks.modify task (ForwardTask.advance · n) ∧
      next.stream packet.target =
        state.stream packet.target ++ Stream.piece (own.frame task packet) own.written n ∧
      ∀ clid, clid ≠ packet.target → next.stream clid = state.stream clid := by
  rw [step] at stepped
  split at stepped
  · cases stepped
  · rename_i frame written isCurrent
    split at stepped
    · rename_i room
      rw [Option.some.injEq] at stepped
      subst stepped
      obtain ⟨own, packet, rest, here, isFirst, rfl, rfl⟩ := current_eq_some.mp isCurrent
      exact ⟨own, packet, rest, here, isFirst, room.1, room.2, rfl, Function.update_self ..,
        fun clid different => Function.update_of_ne different ..⟩
    · cases stepped

/-- The octets that a task writes are the next ones of all that it has to write. -/
theorem Progress.advance {task before n : Nat} {halted : Prop} {first own : ForwardTask}
    {packet : Packet} {rest : List Packet} (progress : state.Progress task first halted before)
    (here : state.tasks[task]? = some own) (isFirst : own.packets = packet :: rest)
    (room : own.written + n ≤ packet.bytes.length)
    (tasks : next.tasks = state.tasks.modify task (ForwardTask.advance · n))
    (mine : next.stream packet.target =
      state.stream packet.target ++ Stream.piece (own.frame task packet) own.written n)
    (others : ∀ clid, clid ≠ packet.target → next.stream clid = state.stream clid) :
    next.Progress task first halted (before + n) := by
  obtain ⟨sent, own', here', publisher, topic, place⟩ := progress
  cases here.symm.trans here'
  obtain ⟨_, none⟩ | ⟨done, split, place⟩ := place
  · rw [isFirst] at none
    cases none
  rw [isFirst] at split
  have same : own.frame task packet = first.frame task packet := by
    rw [ForwardTask.frame, ForwardTask.frame, publisher, topic]
  have window : ((Stream.wholes Frame.size (first.frames task)).drop before).take n =
      Stream.piece (first.frame task packet) own.written n := by
    rw [ForwardTask.frames, split, List.map_append, List.map_cons, place]
    exact Stream.window_wholes Frame.size _ _ _ room
  refine ⟨fun clid => ?_, own.advance n, by rw [tasks]; simp [here], ?_⟩
  · rw [List.take_add, window, List.filter_append, ← sent clid]
    by_cases toMe : clid = packet.target
    · subst toMe
      rw [mine, List.filter_append, same, Stream.filter_piece (fun frame : Frame => frame.task = task),
        Stream.filter_piece (fun frame : Frame => frame.packet.target = packet.target), task_frame,
        packet_frame, if_pos rfl, if_pos rfl]
    · rw [others clid toMe, Stream.filter_piece (fun frame : Frame => frame.packet.target = clid),
        packet_frame, if_neg (Ne.symm toMe), List.append_nil]
  · rcases Nat.lt_or_eq_of_le room with short | full
    · rw [ForwardTask.advance_of_unfinished isFirst short]
      refine ⟨publisher, topic, .inr ⟨done, by rw [isFirst]; exact split, ?_⟩⟩
      change before + n = _ + (own.written + n)
      omega
    · rw [ForwardTask.advance_of_finished isFirst full]
      refine ⟨publisher, topic, .inr ⟨done ++ [packet], by simp [split], ?_⟩⟩
      have size : (first.frame task packet).size = packet.bytes.length := rfl
      rw [List.map_append, Stream.wholes_append, List.length_append, List.map_singleton,
        Stream.wholes_cons, Stream.wholes_nil, List.append_nil, Stream.length_piece, size]
      change before + n = _ + 0
      omega

/-- A write of another task is none of this one's. -/
theorem Progress.keep {number before : Nat} {halted : Prop} {first : ForwardTask}
    (progress : state.Progress number first halted before)
    (same : next.tasks[number]? = state.tasks[number]?)
    (streams : ∀ clid, (next.stream clid).filter (fun octet => octet.1.task = number) =
      (state.stream clid).filter fun octet => octet.1.task = number) :
    next.Progress number first halted before :=
  ⟨fun clid => (streams clid).trans (progress.written clid), by rw [same]; exact progress.place⟩

/-- A write takes its task further, and leaves the others where they are. -/
theorem Accounted.write (accounted : state.Accounted orders stopped) {task n : Nat}
    (stepped : state.step (.write task n) = some next) : next.Accounted orders stopped := by
  obtain ⟨own, packet, rest, here, isFirst, _, room, tasks, mine, others⟩ := step_advance stepped
  refine ⟨by rw [tasks, List.length_modify, accounted.length], fun {number first} listed => ?_,
    fun {clid octet} member => ?_⟩
  · obtain ⟨before, progress⟩ := accounted.progress listed
    by_cases own : number = task
    · subst own
      exact ⟨before + n, progress.advance here isFirst room tasks mine others⟩
    · refine ⟨before, progress.keep (by simp [tasks, Ne.symm own]) fun clid => ?_⟩
      by_cases toMe : clid = packet.target
      · subst toMe
        rw [mine, List.filter_append, Stream.filter_piece (fun frame : Frame => frame.task = number),
          task_frame, if_neg (Ne.symm own), List.append_nil]
      · rw [others clid toMe]
  · by_cases toMe : clid = packet.target
    · subst toMe
      rw [mine, List.mem_append] at member
      rcases member with old | now
      · exact accounted.known old
      · rw [Stream.mem_piece now, ← accounted.length]
        exact (List.getElem?_eq_some_iff.mp here).1
    · exact accounted.known (others clid toMe ▸ member)

end Steps

section Octets

variable {state : Delivery} {orders : List ForwardTask} {stopped : List Nat}

/-- Every octet is one of a packet of its task, and went to that packet's target. -/
theorem Accounted.origin (accounted : state.Accounted orders stopped) {clid : ClientID}
    {octet : Frame × Nat} (member : octet ∈ state.stream clid) :
    ∃ first packet, orders[octet.1.task]? = some first ∧ packet ∈ first.packets ∧
      octet.1 = first.frame octet.1.task packet ∧ packet.target = clid ∧
      octet.2 < packet.bytes.length := by
  obtain ⟨first, listed⟩ : ∃ first, orders[octet.1.task]? = some first :=
    ⟨_, List.getElem?_eq_getElem (accounted.known member)⟩
  obtain ⟨n, progress⟩ := accounted.progress listed
  have mine : octet ∈ (state.stream clid).filter fun other => other.1.task = octet.1.task :=
    List.mem_filter.mpr ⟨member, by simp⟩
  rw [progress.written clid, List.mem_filter] at mine
  obtain ⟨listedFrame, inside⟩ := (Stream.mem_wholes Frame.size).mp (List.mem_of_mem_take mine.1)
  obtain ⟨packet, isPacket, same⟩ := List.mem_map.mp listedFrame
  refine ⟨first, packet, listed, isPacket, same.symm, ?_, ?_⟩
  · rw [← same] at mine
    exact of_decide_eq_true mine.2
  · rw [← same] at inside
    exact inside

/-- No octet of any packet is written twice. -/
theorem Accounted.nodup (accounted : state.Accounted orders stopped)
    (distinct : ∀ first ∈ orders, first.packets.Nodup) (clid : ClientID) :
    (state.stream clid).Nodup := by
  rw [List.nodup_iff_count_le_one]
  intro octet
  by_cases member : octet ∈ state.stream clid
  · obtain ⟨first, _, listed, _⟩ := accounted.origin member
    obtain ⟨n, progress⟩ := accounted.progress listed
    have alone : ((state.stream clid).filter fun other => other.1.task = octet.1.task).Nodup := by
      rw [progress.written clid]
      refine List.Nodup.filter _ (List.Nodup.sublist (List.take_sublist _ _) ?_)
      exact Stream.nodup_wholes _
        ((distinct first (List.mem_of_getElem? listed)).map (first.frame_injective _))
    have counted : ((state.stream clid).filter fun other => other.1.task = octet.1.task).count octet =
        (state.stream clid).count octet := List.count_filter (by simp)
    rw [← counted]
    exact List.nodup_iff_count_le_one.mp alone octet
  · rw [List.count_eq_zero_of_not_mem member]
    exact Nat.zero_le 1

/-- Once an octet of a packet is written, all the earlier packets of its task have gone out
whole. -/
theorem Accounted.earlier (accounted : state.Accounted orders stopped) {number : Nat} {first : ForwardTask}
    (listed : orders[number]? = some first) (distinct : first.packets.Nodup) {before after : List Packet}
    {packet : Packet} (split : first.packets = before ++ packet :: after) {clid : ClientID} {place : Nat}
    (member : (first.frame number packet, place) ∈ state.stream clid) {earlier : Packet}
    (isBefore : earlier ∈ before) {i : Nat} (inside : i < earlier.bytes.length) :
    (first.frame number earlier, i) ∈ state.stream earlier.target := by
  obtain ⟨n, progress⟩ := accounted.progress listed
  have mine : (first.frame number packet, place) ∈
      (state.stream clid).filter fun octet => octet.1.task = number :=
    List.mem_filter.mpr ⟨member, by simp [ForwardTask.frame]⟩
  rw [progress.written clid, List.mem_filter] at mine
  rw [split] at distinct
  have fresh : first.frame number packet ∉ before.map (first.frame number) := by
    rw [List.mem_map_of_injective (first.frame_injective number)]
    intro repeated
    exact (List.nodup_append.mp distinct).2.2 packet repeated packet List.mem_cons_self rfl
  have sent : (first.frame number earlier, i) ∈
      (Stream.wholes Frame.size (first.frames number)).take n := by
    rw [ForwardTask.frames, split, List.map_append, List.map_cons] at mine ⊢
    exact (Stream.wholes_isPrefix_take Frame.size fresh mine.1).subset
      ((Stream.mem_wholes Frame.size).mpr ⟨List.mem_map_of_mem isBefore, inside⟩)
  have went : (first.frame number earlier, i) ∈
      (state.stream earlier.target).filter fun octet => octet.1.task = number := by
    rw [progress.written earlier.target]
    exact List.mem_filter.mpr ⟨sent, decide_eq_true rfl⟩
  exact (List.mem_filter.mp went).1

/-- Of the packet that a task is at, no octet is out beyond those it has written. -/
theorem Accounted.unwritten (accounted : state.Accounted orders stopped)
    (distinct : ∀ first ∈ orders, first.packets.Nodup) {task : Nat} {frame : Frame} {written : Nat}
    (isCurrent : state.current task = some (frame, written)) {clid : ClientID} {place : Nat}
    (member : (frame, place) ∈ state.stream clid) : place < written := by
  obtain ⟨own, packet, rest, here, isFirst, rfl, rfl⟩ := current_eq_some.mp isCurrent
  obtain ⟨first, _, listed, _⟩ := accounted.origin member
  change orders[task]? = some first at listed
  obtain ⟨n, sent, own', here', publisher, topic, place'⟩ := accounted.progress listed
  cases here.symm.trans here'
  obtain ⟨_, none⟩ | ⟨done, split, rfl⟩ := place'
  · rw [isFirst] at none
    cases none
  have packets := distinct first (List.mem_of_getElem? listed)
  rw [isFirst] at split
  rw [split] at packets
  have fresh : first.frame task packet ∉ done.map (first.frame task) := by
    rw [List.mem_map_of_injective (first.frame_injective task)]
    intro repeated
    exact (List.nodup_append.mp packets).2.2 packet repeated packet List.mem_cons_self rfl
  have mine : (first.frame task packet, place) ∈
      (state.stream clid).filter fun octet => octet.1.task = task := by
    rw [List.mem_filter, ForwardTask.frame, ← publisher, ← topic]
    exact ⟨member, by simp⟩
  rw [sent clid, List.mem_filter, ForwardTask.frames, split, List.map_append, List.map_cons] at mine
  exact Stream.lt_of_mem_take Frame.size fresh mine.1

/-- A task that has nothing left to write, and was not stopped, has written all its packets. -/
theorem Accounted.complete (accounted : state.Accounted orders stopped) {number : Nat}
    {first : ForwardTask} (listed : orders[number]? = some first) (running : number ∉ stopped)
    (ended : state.current number = none) {packet : Packet} (isPacket : packet ∈ first.packets)
    {i : Nat} (inside : i < packet.bytes.length) :
    (first.frame number packet, i) ∈ state.stream packet.target := by
  obtain ⟨n, written, own, here, publisher, topic, place⟩ := accounted.progress listed
  obtain ⟨halted, _⟩ | ⟨done, split, place⟩ := place
  · exact absurd halted running
  have nothing : own.packets = [] := by
    cases left : own.packets with
    | nil => rfl
    | cons packet rest =>
      have busy := current_eq_some.mpr ⟨own, packet, rest, here, left, rfl, rfl⟩
      rw [ended] at busy
      cases busy
  rw [nothing, List.append_nil] at split
  have went : (first.frame number packet, i) ∈
      (state.stream packet.target).filter fun octet => octet.1.task = number := by
    rw [written packet.target, List.mem_filter, ForwardTask.frames, split, place,
      List.take_of_length_le (Nat.le_add_right ..), ← split]
    exact ⟨(Stream.mem_wholes Frame.size).mpr ⟨List.mem_map_of_mem isPacket, inside⟩,
      decide_eq_true rfl⟩
  exact (List.mem_filter.mp went).1

end Octets

section Orders

variable {state next : Delivery} {orders : List ForwardTask} {stopped : List Nat}

/-- A dequeued message with a subscriber gets a task. -/
theorem Accounted.dequeue (accounted : state.Accounted orders stopped) {publisher : ClientID}
    {packet : PublishPacket} {subs : Option SubscriberInstance}
    (stepped : state.step (.dequeue publisher packet subs) = some next) :
    next.Accounted (orders ++ (subs.map fun subs =>
      ForwardTask.spawn publisher ⟨queueMessage publisher packet, subs⟩).toList) stopped := by
  cases subs with
  | none =>
    cases stepped
    rw [Option.map_none, Option.toList_none, List.append_nil]
    exact accounted
  | some subs =>
    cases stepped
    exact accounted.spawn rfl rfl rfl

theorem Accounted.notFound (accounted : state.Accounted orders stopped) {task : Nat}
    (stepped : state.step (.notFound task) = some next) : next.Accounted orders (stopped ++ [task]) := by
  rw [step] at stepped
  split at stepped
  · rw [Option.some.injEq] at stepped
    subst stepped
    exact accounted.stop (fun own => { own with packets := [] }) (fun _ => rfl) (fun _ => rfl)
      (fun _ => rfl) rfl rfl
  · cases stepped

theorem Accounted.fail (accounted : state.Accounted orders stopped) {task : Nat}
    (stepped : state.fail task = some next) : next.Accounted orders (stopped ++ [task]) := by
  rw [Delivery.fail] at stepped
  split at stepped
  · cases stepped
  · rw [Option.some.injEq] at stepped
    subst stepped
    exact accounted.stop (fun own => { own with packets := [], written := 0 })
      (fun _ => rfl) (fun _ => rfl) (fun _ => rfl) rfl rfl

/-- A task that fails writes nothing more, and the others go on. -/
theorem fail_silent {task : Nat} (stepped : state.fail task = some next) :
    next.stream = state.stream ∧ next.current task = none ∧
      ∀ other, other ≠ task → next.current other = state.current other := by
  rw [Delivery.fail] at stepped
  split at stepped
  · cases stepped
  · rw [Option.some.injEq] at stepped
    subst stepped
    refine ⟨rfl, ?_, fun other different => current_modify_ne rfl different⟩
    by_contra busy
    obtain ⟨⟨frame, written⟩, isCurrent⟩ := Option.ne_none_iff_exists'.mp busy
    obtain ⟨own, packet, rest, listed, isFirst, _⟩ := current_eq_some.mp isCurrent
    rw [List.getElem?_modify_eq, Option.map_eq_map, Option.map_eq_some_iff] at listed
    obtain ⟨_, _, rfl⟩ := listed
    cases isFirst

/-- A task stays at its packet while others step. -/
theorem current_of_others {action : DeliveryAction} (stepped : state.step action = some next)
    {task : Nat} (apart : action ≠ .notFound task ∧ ∀ n, action ≠ .write task n)
    {place : Frame × Nat} (isCurrent : state.current task = some place) :
    next.current task = some place := by
  cases action with
  | dequeue publisher packet subs =>
    rw [step] at stepped
    split at stepped <;> cases stepped
    · exact isCurrent
    · obtain ⟨own, packet, rest, listed, rest'⟩ := current_eq_some.mp isCurrent
      have known := (List.getElem?_eq_some_iff.mp listed).1
      rw [← isCurrent, current, current, List.getElem?_append_left known]
  | notFound other =>
    have different : task ≠ other := fun same => apart.1 (same ▸ rfl)
    rw [step] at stepped
    split at stepped <;> cases stepped
    rw [current_modify_ne rfl different]
    exact isCurrent
  | write other n =>
    have different : task ≠ other := fun same => apart.2 n (same ▸ rfl)
    obtain ⟨_, _, _, _, _, _, _, others, _⟩ := step_write stepped
    rw [others task different]
    exact isCurrent

end Orders

end Delivery

/-- The packets of a call differ from each other. -/
theorem SendCall.nodup_packets (call : SendCall) : call.packets.Nodup := by
  cases call with
  | qos0 subscriber buffer => exact List.nodup_singleton _
  | qos1 publisher subscriber packetId buffer => simp [packets]
  | qos2 publisher subscriber packetId buffer =>
    have different : PubackPacket.plainBytes .pubRec packetId ≠
        PubackPacket.plainBytes .pubRel packetId := fun same =>
      absurd (PubackPacket.plainBytes_inj same) (by decide)
    simp [packets, different]

theorem ForwardTask.nodup_spawn (publisher : ClientID) (order : Publish) :
    (ForwardTask.spawn publisher order).packets.Nodup := by
  rw [spawn]
  cases order.forward with
  | ok call => exact call.nodup_packets
  | err _ => exact .nil
  | panic => exact .nil

end Sipusu.MessageBroker
