import Sipusu.MessageBroker.Reconnect

/-!
# The session log beside the registry

The log of a session and the deadline of its client are written at different awaits. They
agree while every task ends by finding its client dead, and before the log of the next
session is begun, and while every session whose log is begun gets its task.
-/

namespace Sipusu.MessageBroker

open Sipusu.Foundation Sipusu.Protocol

/-- The event opens a session. -/
def EventType.Opens : EventType → Prop
  | .clientCreated | .clientRestored => True
  | .clientDisconnected _ | .disconnectByServer _ => False

namespace Slot

/-- The last event of the log opens a session. -/
def Open (slot : Slot) : Prop := ∃ event, slot.log.getLast? = some event ∧ event.Opens

/-- The last event of the log closes one. -/
def Closed (slot : Slot) : Prop := ∃ event, slot.log.getLast? = some event ∧ ¬ event.Opens

/-- The handler has begun a session in the log whose task is not spawned yet. -/
def Begun (slot : Slot) : Prop :=
  match slot.handler with
  | .restored | .inserting _ | .spawning => True
  | .idle | .restoring | .creating | .storing _ => False

instance (slot : Slot) : Decidable slot.Begun := by
  unfold Begun
  split <;> infer_instance

/-- The log says that a session is open while its client is alive, and that it is closed when
the last task has ended and the handler has begun no other session. The client is dead then. -/
def LogAgrees (slot : Slot) : Prop :=
  (slot.isStillAlive = some true → slot.Open) ∧
  (slot.tasks.getLast? = some .ended → ¬ slot.Begun → slot.Closed ∧ slot.isStillAlive = some false)

/-- The condition on steps: `ClientStore::new` writes its log after all tasks of the client
have ended, a read fails only when the client is dead already, what is read decodes, answers
and events can be written, and behind the event that it has written a handler goes on to the
spawn: what else a restore reads is there, with a keep-alive interval whose deadline can be
computed. -/
def Orderly (slot : Slot) : SlotAction → Prop
  | .store => ∀ pc ∈ slot.tasks, pc = .ended
  | .read _ .failed => slot.isStillAlive ≠ some true
  | .read _ (.ok readed) => readed ≠ [] →
      ∃ packet rest, ClientPacketV5.decode readed = .ok (packet, rest)
  | .abort _ | .restoreRead none => False
  | .restoreRead (some (keepAlive, _)) => keepAlive.toNat ≤ 43690
  | .fail => ¬ slot.Begun
  | _ => True

instance (slot : Slot) : (action : SlotAction) → Decidable (Orderly slot action)
  | .store => inferInstanceAs (Decidable (∀ pc ∈ slot.tasks, pc = .ended))
  | .read _ .failed => inferInstanceAs (Decidable (slot.isStillAlive ≠ some true))
  | .read _ (.ok readed) =>
      have decodes : (ClientPacketV5.decode readed).toOption.isSome = true ↔
          ∃ packet rest, ClientPacketV5.decode readed = .ok (packet, rest) := by
        rw [Option.isSome_iff_exists]
        simp only [Outcome.toOption_eq_some, Prod.exists]
      decidable_of_iff (readed ≠ [] → (ClientPacketV5.decode readed).toOption.isSome = true)
        (imp_congr_right fun _ => decodes)
  | .abort _ | .restoreRead none => inferInstanceAs (Decidable False)
  | .restoreRead (some (keepAlive, _)) => inferInstanceAs (Decidable (keepAlive.toNat ≤ 43690))
  | .fail => inferInstanceAs (Decidable (¬ slot.Begun))
  | .read _ .timedOut | .tick _ | .head _ | .written _ | .append _ | .check _ | .restore _
  | .create _ _ | .insert | .spawn => inferInstanceAs (Decidable True)

/-- The task has not ended. -/
def Runs (slot : Slot) (task : Nat) (pc : TaskPc) : Prop :=
  slot.pc? task = some pc ∧ pc ≠ .ended

/-- The deadline that a keep-alive interval gives can be computed. -/
def Bounded (session : Session) : Prop := session.keepAlive.toNat ≤ 43690

/-- What orderly steps keep of the task that runs. -/
structure Serves (slot : Slot) (task : Nat) (pc : TaskPc) : Prop where
  last : task + 1 = slot.tasks.length
  stored : slot.clients ≠ []
  loaded : ∀ client, pc.client? = some client → client = slot.current
  opened : slot.Open
  closing : ∀ client event, pc = .logging client event →
    ¬ event.Opens ∧ slot.isStillAlive ≠ some true

/-- What orderly steps keep. -/
structure Consistent (slot : Slot) : Prop where
  serves : ∀ {task pc}, slot.Runs task pc → slot.Serves task pc
  begun : slot.Begun → (∀ task pc, ¬ slot.Runs task pc) ∧ slot.Open ∧
    (slot.handler ≠ .spawning → slot.isStillAlive ≠ some true)
  stored : slot.handler = .spawning → slot.clients ≠ []
  taskless : slot.tasks = [] → slot.handler ≠ .spawning → slot.clients = []
  agrees : slot.LogAgrees
  bounded : ∀ session ∈ slot.clients, Bounded session
  waiting : ∀ session, slot.handler = .storing session ∨ slot.handler = .inserting session →
    Bounded session

theorem not_open_of_closed {slot : Slot} (closed : slot.Closed) : ¬ slot.Open := by
  rintro ⟨event, last, opens⟩
  obtain ⟨other, again, closes⟩ := closed
  rw [last, Option.some.injEq] at again
  exact closes (again ▸ opens)

theorem closed_of_resumable {slot : Slot} (resumable : slot.resumable = true) : slot.Closed := by
  rw [Slot.resumable] at resumable
  split at resumable
  · exact ⟨_, ‹_›, id⟩
  · exact ⟨_, ‹_›, id⟩
  · cases resumable

theorem consistent_new (now : Nat) (log : List EventType) : (new now log).Consistent where
  serves runs := by cases runs.1
  begun begun := begun.elim
  stored spawning := by cases spawning
  taskless _ _ := rfl
  agrees := ⟨nofun, nofun⟩
  bounded := nofun
  waiting := by rintro session (waits | waits) <;> cases waits

/-- Tasks that have all ended leave a closed log and a dead client, unless another session has
begun. -/
theorem Consistent.dead_of_ended {slot : Slot} (consistent : slot.Consistent)
    (ended : ∀ pc ∈ slot.tasks, pc = .ended) (idle : ¬ slot.Begun) :
    slot.isStillAlive ≠ some true := by
  rcases List.eq_nil_or_concat slot.tasks with none | ⟨earlier, last, tasks⟩
  · have empty : slot.clients = [] :=
      consistent.taskless none fun spawning => idle (by rw [Begun, spawning]; trivial)
    rw [isStillAlive, empty]
    exact nofun
  · have isEnded : last = .ended := ended last (by rw [tasks]; simp)
    have isLast : slot.tasks.getLast? = some .ended := by rw [tasks, isEnded]; simp
    rw [(consistent.agrees.2 isLast idle).2]
    exact nofun

/-- While no task runs, all have ended. -/
theorem ended_of_not_runs {slot : Slot} (nobody : ∀ task pc, ¬ slot.Runs task pc) :
    ∀ pc ∈ slot.tasks, pc = .ended := by
  intro pc member
  obtain ⟨task, listed⟩ := List.mem_iff_getElem?.mp member
  exact Decidable.not_not.mp fun running => nobody task pc ⟨listed, running⟩

/-- Nobody runs beside the last task. -/
theorem Runs.eq_last {slot : Slot} (consistent : slot.Consistent) {left right : Nat}
    {leftPc rightPc : TaskPc} (isLeft : slot.Runs left leftPc) (isRight : slot.Runs right rightPc) :
    left = right :=
  Nat.succ.inj ((consistent.serves isLeft).last.trans (consistent.serves isRight).last.symm)

section Running

variable {slot : Slot} (consistent : slot.Consistent) {task : Nat} {before : TaskPc}
  (runs : slot.Runs task before)
include consistent runs

theorem Consistent.not_begun_of_runs : ¬ slot.Begun := fun begun =>
  (consistent.begun begun).1 task before runs

/-- The last task after the one that runs went on. -/
theorem Consistent.getLast?_goto (after : TaskPc) :
    (slot.goto task after).tasks.getLast? = some after := by
  have last := (consistent.serves runs).last
  have place : task < slot.tasks.length := by omega
  rw [goto, List.getLast?_eq_getElem?, List.length_set, ← last, Nat.add_sub_cancel]
  exact List.getElem?_set_self place

/-- A task that goes on in its loop, or to the end of it, disturbs nothing. -/
theorem Consistent.of_running {next : Slot} {after : TaskPc}
    (tasks : next.tasks = (slot.goto task after).tasks) (log : next.log = slot.log)
    (handler : next.handler = slot.handler)
    (clients : next.clients.length = slot.clients.length)
    (bounded : ∀ session ∈ next.clients, Bounded session) (goesOn : after ≠ .ended)
    (loaded : ∀ client, after.client? = some client → client = slot.current)
    (closing : ∀ client event, after = .logging client event →
      ¬ event.Opens ∧ next.isStillAlive ≠ some true) : next.Consistent := by
  have serves := consistent.serves runs
  have opened : next.Open := by rw [Open, log]; exact serves.opened
  have stored : next.clients ≠ [] := by
    rw [← List.length_pos_iff, clients]
    exact List.length_pos_iff.mpr serves.stored
  have current : next.current = slot.current := by rw [Slot.current, Slot.current, clients]
  have isLast : next.tasks.getLast? = some after := by
    rw [tasks]
    exact consistent.getLast?_goto runs after
  constructor
  · rintro other pc ⟨stands, running⟩
    have same : other = task := by
      by_contra different
      refine different (Runs.eq_last consistent ⟨?_, running⟩ runs)
      rw [← pc?_goto_ne slot different after, ← stands, pc?, pc?, tasks]
    subst same
    have isAfter : pc = after := by
      rw [pc?, tasks, ← pc?, pc?_goto_self runs.1 after] at stands
      exact (Option.some.inj stands).symm
    subst isAfter
    refine ⟨?_, stored, by rw [current]; exact loaded, opened, closing⟩
    rw [tasks, goto, List.length_set]
    exact serves.last
  · intro begun
    rw [Begun, handler] at begun
    exact absurd begun (consistent.not_begun_of_runs runs)
  · exact fun _ => stored
  · intro empty
    rw [empty] at isLast
    cases isLast
  · refine ⟨fun _ => opened, fun ended => ?_⟩
    rw [isLast, Option.some.injEq] at ended
    exact absurd ended goesOn
  · exact bounded
  · rw [handler]
    exact consistent.waiting

/-- A task that has written its last event leaves a closed session and a dead client. -/
theorem Consistent.of_append {client : Nat} {event : EventType}
    (stands : before = .logging client event) :
    Consistent { slot.goto task .ended with log := slot.log ++ [event] } := by
  have serves := consistent.serves runs
  obtain ⟨closes, dead⟩ := serves.closing client event stands
  have closed : Closed { slot.goto task .ended with log := slot.log ++ [event] } :=
    ⟨event, by simp, closes⟩
  have answers : slot.isStillAlive = some false := by
    obtain ⟨present, isLast⟩ := Option.isSome_iff_exists.mp (List.getLast?_isSome.mpr serves.stored)
    rw [isStillAlive, isLast, Option.map_some, ne_eq, Option.some.injEq, Bool.not_eq_true] at dead
    rw [isStillAlive, isLast, Option.map_some, dead]
  constructor
  · rintro other pc ⟨listed, running⟩
    by_cases same : other = task
    · subst same
      exact absurd (Option.some.inj (listed.symm.trans (pc?_goto_self runs.1 _))) running
    · exact absurd (Runs.eq_last consistent
        ⟨(pc?_goto_ne slot same _).symm.trans listed, running⟩ runs) same
  · exact fun begun => absurd begun (consistent.not_begun_of_runs runs)
  · exact fun _ => serves.stored
  · intro empty
    have isLast := consistent.getLast?_goto runs .ended
    rw [show (slot.goto task .ended).tasks = [] from empty] at isLast
    cases isLast
  · exact ⟨fun alive => absurd alive dead, fun _ _ => ⟨closed, answers⟩⟩
  · exact consistent.bounded
  · exact consistent.waiting

end Running

/-- A step of the handler that begins no session and leaves none. -/
theorem Consistent.of_handler {slot next : Slot} (consistent : slot.Consistent)
    (tasks : next.tasks = slot.tasks) (log : next.log = slot.log)
    (clients : next.clients = slot.clients) (now : next.now = slot.now)
    (begun : next.Begun ↔ slot.Begun) (spawning : next.handler ≠ .spawning)
    (wasSpawning : slot.handler ≠ .spawning)
    (waiting : ∀ session, next.handler = .storing session ∨ next.handler = .inserting session →
      Bounded session) : next.Consistent := by
  have alive : next.isStillAlive = slot.isStillAlive := by
    rw [isStillAlive, isStillAlive, clients, now]
  have runs {task : Nat} {pc : TaskPc} : next.Runs task pc ↔ slot.Runs task pc := by
    rw [Runs, Runs, pc?, pc?, tasks]
  have opened : next.Open ↔ slot.Open := by rw [Open, Open, log]
  have closed : next.Closed ↔ slot.Closed := by rw [Closed, Closed, log]
  constructor
  · intro task pc isRunning
    obtain ⟨last, stored, loaded, isOpen, closing⟩ := consistent.serves (runs.mp isRunning)
    exact ⟨by rw [tasks, last], by rwa [clients],
      by rw [current, clients]; exact loaded, opened.mpr isOpen, by rw [alive]; exact closing⟩
  · intro isBegun
    obtain ⟨nobody, isOpen, dead⟩ := consistent.begun (begun.mp isBegun)
    exact ⟨fun task pc isRunning => nobody task pc (runs.mp isRunning), opened.mpr isOpen,
      fun _ => by rw [alive]; exact dead wasSpawning⟩
  · exact fun isSpawning => absurd isSpawning spawning
  · rw [tasks, clients]
    exact fun none _ => consistent.taskless none wasSpawning
  · rw [LogAgrees, alive, opened, closed, tasks, begun]
    exact consistent.agrees
  · rw [clients]
    exact consistent.bounded
  · exact waiting

/-- A session is begun while no task runs and the client is dead. -/
theorem Consistent.of_begin {slot next : Slot} (consistent : slot.Consistent)
    (nobody : ∀ task pc, ¬ slot.Runs task pc) (dead : slot.isStillAlive ≠ some true)
    (tasks : next.tasks = slot.tasks) (opened : next.Open) (clients : next.clients = slot.clients)
    (now : next.now = slot.now) (begun : next.Begun) (spawning : next.handler ≠ .spawning)
    (wasSpawning : slot.handler ≠ .spawning)
    (waiting : ∀ session, next.handler = .storing session ∨ next.handler = .inserting session →
      Bounded session) : next.Consistent := by
  have stillNobody : ∀ task pc, ¬ next.Runs task pc := by
    intro task pc
    rw [Runs, pc?, tasks]
    exact nobody task pc
  have stillDead : next.isStillAlive ≠ some true := by rwa [isStillAlive, clients, now]
  constructor
  · exact fun runs => absurd runs (stillNobody _ _)
  · exact fun _ => ⟨stillNobody, opened, fun _ => stillDead⟩
  · exact fun isSpawning => absurd isSpawning spawning
  · rw [tasks, clients]
    exact fun none _ => consistent.taskless none wasSpawning
  · exact ⟨fun _ => opened, fun _ idle => absurd begun idle⟩
  · rw [clients]
    exact consistent.bounded
  · exact waiting

/-- Time only ends lives. -/
theorem isStillAlive_tick {slot : Slot} {seconds : Nat}
    (alive : isStillAlive { slot with now := slot.now + seconds } = some true) :
    slot.isStillAlive = some true := by
  obtain ⟨client, present, living⟩ := Option.map_eq_some_iff.mp alive
  have deadline : slot.now + seconds ≤ client.ttl := of_decide_eq_true living
  rw [isStillAlive, present, Option.map_some, Option.some.injEq]
  exact decide_eq_true (Nat.le_trans (Nat.le_add_right _ _) deadline)

theorem Consistent.tick {slot : Slot} (consistent : slot.Consistent) (seconds : Nat) :
    Consistent { slot with now := slot.now + seconds } where
  serves runs := by
    obtain ⟨last, stored, loaded, opened, closing⟩ := consistent.serves runs
    exact ⟨last, stored, loaded, opened, fun client event stands =>
      ⟨(closing client event stands).1, fun alive =>
        (closing client event stands).2 (isStillAlive_tick alive)⟩⟩
  begun begun := by
    obtain ⟨nobody, opened, dead⟩ := consistent.begun begun
    exact ⟨nobody, opened, fun spawning alive => dead spawning (isStillAlive_tick alive)⟩
  stored := consistent.stored
  taskless := consistent.taskless
  agrees := by
    refine ⟨fun alive => consistent.agrees.1 (isStillAlive_tick alive), fun ended idle => ?_⟩
    obtain ⟨closed, dead⟩ := consistent.agrees.2 ended idle
    obtain ⟨client, present, _⟩ := Option.map_eq_some_iff.mp dead
    refine ⟨closed, ?_⟩
    cases later : isStillAlive { slot with now := slot.now + seconds } with
    | none =>
      rw [isStillAlive, present] at later
      cases later
    | some answer =>
      cases answer with
      | false => rfl
      | true =>
        rw [isStillAlive_tick later] at dead
        cases dead
  bounded := consistent.bounded
  waiting := consistent.waiting

/-- What is stored in the slot is the session that was just begun. -/
theorem Consistent.insert {slot : Slot} (consistent : slot.Consistent) {session : Session}
    (waits : slot.handler = .inserting session) :
    Consistent { slot with clients := slot.clients ++ [session], handler := .spawning } := by
  obtain ⟨nobody, opened, _⟩ := consistent.begun (by rw [Begun, waits]; trivial)
  constructor
  · exact fun runs => absurd runs (nobody _ _)
  · exact fun _ => ⟨nobody, opened, fun still => absurd rfl still⟩
  · exact fun _ => List.append_ne_nil_of_right_ne_nil _ (List.cons_ne_nil _ _)
  · exact fun _ still => absurd rfl still
  · exact ⟨fun _ => opened, fun _ idle => (idle trivial).elim⟩
  · intro other member
    rcases List.mem_append.mp member with already | fresh
    · exact consistent.bounded other already
    · rw [List.mem_singleton.mp fresh]
      exact consistent.waiting session (.inr waits)
  · rintro other (waits | waits) <;> cases waits

/-- The task of the session that was begun is the only one that runs. -/
theorem Consistent.spawn {slot : Slot} (consistent : slot.Consistent)
    (waits : slot.handler = .spawning) :
    Consistent { slot with tasks := slot.tasks ++ [.head], handler := .idle } := by
  obtain ⟨nobody, opened, _⟩ := consistent.begun (by rw [Begun, waits]; trivial)
  constructor
  · intro task pc runs
    rcases listed_spawned runs.1 with already | ⟨last, rfl⟩
    · exact absurd ⟨already, runs.2⟩ (nobody task pc)
    · exact ⟨by rw [last, List.length_append, List.length_singleton], consistent.stored waits, nofun,
        opened, nofun⟩
  · exact fun begun => begun.elim
  · exact nofun
  · intro empty
    exact absurd empty (List.append_ne_nil_of_right_ne_nil _ (List.cons_ne_nil _ _))
  · refine ⟨consistent.agrees.1, fun ended => ?_⟩
    rw [List.getLast?_concat] at ended
    cases ended
  · exact consistent.bounded
  · rintro other (waits | waits) <;> cases waits

/-- A bounded session stays bounded, and its deadline can be moved. -/
theorem keepAliveAt_of_bounded {session : Session} (bounded : Bounded session) (t : Nat) :
    session.keepAliveAt t ≠ .panic ∧
      ∀ later, session.keepAliveAt t = .ok later → Bounded later := by
  rw [Session.keepAliveAt, Session.allowance_eq bounded]
  split
  · exact ⟨Outcome.err_ne_panic _, fun later same => absurd same (Outcome.err_ne_ok _ _)⟩
  · refine ⟨Outcome.ok_ne_panic _, fun later same => ?_⟩
    cases same
    exact bounded

/-- Killing a client keeps its keep-alive interval. -/
theorem bounded_killed {clients : List Session} (bounded : ∀ session ∈ clients, Bounded session)
    (client now : Nat) :
    ∀ session ∈ clients.modify client fun own => own.kill now, Bounded session := by
  intro session member
  obtain ⟨i, listed⟩ := List.mem_iff_getElem?.mp member
  rw [List.getElem?_modify, Option.map_eq_map, Option.map_eq_some_iff] at listed
  obtain ⟨before, already, rfl⟩ := listed
  have wasBounded := bounded before (List.mem_of_getElem? already)
  split
  · exact wasBounded
  · exact wasBounded

/-- Extending a client's deadline keeps it too. -/
theorem bounded_extended {clients : List Session} (bounded : ∀ session ∈ clients, Bounded session)
    {client t : Nat} {own session : Session} (loaded : clients[client]? = some own)
    (extended : own.keepAliveAt t = .ok session) :
    ∀ other ∈ clients.set client session, Bounded other := by
  intro other member
  rcases List.mem_or_eq_of_mem_set member with already | rfl
  · exact bounded other already
  · exact (keepAliveAt_of_bounded (bounded own (List.mem_of_getElem? loaded)) t).2 _ extended

theorem bounded_of_allowance {keepAlive : UInt16} {allowance : Nat}
    (computed : Session.allowance keepAlive = .ok allowance) : keepAlive.toNat ≤ 43690 := by
  rw [Session.allowance] at computed
  split at computed
  · omega
  · cases computed

theorem Consistent.preserved {slot next : Slot} {action : SlotAction}
    (consistent : slot.Consistent) (orderly : slot.Orderly action)
    (stepped : slot.step action = some next) : next.Consistent := by
  cases step_moved stepped with
  | tick seconds => exact consistent.tick seconds
  | alive stands =>
    exact consistent.of_running ⟨stands, nofun⟩ rfl rfl rfl rfl consistent.bounded nofun
      (by rintro _ ⟨⟩; rfl) nofun
  | dead stands present late =>
    refine consistent.of_running ⟨stands, nofun⟩ rfl rfl rfl rfl consistent.bounded nofun
      (by rintro _ ⟨⟩; rfl) ?_
    rintro client event ⟨⟩
    refine ⟨id, ?_⟩
    show slot.isStillAlive ≠ some true
    rw [isStillAlive, present, Option.map_some, late]
    exact nofun
  | timedOut stands | skipped stands | written stands =>
    exact consistent.of_running ⟨stands, nofun⟩ rfl rfl rfl rfl consistent.bounded nofun nofun nofun
  | failed stands =>
    refine consistent.of_running ⟨stands, nofun⟩ rfl rfl rfl rfl consistent.bounded nofun
      (consistent.serves ⟨stands, nofun⟩).loaded ?_
    rintro client event ⟨⟩
    exact ⟨id, orderly⟩
  | killed stands =>
    exact consistent.of_running ⟨stands, nofun⟩ rfl rfl rfl (List.length_modify ..)
      (bounded_killed consistent.bounded _ _) nofun nofun nofun
  | @kept task client t _ readed packet rest session stands decoded loaded extended =>
    have isCurrent := (consistent.serves ⟨stands, nofun⟩).loaded
    refine consistent.of_running ⟨stands, nofun⟩ rfl rfl rfl (List.length_set ..)
      (bounded_extended consistent.bounded loaded extended) ?_ ?_ ?_
    · cases packet <;> exact nofun
    · cases packet with
      | publish => exact nofun
      | subscribe | pingReq => exact isCurrent
    · cases packet <;> exact nofun
  | overflown stands decoded loaded overflow =>
    exact absurd overflow
      (keepAliveAt_of_bounded (consistent.bounded _ (List.mem_of_getElem? loaded)) _).1
  | undecodable stands nonempty malformed =>
    obtain ⟨packet, rest, decoded⟩ := orderly nonempty
    exact absurd decoded (malformed packet rest)
  | aborted => exact orderly.elim
  | appended stands => exact consistent.of_append ⟨stands, nofun⟩ rfl
  | refused => exact consistent
  | @checked cleanStart waits =>
    refine consistent.of_handler rfl rfl rfl rfl ?_ ?_ (by rw [waits]; exact nofun) ?_
    · cases cleanStart <;> simp [Begun, waits]
    · cases cleanStart <;> exact nofun
    · cases cleanStart <;> rintro _ (again | again) <;> cases again
  | restored waits resumable =>
    have closed := closed_of_resumable resumable
    refine consistent.of_begin (fun task pc runs => ?_)
      (fun alive => not_open_of_closed closed (consistent.agrees.1 alive)) rfl
      ⟨.clientRestored, by simp, trivial⟩ rfl rfl trivial nofun (by rw [waits]; exact nofun) ?_
    · exact not_open_of_closed closed (consistent.serves runs).opened
    · rintro _ (again | again) <;> cases again
  | notRestored waits =>
    refine consistent.of_handler rfl rfl rfl rfl (by simp [Begun, waits]) nofun
      (by rw [waits]; exact nofun) ?_
    rintro _ (again | again) <;> cases again
  | unreadable => exact orderly.elim
  | readBack waits computed =>
    refine consistent.of_handler rfl rfl rfl rfl (by simp [Begun, waits]) nofun
      (by rw [waits]; exact nofun) ?_
    rintro _ (again | again) <;> cases again
    exact bounded_of_allowance computed
  | notReadBack _ unbounded => exact absurd (Session.allowance_eq orderly) (unbounded _)
  | created waits computed =>
    refine consistent.of_handler rfl rfl rfl rfl (by simp [Begun, waits]) nofun
      (by rw [waits]; exact nofun) ?_
    rintro _ (again | again) <;> cases again
    exact Client.max_minKeepAlive_le (bounded_of_allowance computed)
  | notCreated waits =>
    refine consistent.of_handler rfl rfl rfl rfl (by simp [Begun, waits]) nofun
      (by rw [waits]; exact nofun) ?_
    rintro _ (again | again) <;> cases again
  | stored waits =>
    have idle : ¬ slot.Begun := by rw [Begun, waits]; exact id
    refine consistent.of_begin (fun task pc runs => ?_) (consistent.dead_of_ended orderly idle) rfl
      ⟨_, rfl, trivial⟩ rfl rfl trivial nofun (by rw [waits]; exact nofun) ?_
    · exact runs.2 (orderly pc (List.mem_of_getElem? runs.1))
    · rintro _ (again | again) <;> cases again
      exact consistent.waiting _ (.inl waits)
  | inserted waits => exact consistent.insert waits
  | notInserted waits alive =>
    obtain ⟨_, _, dead⟩ := consistent.begun (by rw [Begun, waits]; trivial)
    exact absurd alive (dead (by rw [waits]; exact nofun))
  | spawned waits => exact consistent.spawn waits
  | gaveUp =>
    refine consistent.of_handler rfl rfl rfl rfl (iff_of_false id orderly) nofun ?_ ?_
    · exact fun spawning => orderly (by rw [Begun, spawning]; trivial)
    · rintro _ (again | again) <;> cases again

theorem guardedInvariant_orderly (now : Nat) (log : List EventType) :
    (system now log).GuardedInvariant Orderly Consistent where
  initial valid := by
    rw [valid]
    exact consistent_new now log
  preserved consistent orderly stepped := consistent.preserved orderly stepped

/-- Steps of its tasks can close the log, and leave all else as it is. -/
def CanClose (slot : Slot) : Prop :=
  ∃ actions later, System.execute step slot actions = some later ∧ later.Closed ∧
    later.clients = slot.clients ∧ later.now = slot.now ∧ later.handler = slot.handler

theorem CanClose.behind {slot next : Slot} (action : SlotAction) (closes : next.CanClose)
    (stepped : slot.step action = some next) (clients : next.clients = slot.clients)
    (now : next.now = slot.now) (handler : next.handler = slot.handler) : slot.CanClose := by
  obtain ⟨actions, later, executed, closed, sameClients, sameNow, sameHandler⟩ := closes
  refine ⟨action :: actions, later, ?_, closed, sameClients.trans clients, sameNow.trans now,
    sameHandler.trans handler⟩
  rw [System.execute, stepped, Option.bind_some, executed]

section Closing

variable {slot : Slot} {task : Nat}

/-- A task writes its last event. -/
theorem canClose_of_logging {event : EventType}
    (stands : slot.pc? task = some (.logging slot.current event)) (closes : ¬ event.Opens) :
    slot.CanClose := by
  have present : ¬ slot.Dangling (.logging slot.current event) := by
    rintro ⟨client, held, earlier⟩
    have same := TaskPc.client?_of_held? held
    cases same
    exact Nat.lt_irrefl _ earlier
  refine ⟨[.append task], { slot.goto task .ended with log := slot.log ++ [event] }, ?_,
    ⟨event, List.getLast?_concat, closes⟩, rfl, rfl, rfl⟩
  simp only [System.execute, step, stands, if_neg present, Option.bind_some]

/-- The read of a task fails. -/
theorem canClose_of_reading {t : Nat} (stands : slot.pc? task = some (.reading slot.current t))
    (stored : slot.clients ≠ []) : slot.CanClose := by
  have present : ¬ slot.Dangling (.reading slot.current t) := by
    rintro ⟨client, ⟨⟩, earlier⟩
    exact Nat.lt_irrefl _ earlier
  have place : slot.current < slot.clients.length :=
    Nat.sub_lt (List.length_pos_iff.mpr stored) Nat.one_pos
  refine CanClose.behind (.read task .failed) (canClose_of_logging (pc?_goto_self stands
    (.logging slot.current (failureEvent slot.clients[slot.current]))) id) ?_ rfl rfl rfl
  simp only [step, stands, if_neg present, readStep, List.getElem?_eq_getElem place]
  rfl

/-- A task comes to its head. -/
theorem canClose_of_head (stands : slot.pc? task = some .head) (stored : slot.clients ≠ []) :
    slot.CanClose := by
  obtain ⟨client, present⟩ := Option.isSome_iff_exists.mp (List.getLast?_isSome.mpr stored)
  cases living : client.isAlive slot.now with
  | true =>
    refine CanClose.behind (.head task)
      (canClose_of_reading (pc?_goto_self stands (.reading slot.current slot.now)) stored) ?_
      rfl rfl rfl
    simp only [step, stands, present, living, if_true]
  | false =>
    refine CanClose.behind (.head task)
      (canClose_of_logging (pc?_goto_self stands (.logging slot.current (deathEvent client))) id) ?_
      rfl rfl rfl
    simp only [step, stands, present, living, Bool.false_eq_true, if_false]

/-- A task that runs can close the log. -/
theorem canClose_of_runs {pc : TaskPc} (stands : slot.pc? task = some pc) (goesOn : pc ≠ .ended)
    (stored : slot.clients ≠ []) (loaded : ∀ client, pc.client? = some client → client = slot.current)
    (closing : ∀ client event, pc = .logging client event → ¬ event.Opens) : slot.CanClose := by
  cases pc with
  | head => exact canClose_of_head stands stored
  | reading client t =>
    rw [loaded client rfl] at stands
    exact canClose_of_reading stands stored
  | writing client =>
    rw [loaded client rfl] at stands
    have present : ¬ slot.Dangling (.writing slot.current) := by
      rintro ⟨client, ⟨⟩, earlier⟩
      exact Nat.lt_irrefl _ earlier
    refine CanClose.behind (.written task) (canClose_of_head (pc?_goto_self stands _) stored) ?_
      rfl rfl rfl
    simp only [step, stands, if_neg present]
  | logging client event =>
    rw [loaded client rfl] at stands
    exact canClose_of_logging stands (closing client event rfl)
  | ended => exact absurd rfl goesOn

end Closing

/-- Some steps lead on to a state in which log and registry disagree. -/
def CanDisagree (slot : Slot) : Prop :=
  ∃ actions later, System.execute step slot actions = some later ∧ ¬ later.LogAgrees

theorem CanDisagree.at_once {slot : Slot} (disagrees : ¬ slot.LogAgrees) : slot.CanDisagree :=
  ⟨[], slot, rfl, disagrees⟩

/-- Where the log can be closed, a client that is alive or about to be stored breaks the law. -/
theorem CanClose.canDisagree {slot : Slot} (closes : slot.CanClose)
    (lives : slot.isStillAlive = some true ∨
      ∃ session, slot.handler = .inserting session ∧ session.isAlive slot.now = true) :
    slot.CanDisagree := by
  obtain ⟨actions, later, executed, closed, clients, now, handler⟩ := closes
  have same : later.isStillAlive = slot.isStillAlive := by
    rw [isStillAlive, isStillAlive, clients, now]
  by_cases alive : slot.isStillAlive = some true
  · exact ⟨actions, later, executed,
      fun agrees => not_open_of_closed closed (agrees.1 (same.trans alive))⟩
  · obtain ⟨session, waits, living⟩ := lives.resolve_left alive
    refine ⟨actions ++ [.insert],
      { later with clients := later.clients ++ [session], handler := .spawning }, ?_,
      fun agrees => not_open_of_closed closed (agrees.1 ?_)⟩
    · rw [System.execute_append executed]
      simp only [System.execute, step, handler, waits, same, if_neg alive, Option.bind_some]
    · rw [isStillAlive, List.getLast?_concat, Option.map_some, now, living]

section Disorder

variable {slot : Slot} (consistent : slot.Consistent)
include consistent

/-- A task that ends without an event leaves its session open. -/
theorem Consistent.not_logAgrees_of_ended {task : Nat} {pc : TaskPc}
    (runs : slot.Runs task pc) : ¬ (slot.goto task .ended).LogAgrees := by
  intro agrees
  obtain ⟨closed, _⟩ :=
    agrees.2 (consistent.getLast?_goto runs .ended) (consistent.not_begun_of_runs runs)
  exact not_open_of_closed closed (consistent.serves runs).opened

/-- A handler that gives up behind the event that it has written leaves the log open. -/
theorem Consistent.not_logAgrees_of_left {handler : HandlerPc} (begun : slot.Begun)
    (started : slot.tasks ≠ []) (left : ¬ Begun { slot with handler }) :
    ¬ LogAgrees { slot with handler } := by
  obtain ⟨nobody, opened, _⟩ := consistent.begun begun
  have isLast : slot.tasks.getLast? = some .ended := by
    obtain ⟨last, present⟩ := Option.isSome_iff_exists.mp (List.getLast?_isSome.mpr started)
    rw [present, ended_of_not_runs nobody last (List.mem_of_getLast? present)]
  exact fun agrees => not_open_of_closed (agrees.2 isLast left).1 opened

/-- A log that is begun while a task runs can be closed behind the new session. -/
theorem Consistent.canClose_of_store {task : Nat} {pc : TaskPc} (runs : slot.Runs task pc)
    (session : Session) :
    CanClose { slot with log := [.clientCreated], handler := .inserting session } := by
  have serves := consistent.serves runs
  have stands : pc? { slot with log := [.clientCreated], handler := .inserting session } task =
      some pc := runs.1
  exact canClose_of_runs stands runs.2 serves.stored serves.loaded fun client event logs =>
    (serves.closing client event logs).1

end Disorder

/-- The disorder of a step shows: the session that is begun beside a task is still alive, or
the one that is given up had a task before it. -/
def Tells (slot : Slot) : SlotAction → Prop
  | .store => ∃ session, slot.handler = .storing session ∧ session.isAlive slot.now = true
  | .restoreRead _ | .fail => slot.tasks ≠ []
  | _ => True

/-- A step that is not orderly leads to a state in which log and registry disagree. -/
theorem Consistent.canDisagree {slot next : Slot} {action : SlotAction}
    (consistent : slot.Consistent) (stepped : slot.step action = some next)
    (disorder : ¬ slot.Orderly action) (tells : slot.Tells action) : next.CanDisagree := by
  cases step_moved stepped with
  | tick | alive | dead | timedOut | written | appended | refused | checked | restored | notRestored
  | created | notCreated | inserted | notInserted | spawned => exact absurd trivial disorder
  | @failed task client t own stands loaded =>
    have alive : slot.isStillAlive = some true := Decidable.not_not.mp disorder
    have isCurrent := (consistent.serves ⟨stands, nofun⟩).loaded client rfl
    rw [isCurrent]
    exact (canClose_of_logging (pc?_goto_self stands _) id).canDisagree (.inl alive)
  | killed => exact absurd (fun nonempty => absurd rfl nonempty) disorder
  | kept _ decoded | skipped _ decoded | overflown _ decoded =>
    exact absurd (fun _ => ⟨_, _, decoded⟩) disorder
  | undecodable stands =>
    exact .at_once (consistent.not_logAgrees_of_ended ⟨stands, nofun⟩)
  | @aborted task pc stands awaits =>
    refine .at_once (consistent.not_logAgrees_of_ended ⟨stands, ?_⟩)
    rintro rfl
    cases awaits
  | unreadable waits | notReadBack waits =>
    exact .at_once (consistent.not_logAgrees_of_left (by rw [Begun, waits]; trivial) tells id)
  | readBack _ computed => exact absurd (bounded_of_allowance computed) disorder
  | @stored session waits =>
    obtain ⟨other, storing, living⟩ := tells
    rw [waits, HandlerPc.storing.injEq] at storing
    obtain ⟨pc, listed, running⟩ : ∃ pc ∈ slot.tasks, pc ≠ .ended := by
      simpa only [Orderly, not_forall, exists_prop] using disorder
    obtain ⟨task, stands⟩ := List.mem_iff_getElem?.mp listed
    exact (consistent.canClose_of_store ⟨stands, running⟩ session).canDisagree
      (.inr ⟨session, rfl, storing ▸ living⟩)
  | gaveUp =>
    exact .at_once (consistent.not_logAgrees_of_left (Decidable.not_not.mp disorder) tells id)

/-- In every interleaving whose steps are orderly, the session log and the registry agree in
every state reached. Behind such a run every other step leads to a state in which they
disagree, if its disorder shows. -/
theorem logAgrees_of_orderly {now : Nat} {log : List EventType} {trail : List (Slot × SlotAction)}
    {slot : Slot} (run : (system now log).Run trail slot)
    (orderly : System.Run.AllSteps Orderly trail) :
    System.Run.AllStates LogAgrees trail slot ∧
      ∀ action next, slot.step action = some next → ¬ slot.Orderly action → slot.Tells action →
        next.CanDisagree := by
  have all := (guardedInvariant_orderly now log).allStates run orderly
  exact ⟨all.mono Consistent.agrees, fun _ _ => all.2.canDisagree⟩

/-- A client whose stream ends, and that is restored afterwards. -/
theorem logAgrees_of_orderly_return :
    let actions := [.check true, .create 60 1000, .store, .insert, .spawn, .head 0,
      .tick 5, .read 0 (.ok []), .head 0, .append 0, .check false, .restore true,
      .restoreRead (some (60, 1000)), .insert, .spawn]
    ∃ slot, (system 0 []).Run (System.trailOf step (new 0 []) actions) slot ∧
      slot.log = [.clientCreated, .disconnectByServer 1004, .clientRestored] ∧
      System.Run.AllStates LogAgrees (System.trailOf step (new 0 []) actions) slot := by
  intro actions
  have ran : (System.execute step (new 0 []) actions).map Slot.log =
      some [.clientCreated, .disconnectByServer 1004, .clientRestored] := by decide
  obtain ⟨slot, executed, log⟩ := Option.map_eq_some_iff.mp ran
  have run := System.run_of_execute executed
  refine ⟨slot, run, log, (logAgrees_of_orderly run ?_).1⟩
  show ∀ entry ∈ System.trailOf step (new 0 []) actions, Orderly entry.1 entry.2
  decide

/-- A read fails while the client is alive. -/
theorem log_closed_of_living_client :
    ∃ slot, (system 0 []).Reachable slot ∧ slot.isStillAlive = some true ∧
      slot.log = [.clientCreated, .clientDisconnected 90] ∧ ¬ slot.LogAgrees := by
  have ran : (System.execute step (new 0 []) [.check true, .create 60 0, .store, .insert, .spawn,
      .head 0, .tick 5, .read 0 .failed, .append 0]).map
        (fun slot => (slot.isStillAlive, slot.log)) =
      some (some true, [.clientCreated, .clientDisconnected 90]) := by decide
  obtain ⟨slot, executed, facts⟩ := Option.map_eq_some_iff.mp ran
  simp only [Prod.mk.injEq] at facts
  obtain ⟨alive, log⟩ := facts
  refine ⟨slot, System.reachable_of_execute executed, alive, log, fun agrees => ?_⟩
  obtain ⟨event, last, opens⟩ := agrees.1 alive
  rw [log] at last
  cases last
  exact opens

end Slot
end Sipusu.MessageBroker
