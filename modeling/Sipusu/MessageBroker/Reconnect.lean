import Sipusu.Foundation.Runs
import Sipusu.MessageBroker.SpawnClient

/-!
# A client's tasks beside its reconnects

One client identifier: the slot of the registry that `Clients::insert` reuses for it, its
session log, the tasks of `spawn_client` that were started on the slot, and the handler of
its next connection. A task loads the slot only at the head of its loop, and keeps what it
loaded while it awaits. `Clients::insert` frees the client that it replaces: a task that holds
it has no step through it. The accept loop awaits each handler, so there is one at a time.
-/

namespace Sipusu.MessageBroker

open Sipusu.Foundation Sipusu.Protocol

/-- Where a task stands. Clients are numbered in the order in which they were stored in
the slot. -/
inductive TaskPc where
  /-- At the head of the loop. -/
  | head
  /-- At the read, for the client loaded and at the clock read at the head. -/
  | reading (client t : Nat)
  /-- At the write that answers a packet. -/
  | writing (client : Nat)
  /-- At the write of its last event. -/
  | logging (client : Nat) (event : EventType)
  | ended
deriving DecidableEq

namespace TaskPc

/-- The client that the task has loaded. -/
def client? : TaskPc → Option Nat
  | .reading client _ | .writing client | .logging client _ => some client
  | .head | .ended => none

/-- The client that the task uses when it goes on. Behind the event of a dead client it prints
the client's identifier; behind that of a failed read it leaves the loop at once. -/
def held? : TaskPc → Option Nat
  | .reading client _ | .writing client | .logging client (.disconnectByServer _) => some client
  | .head | .logging _ _ | .ended => none

/-- The task uses the client it has loaded, or loads the slot again. -/
def needs (pc : TaskPc) : Prop := pc = .head ∨ pc.held?.isSome = true

instance (pc : TaskPc) : Decidable pc.needs :=
  inferInstanceAs (Decidable (pc = .head ∨ pc.held?.isSome = true))

theorem client?_of_held? {pc : TaskPc} {client : Nat} (held : pc.held? = some client) :
    pc.client? = some client := by
  cases pc with
  | reading | writing => exact held
  | logging _ event =>
    cases event with
    | disconnectByServer => exact held
    | clientCreated | clientRestored | clientDisconnected => cases held
  | head | ended => cases held

end TaskPc

/-- Where the handler of a connection stands in `Proxy::start_session`. -/
inductive HandlerPc where
  | idle
  /-- Before `ClientStore::restore`. -/
  | restoring
  /-- In it, behind the write of its event. -/
  | restored
  /-- Before `Client::new`. -/
  | creating
  /-- In it, before `ClientStore::new`. -/
  | storing (session : Session)
  /-- Before `Clients::insert`. -/
  | inserting (session : Session)
  /-- Before the task is spawned. -/
  | spawning
deriving DecidableEq

/-- The state of one client identifier. -/
structure Slot where
  now : Nat
  /-- The clients that were stored in the slot. All but the last are freed. -/
  clients : List Session
  log : List EventType
  tasks : List TaskPc
  handler : HandlerPc

/-- What happens at a slot. -/
inductive SlotAction where
  | tick (seconds : Nat)
  /-- A task loads the slot and checks the client. -/
  | head (task : Nat)
  | read (task : Nat) (result : ReadResult)
  /-- The answer to a packet is written. -/
  | written (task : Nat)
  /-- The answer or the last event cannot be written, and an `unwrap` aborts. -/
  | abort (task : Nat)
  /-- The last event is written. -/
  | append (task : Nat)
  /-- `is_still_alive`. -/
  | check (cleanStart : Bool)
  /-- `ClientStore::restore` up to the write of its event, if the log can be read. -/
  | restore (readable : Bool)
  /-- The rest of it: the keep-alive and the expiry interval of the metadata, if they can
  be read. -/
  | restoreRead (metadata : Option (UInt16 × UInt32))
  /-- `Client::new` before `ClientStore::new`. -/
  | create (keepAlive : UInt16) (exprInterval : UInt32)
  /-- `ClientStore::new`. -/
  | store
  /-- `Clients::insert`. -/
  | insert
  | spawn
  /-- The handler aborts. -/
  | fail

namespace Slot

/-- A slot at the start of the broker, beside the log that is on the disk. -/
def new (now : Nat) (log : List EventType) : Slot :=
  { now, clients := [], log, tasks := [], handler := .idle }

/-- Where a task stands. -/
def pc? (slot : Slot) (task : Nat) : Option TaskPc := slot.tasks[task]?

/-- A task goes on. -/
def goto (slot : Slot) (task : Nat) (pc : TaskPc) : Slot :=
  { slot with tasks := slot.tasks.set task pc }

/-- The number of the client in the slot. -/
def current (slot : Slot) : Nat := slot.clients.length - 1

/-- The task goes on through a client that was freed. -/
def Dangling (slot : Slot) (pc : TaskPc) : Prop := ∃ client ∈ pc.held?, client < slot.current

instance (slot : Slot) (pc : TaskPc) : Decidable (slot.Dangling pc) :=
  inferInstanceAs (Decidable (∃ client ∈ pc.held?, client < slot.current))

/-- `is_still_alive`. -/
def isStillAlive (slot : Slot) : Option Bool :=
  slot.clients.getLast?.map fun client => client.isAlive slot.now

/-- The last event of the log lets the session be restored. -/
def resumable (slot : Slot) : Bool :=
  match slot.log.getLast? with
  | some (.clientDisconnected u) | some (.disconnectByServer u) => slot.now < u.toNat
  | _ => false

/-- A task found its client dead. -/
def deathEvent (client : Session) : EventType :=
  .disconnectByServer (UInt64.ofNat client.expirationTime)

/-- The read of a task failed. -/
def failureEvent (client : Session) : EventType :=
  .clientDisconnected (UInt64.ofNat client.expirationTime)

/-- Where a task goes on with a packet: only a PUBLISH is not answered on the spot. -/
def answer (client : Nat) : ClientPacketV5 → TaskPc
  | .publish _ => .head
  | .subscribe _ | .pingReq => .writing client

/-- What a task does with the result of its read. -/
def readStep (slot : Slot) (task client t : Nat) : ReadResult → Option Slot
  | .timedOut => some (slot.goto task .head)
  | .failed => do
      let own ← slot.clients[client]?
      return slot.goto task (.logging client (failureEvent own))
  | .ok [] =>
      some { slot.goto task .head with
        clients := slot.clients.modify client fun own => own.kill slot.now }
  | .ok readed =>
      match ClientPacketV5.decode readed with
      | .ok (packet, _) => do
          let own ← slot.clients[client]?
          match own.keepAliveAt (t + 1) with
          | .ok session =>
              return { slot.goto task (answer client packet) with
                clients := slot.clients.set client session }
          | .err _ => return slot.goto task .head
          | .panic => return slot.goto task .ended
      | _ => some (slot.goto task .ended)

/-- One step of a task, the handler or the clock. A step through a freed client has no
result. -/
def step (slot : Slot) : SlotAction → Option Slot
  | .tick seconds => some { slot with now := slot.now + seconds }
  | .head task =>
      match slot.pc? task, slot.clients.getLast? with
      | some .head, some client =>
          if client.isAlive slot.now then some (slot.goto task (.reading slot.current slot.now))
          else some (slot.goto task (.logging slot.current (deathEvent client)))
      | _, _ => none
  | .read task result =>
      match slot.pc? task with
      | some (.reading client t) =>
          if slot.Dangling (.reading client t) then none else slot.readStep task client t result
      | _ => none
  | .written task =>
      match slot.pc? task with
      | some (.writing client) =>
          if slot.Dangling (.writing client) then none else some (slot.goto task .head)
      | _ => none
  | .abort task =>
      match slot.pc? task with
      | some (.writing client) =>
          if slot.Dangling (.writing client) then none else some (slot.goto task .ended)
      | some (.logging _ _) => some (slot.goto task .ended)
      | _ => none
  | .append task =>
      match slot.pc? task with
      | some (.logging client event) =>
          if slot.Dangling (.logging client event) then none
          else some { slot.goto task .ended with log := slot.log ++ [event] }
      | _ => none
  | .check cleanStart =>
      match slot.handler with
      | .idle =>
          if slot.isStillAlive = some true then some slot
          else some { slot with handler := if cleanStart then .creating else .restoring }
      | _ => none
  | .restore readable =>
      match slot.handler with
      | .restoring =>
          if readable && slot.resumable then
            some { slot with log := slot.log ++ [.clientRestored], handler := .restored }
          else some { slot with handler := .creating }
      | _ => none
  | .restoreRead metadata =>
      match slot.handler, metadata with
      | .restored, none => some { slot with handler := .creating }
      | .restored, some (keepAlive, exprInterval) =>
          match Session.allowance keepAlive with
          | .ok allowance =>
              some { slot with handler := .inserting ⟨slot.now + allowance, exprInterval, keepAlive⟩ }
          | _ => some { slot with handler := .idle }
      | _, _ => none
  | .create keepAlive exprInterval =>
      match slot.handler with
      | .creating =>
          match Session.allowance keepAlive with
          | .ok allowance =>
              some { slot with
                handler := .storing
                  ⟨slot.now + allowance, exprInterval, max keepAlive Client.minKeepAlive⟩ }
          | _ => some { slot with handler := .idle }
      | _ => none
  | .store =>
      match slot.handler with
      | .storing session =>
          some { slot with log := [.clientCreated], handler := .inserting session }
      | _ => none
  | .insert =>
      match slot.handler with
      | .inserting session =>
          if slot.isStillAlive = some true then some { slot with handler := .idle }
          else some { slot with clients := slot.clients ++ [session], handler := .spawning }
      | _ => none
  | .spawn =>
      match slot.handler with
      | .spawning => some { slot with tasks := slot.tasks ++ [.head], handler := .idle }
      | _ => none
  | .fail => some { slot with handler := .idle }

/-- All interleavings. -/
def system (now : Nat) (log : List EventType) : System Slot SlotAction := .ofStep (new now log) step

/-- Every way a step can go. -/
inductive Moved (slot : Slot) : SlotAction → Slot → Prop where
  | tick (seconds : Nat) : Moved slot (.tick seconds) { slot with now := slot.now + seconds }
  | alive {task client} (stands : slot.pc? task = some .head)
      (present : slot.clients.getLast? = some client) (living : client.isAlive slot.now = true) :
      Moved slot (.head task) (slot.goto task (.reading slot.current slot.now))
  | dead {task client} (stands : slot.pc? task = some .head)
      (present : slot.clients.getLast? = some client) (late : client.isAlive slot.now = false) :
      Moved slot (.head task) (slot.goto task (.logging slot.current (deathEvent client)))
  | timedOut {task client t} (stands : slot.pc? task = some (.reading client t)) :
      Moved slot (.read task .timedOut) (slot.goto task .head)
  | failed {task client t own} (stands : slot.pc? task = some (.reading client t))
      (loaded : slot.clients[client]? = some own) :
      Moved slot (.read task .failed) (slot.goto task (.logging client (failureEvent own)))
  | killed {task client t} (stands : slot.pc? task = some (.reading client t)) :
      Moved slot (.read task (.ok [])) { slot.goto task .head with
        clients := slot.clients.modify client fun own => own.kill slot.now }
  | kept {task client t own readed packet rest session}
      (stands : slot.pc? task = some (.reading client t))
      (decoded : ClientPacketV5.decode readed = .ok (packet, rest))
      (loaded : slot.clients[client]? = some own) (extended : own.keepAliveAt (t + 1) = .ok session) :
      Moved slot (.read task (.ok readed)) { slot.goto task (answer client packet) with
        clients := slot.clients.set client session }
  | skipped {task client t readed packet rest}
      (stands : slot.pc? task = some (.reading client t))
      (decoded : ClientPacketV5.decode readed = .ok (packet, rest)) :
      Moved slot (.read task (.ok readed)) (slot.goto task .head)
  | overflown {task client t own readed packet rest}
      (stands : slot.pc? task = some (.reading client t))
      (decoded : ClientPacketV5.decode readed = .ok (packet, rest))
      (loaded : slot.clients[client]? = some own) (overflow : own.keepAliveAt (t + 1) = .panic) :
      Moved slot (.read task (.ok readed)) (slot.goto task .ended)
  | undecodable {task client t readed} (stands : slot.pc? task = some (.reading client t))
      (nonempty : readed ≠ [])
      (malformed : ∀ packet rest, ClientPacketV5.decode readed ≠ .ok (packet, rest)) :
      Moved slot (.read task (.ok readed)) (slot.goto task .ended)
  | written {task client} (stands : slot.pc? task = some (.writing client)) :
      Moved slot (.written task) (slot.goto task .head)
  | aborted {task pc} (stands : slot.pc? task = some pc) (awaits : pc.client?.isSome = true) :
      Moved slot (.abort task) (slot.goto task .ended)
  | appended {task client event} (stands : slot.pc? task = some (.logging client event)) :
      Moved slot (.append task) { slot.goto task .ended with log := slot.log ++ [event] }
  | refused {cleanStart} (waits : slot.handler = .idle) : Moved slot (.check cleanStart) slot
  | checked {cleanStart} (waits : slot.handler = .idle) (dead : slot.isStillAlive ≠ some true) :
      Moved slot (.check cleanStart)
        { slot with handler := if cleanStart then .creating else .restoring }
  | restored {readable} (waits : slot.handler = .restoring) (resumable : slot.resumable = true) :
      Moved slot (.restore readable) { slot with
        log := slot.log ++ [.clientRestored], handler := .restored }
  | notRestored {readable} (waits : slot.handler = .restoring) :
      Moved slot (.restore readable) { slot with handler := .creating }
  | unreadable (waits : slot.handler = .restored) :
      Moved slot (.restoreRead none) { slot with handler := .creating }
  | readBack {keepAlive exprInterval allowance} (waits : slot.handler = .restored)
      (bounded : Session.allowance keepAlive = .ok allowance) :
      Moved slot (.restoreRead (some (keepAlive, exprInterval))) { slot with
        handler := .inserting ⟨slot.now + allowance, exprInterval, keepAlive⟩ }
  | notReadBack {keepAlive exprInterval} (waits : slot.handler = .restored)
      (unbounded : ∀ allowance, Session.allowance keepAlive ≠ .ok allowance) :
      Moved slot (.restoreRead (some (keepAlive, exprInterval))) { slot with handler := .idle }
  | created {keepAlive exprInterval allowance} (waits : slot.handler = .creating)
      (bounded : Session.allowance keepAlive = .ok allowance) :
      Moved slot (.create keepAlive exprInterval) { slot with
        handler := .storing ⟨slot.now + allowance, exprInterval, max keepAlive Client.minKeepAlive⟩ }
  | notCreated {keepAlive exprInterval} (waits : slot.handler = .creating) :
      Moved slot (.create keepAlive exprInterval) { slot with handler := .idle }
  | stored {session} (waits : slot.handler = .storing session) :
      Moved slot .store { slot with log := [.clientCreated], handler := .inserting session }
  | inserted {session} (waits : slot.handler = .inserting session)
      (dead : slot.isStillAlive ≠ some true) :
      Moved slot .insert { slot with clients := slot.clients ++ [session], handler := .spawning }
  | notInserted {session} (waits : slot.handler = .inserting session)
      (alive : slot.isStillAlive = some true) : Moved slot .insert { slot with handler := .idle }
  | spawned (waits : slot.handler = .spawning) :
      Moved slot .spawn { slot with tasks := slot.tasks ++ [.head], handler := .idle }
  | gaveUp : Moved slot .fail { slot with handler := .idle }

/-- What a task can do with the result of its read. -/
theorem readStep_moved {slot next : Slot} {task client t : Nat} {result : ReadResult}
    (stands : slot.pc? task = some (.reading client t))
    (stepped : slot.readStep task client t result = some next) :
    slot.Moved (.read task result) next := by
  cases result with
  | timedOut =>
    cases stepped
    exact .timedOut stands
  | failed =>
    obtain ⟨own, loaded, same⟩ := Option.bind_eq_some_iff.mp stepped
    cases same
    exact .failed stands loaded
  | ok readed =>
    cases readed with
    | nil =>
      cases stepped
      exact .killed stands
    | cons first tail =>
      rw [readStep] at stepped
      cases decoded : ClientPacketV5.decode (first :: tail) with
      | ok result =>
        rw [decoded] at stepped
        obtain ⟨own, loaded, continued⟩ := Option.bind_eq_some_iff.mp stepped
        cases kept : own.keepAliveAt (t + 1) with
        | ok session =>
          rw [kept] at continued
          cases continued
          exact .kept stands decoded loaded kept
        | err error =>
          rw [kept] at continued
          cases continued
          exact .skipped stands decoded
        | panic =>
          rw [kept] at continued
          cases continued
          exact .overflown stands decoded loaded kept
      | err error =>
        rw [decoded] at stepped
        cases stepped
        exact .undecodable stands nofun (by simp [decoded])
      | panic =>
        rw [decoded] at stepped
        cases stepped
        exact .undecodable stands nofun (by simp [decoded])
      all_goals nofun

/-- A step goes one of these ways. -/
theorem step_moved {slot next : Slot} {action : SlotAction}
    (stepped : slot.step action = some next) : slot.Moved action next := by
  cases action with
  | tick seconds =>
    cases stepped
    exact .tick seconds
  | head task =>
    simp only [step] at stepped
    split at stepped
    · rename_i client stands present
      cases living : client.isAlive slot.now with
      | true =>
        rw [if_pos living] at stepped
        cases stepped
        exact .alive stands present living
      | false =>
        rw [if_neg (by rw [living]; exact nofun)] at stepped
        cases stepped
        exact .dead stands present living
    · cases stepped
  | read task result =>
    simp only [step] at stepped
    split at stepped
    · exact readStep_moved ‹_› (Option.ite_none_left_eq_some.mp stepped).2
    · cases stepped
  | written task =>
    simp only [step] at stepped
    split at stepped
    · obtain ⟨_, same⟩ := Option.ite_none_left_eq_some.mp stepped
      cases same
      exact .written ‹_›
    · cases stepped
  | abort task =>
    simp only [step] at stepped
    split at stepped
    · obtain ⟨_, same⟩ := Option.ite_none_left_eq_some.mp stepped
      cases same
      exact .aborted ‹_› rfl
    · cases stepped
      exact .aborted ‹_› rfl
    · cases stepped
  | append task =>
    simp only [step] at stepped
    split at stepped
    · obtain ⟨_, same⟩ := Option.ite_none_left_eq_some.mp stepped
      cases same
      exact .appended ‹_›
    · cases stepped
  | check cleanStart =>
    simp only [step] at stepped
    split at stepped
    · split at stepped
      · cases stepped
        exact .refused ‹_›
      · cases stepped
        exact .checked ‹_› ‹_›
    · cases stepped
  | restore readable =>
    simp only [step] at stepped
    split at stepped
    · split at stepped
      · cases stepped
        exact .restored ‹_› (Bool.and_eq_true_iff.mp ‹_›).2
      · cases stepped
        exact .notRestored ‹_›
    · cases stepped
  | restoreRead metadata =>
    simp only [step] at stepped
    split at stepped
    · cases stepped
      exact .unreadable ‹_›
    · split at stepped
      · cases stepped
        exact .readBack ‹_› ‹_›
      · cases stepped
        exact .notReadBack ‹_› ‹_›
    · cases stepped
  | create keepAlive exprInterval =>
    simp only [step] at stepped
    split at stepped
    · split at stepped
      · cases stepped
        exact .created ‹_› ‹_›
      · cases stepped
        exact .notCreated ‹_›
    · cases stepped
  | store =>
    simp only [step] at stepped
    split at stepped
    · cases stepped
      exact .stored ‹_›
    · cases stepped
  | insert =>
    simp only [step] at stepped
    split at stepped
    · split at stepped
      · cases stepped
        exact .notInserted ‹_› ‹_›
      · cases stepped
        exact .inserted ‹_› ‹_›
    · cases stepped
  | spawn =>
    simp only [step] at stepped
    split at stepped
    · cases stepped
      exact .spawned ‹_›
    · cases stepped
  | fail =>
    cases stepped
    exact .gaveUp

/-- A task that goes on stands where it goes. -/
theorem pc?_goto_self {slot : Slot} {task : Nat} {before : TaskPc}
    (stands : slot.pc? task = some before) (pc : TaskPc) : (slot.goto task pc).pc? task = some pc := by
  obtain ⟨place, _⟩ := List.getElem?_eq_some_iff.mp stands
  exact List.getElem?_set_self place

/-- All others stand where they stood. -/
theorem pc?_goto_ne (slot : Slot) {task other : Nat} (different : other ≠ task) (pc : TaskPc) :
    (slot.goto task pc).pc? other = slot.pc? other :=
  List.getElem?_set_ne (Ne.symm different)

/-- A task beside a spawned one is one of the earlier tasks or that one. -/
theorem listed_spawned {tasks : List TaskPc} {spawned pc : TaskPc} {task : Nat}
    (listed : (tasks ++ [spawned])[task]? = some pc) :
    tasks[task]? = some pc ∨ task = tasks.length ∧ pc = spawned := by
  rw [List.getElem?_append] at listed
  split at listed
  · exact .inl listed
  · obtain ⟨place, same⟩ := List.getElem?_eq_some_iff.mp listed
    simp only [List.length_singleton, Nat.lt_one_iff] at place
    simp only [place, List.getElem_cons_zero] at same
    exact .inr ⟨by omega, same.symm⟩

/-- A task that holds a freed client gets no result from its read, its write or the print
behind its last event. -/
theorem step_of_dangling {slot : Slot} {task : Nat} {pc : TaskPc}
    (stands : slot.pc? task = some pc) (dangling : slot.Dangling pc) :
    slot.step (.head task) = none ∧ (∀ result, slot.step (.read task result) = none) ∧
      slot.step (.written task) = none ∧ slot.step (.append task) = none := by
  cases pc with
  | head | ended => obtain ⟨_, held, _⟩ := dangling; cases held
  | reading | writing | logging => simp [step, stands, dangling]

end Slot
end Sipusu.MessageBroker
