import Sipusu.Ds.Atomic
import Sipusu.MessageBroker.Message

/-!
# The message queue on its list

`Queue` of `src/message_broker/message.rs` down to the pointers of its list: every atomic
operation of `append`, of `take_first` and of the waker cell is a step of its own. The list
behaves like a queue under its guard and the waker is kept under the guard of its cell; here
both are one machine, and the two guards together are exact. Where `append` follows a null
pointer or a pointer to a freed node the whole machine comes to its end.
-/

namespace Sipusu.MessageBroker

open Sipusu.Foundation Sipusu.Ds.LinkedList

/-- `struct MQueue` with its list and the tasks around it. An enqueuer is at `append` until
its call on the list returns, and the polling task is at `take` until `take_first` returns. -/
structure SharedQueue (M W : Type) where
  q : Machine M
  s : Option W
  enqueuer : Nat → EnqueuePc M W
  poller : PollPc M W
  /-- Whether a wake has been issued since the last poll began. -/
  woken : Bool
  /-- Whether a pointer was followed that is null or leads to a freed node. -/
  fault : Bool

variable {M W : Type}

namespace SharedQueue

/-- `MQueue::new`. -/
def new : SharedQueue M W where
  q := .new
  s := none
  enqueuer _ := .idle
  poller := .idle none
  woken := false
  fault := false

/-- An enqueuer goes on with the given step. -/
def goto (queue : SharedQueue M W) (task : Nat) (pc : EnqueuePc M W) : SharedQueue M W :=
  { queue with enqueuer := Function.update queue.enqueuer task pc }

/-- One step of `Queue::enqueue`. -/
def enqueueStep (queue : SharedQueue M W) (task : Nat) : Option (SharedQueue M W) :=
  match queue.enqueuer task with
  | .idle => none
  | .append _ =>
      if queue.q.Defined (.appendStep task) then do
        let q ← queue.q.step (.appendStep task)
        match q.appender task with
        | .idle => some { queue.goto task .swap with q }
        | _ => some { queue with q }
      else some { queue with fault := true }
  | .swap =>
      match queue.s with
      | none => some (queue.goto task .idle)
      | some waker => some { queue.goto task (.wake waker) with s := none }
  | .wake _ => some { queue.goto task .idle with woken := true }

/-- One step of `DequeueMessage::poll`. -/
def pollStep (queue : SharedQueue M W) : Option (SharedQueue M W) :=
  match queue.poller with
  | .idle _ => none
  | .take waker => do
      let q ← queue.q.step .takeStep
      match q.taker with
      | .idle =>
          match q.taken.drop queue.q.taken.length with
          | [] => some { queue with q, poller := .store waker }
          | (_, msg) :: _ => some { queue with q, poller := .idle (some (some msg)) }
      | _ => some { queue with q }
  | .store waker => some { queue with s := some waker, poller := .idle (some none) }

/-- What an action does to the queue and the tasks. -/
def act (queue : SharedQueue M W) : QueueAction M W → Option (SharedQueue M W)
  | .enqueue task val =>
      match queue.enqueuer task with
      | .idle => do
          let q ← queue.q.step (.append task val)
          some { queue.goto task (.append val) with q }
      | _ => none
  | .enqueueStep task => queue.enqueueStep task
  | .poll waker =>
      match queue.poller with
      | .idle _ => do
          let q ← queue.q.step .take
          some { queue with q, poller := .take waker, woken := false }
      | _ => none
  | .pollStep => queue.pollStep

/-- One step of any task. After a fault there is none. -/
def step (queue : SharedQueue M W) (action : QueueAction M W) : Option (SharedQueue M W) :=
  if queue.fault then none else queue.act action

/-- All interleavings of enqueuers and the one polling task. -/
def system (M W : Type) : System (SharedQueue M W) (QueueAction M W) := .ofStep .new step

/-- The queue with a list of messages in the place of its list. -/
def seen (queue : SharedQueue M W) (messages : List M) : MQueue M W :=
  { q := messages, s := queue.s, enqueuer := queue.enqueuer, poller := queue.poller,
    woken := queue.woken }

/-- A step as it is seen from outside the list: steps within one call of the list are silent. -/
def shown (queue : SharedQueue M W) : QueueAction M W → Option (QueueAction M W)
  | .enqueueStep task =>
      match (queue.enqueueStep task).map fun after => after.enqueuer task with
      | some (EnqueuePc.append _) => none
      | _ => some (.enqueueStep task)
  | .pollStep =>
      match queue.pollStep.map fun after => after.poller with
      | some (PollPc.take _) => none
      | _ => some .pollStep
  | action => some action

/-- All enqueues have finished. -/
def Quiet (queue : SharedQueue M W) : Prop := ∀ task, queue.enqueuer task = .idle

/-- The polling task sleeps. -/
def Asleep (queue : SharedQueue M W) : Prop :=
  queue.poller = .idle (some none) ∧ queue.woken = false

/-- No pointer was followed that leads nowhere, no message is lost or duplicated, and the polling
task does not sleep on a list with a message that no running enqueue will wake it for. -/
structure Safe (queue : SharedQueue M W) : Prop where
  sound : queue.fault = false
  messages : queue.q.Safe
  live : ¬ (queue.Quiet ∧ queue.Asleep ∧ queue.q.head ≠ none)

/-- The steps of the list follow no pointer that is null or leads to a freed node, and meet its
guard. -/
def ListGuarded (queue : SharedQueue M W) : QueueAction M W → Prop
  | .enqueueStep task =>
      match queue.enqueuer task with
      | .append _ => queue.q.Defined (.appendStep task) ∧ queue.q.Guarded (.appendStep task)
      | _ => True
  | .pollStep =>
      match queue.poller with
      | .take _ => queue.q.Guarded .takeStep
      | _ => True
  | _ => True

/-- The condition on steps: those of the list meet its guard, and a poll stores its waker only
while the list is still empty, or an enqueue is running, or a wake was issued. -/
def Guarded (queue : SharedQueue M W) (action : QueueAction M W) : Prop :=
  queue.ListGuarded action ∧
    match action, queue.poller with
    | .pollStep, .store _ => queue.q.head = none ∨ ¬ queue.Quiet ∨ queue.woken = true
    | _, _ => True

/-- Where an enqueuer stands, its task stands on the list. -/
def Appending (queue : SharedQueue M W) (task : Nat) : Prop :=
  match queue.enqueuer task with
  | .append val => ∃ address, (queue.q.appender task).call = some (address, val)
  | _ => queue.q.appender task = .idle

/-- Where the polling task stands, it stands on the list. -/
def Taking (queue : SharedQueue M W) : Prop :=
  match queue.poller with
  | .take _ => queue.q.taker ≠ .idle
  | _ => queue.q.taker = .idle

/-- The list holds the messages, and the tasks stand on it where they stand in the queue. -/
structure Lists (queue : SharedQueue M W) (messages : List M) : Prop where
  holds : queue.q.Holds messages
  appending : ∀ task, queue.Appending task
  taking : queue.Taking

section List

variable {q after : Machine M} {task : Nat}

/-- What a step of an appending task does: its call returns, or it goes on. -/
inductive AppendStepped (q : Machine M) (task : Nat) (after : Machine M) : Prop where
  | returned (call) (running : (q.appender task).call = some call)
      (tasks : after.appender = Function.update q.appender task .idle)
      (calls : after.returned = q.returned ++ [call]) (taken : after.taken = q.taken)
      (taker : after.taker = q.taker)
  | continues (pc) (runs : pc ≠ .idle) (same : pc.call = (q.appender task).call)
      (tasks : after.appender = Function.update q.appender task pc)
      (calls : after.returned = q.returned) (taken : after.taken = q.taken)
      (taker : after.taker = q.taker)

/-- A call that goes on. -/
theorem AppendStepped.goto {pc : AppendPc M} (runs : pc ≠ .idle)
    (same : pc.call = (q.appender task).call) :
    AppendStepped q task (q.goto task pc).observe :=
  .continues pc runs same rfl rfl rfl rfl

theorem ne_idle_of_call {pc : AppendPc M} {call : Call M} (running : pc.call = some call) :
    pc ≠ .idle := by
  rintro rfl
  cases running

theorem appendStep_cases (defined : q.Defined (.appendStep task))
    (stepped : q.step (.appendStep task) = some after) : AppendStepped q task after := by
  obtain ⟨acted, did, rfl⟩ := Option.map_eq_some_iff.mp stepped
  have went : q.appendStep task = some acted := did
  cases pc : q.appender task with
  | idle => simp [Machine.appendStep, pc] at went
  | crashed => simp [Machine.appendStep, pc] at went
  | loadHead call =>
    have same : (q.appender task).call = some call := by rw [pc]; rfl
    cases first : q.head <;>
      simp only [Machine.appendStep, pc, first, Option.some.injEq] at went <;>
      subst went <;> exact .goto (ne_idle_of_call rfl) same.symm
  | casHead call =>
    have same : (q.appender task).call = some call := by rw [pc]; rfl
    cases first : q.head <;>
      simp only [Machine.appendStep, pc, first, Option.some.injEq] at went <;> subst went
    · exact .returned call same rfl rfl rfl rfl
    · exact .goto (ne_idle_of_call rfl) same.symm
  | reloadHead call =>
    have same : (q.appender task).call = some call := by rw [pc]; rfl
    simp only [Machine.appendStep, pc, Option.some.injEq] at went
    subst went
    exact .goto (ne_idle_of_call rfl) same.symm
  | testNext curr call =>
    have same : (q.appender task).call = some call := by rw [pc]; rfl
    cases curr with
    | none => simp [Machine.Defined, pc] at defined
    | some curr =>
      simp only [Machine.appendStep, pc] at went
      obtain ⟨node, _, linked⟩ := Option.bind_eq_some_iff.mp went
      split at linked <;> rw [← Option.some.inj linked] <;>
        exact .goto (ne_idle_of_call rfl) same.symm
  | follow curr call =>
    have same : (q.appender task).call = some call := by rw [pc]; rfl
    simp only [Machine.appendStep, pc] at went
    obtain ⟨node, _, linked⟩ := Option.bind_eq_some_iff.mp went
    rw [← Option.some.inj linked]
    exact .goto (ne_idle_of_call rfl) same.symm
  | casNext curr call =>
    have same : (q.appender task).call = some call := by rw [pc]; rfl
    simp only [Machine.appendStep, pc] at went
    obtain ⟨node, _, linked⟩ := Option.bind_eq_some_iff.mp went
    split at linked <;> rw [← Option.some.inj linked]
    · exact .returned call same rfl rfl rfl rfl
    · exact .goto (ne_idle_of_call rfl) same.symm

/-- What a step of the taking task does: it reads on, or its call returns a message, or it finds
the list empty. -/
inductive TakeStepped (q : Machine M) (after : Machine M) : Prop where
  | reads (runs : after.taker ≠ .idle) (taken : after.taken = q.taken)
  | takes (call) (idle : after.taker = .idle) (taken : after.taken = q.taken ++ [call])
  | empty (idle : after.taker = .idle) (taken : after.taken = q.taken) (none : q.head = none)

theorem takeStep_cases (intact : q.Intact) (stepped : q.step .takeStep = some after) :
    TakeStepped q after ∧ after.appender = q.appender ∧ after.returned = q.returned := by
  obtain ⟨acted, did, rfl⟩ := Option.map_eq_some_iff.mp stepped
  have effect := Machine.act_effect did
  cases effect with
  | readsHead | readsNext =>
    refine ⟨.reads ?_ rfl, rfl, rfl⟩
    intro idle
    cases idle
  | takes => exact ⟨.takes _ rfl rfl, rfl, rfl⟩
  | findsEmpty here empty => exact ⟨.empty rfl rfl empty, rfl, rfl⟩
  | overtaken here moved =>
    have reading := intact.reading
    rw [here] at reading
    exact absurd reading.1 moved

/-- What is returned goes to the end of the list, and what is taken is its front. -/
theorem onward {messages : List M} {calls took : List (Call M)} (holds : q.Holds messages)
    (intact : after.Intact) (returned : after.returned = q.returned ++ calls)
    (taken : after.taken = q.taken ++ took) :
    ∃ onward, after.Holds onward ∧
      messages ++ calls.map Prod.snd = took.map Prod.snd ++ onward := by
  obtain ⟨path, _, split⟩ := intact.listed
  have values : after.returned.map Prod.snd = after.taken.map Prod.snd ++ path.map Prod.snd := by
    rw [split, List.map_append]
  refine ⟨path.map Prod.snd, ⟨intact, values⟩, ?_⟩
  rw [returned, taken, List.map_append, List.map_append, holds.values, List.append_assoc,
    List.append_assoc] at values
  exact List.append_cancel_left values

/-- A step that neither returns nor takes leaves the messages. -/
theorem holds_of_silent {messages : List M} (holds : q.Holds messages) (intact : after.Intact)
    (returned : after.returned = q.returned) (taken : after.taken = q.taken) :
    after.Holds messages := by
  refine ⟨intact, ?_⟩
  rw [returned, taken]
  exact holds.values

theorem head_eq_none_iff {messages : List M} (holds : q.Holds messages) :
    q.head = none ↔ messages = [] := by
  obtain ⟨path, chain, _, rfl⟩ := holds.listed
  constructor
  · intro empty
    rw [empty] at chain
    rw [chain.eq_nil]
    rfl
  · intro empty
    rw [List.map_eq_nil_iff.mp empty] at chain
    exact chain

end List

section Steps

variable {queue after : SharedQueue M W} {messages : List M}

/-- The other enqueuers stay where they stand. -/
theorem appending_goto {task other : Nat} {pc : EnqueuePc M W} {listPc : AppendPc M}
    (different : other ≠ task) (appending : queue.Appending other)
    (tasks : after.enqueuer = Function.update queue.enqueuer task pc)
    (listTasks : after.q.appender = Function.update queue.q.appender task listPc) :
    after.Appending other := by
  unfold Appending
  rw [tasks, listTasks, Function.update_of_ne different, Function.update_of_ne different]
  exact appending

theorem taking_of_same (taking : queue.Taking) (poller : after.poller = queue.poller)
    (taker : after.q.taker = queue.q.taker) : after.Taking := by
  unfold Taking
  rw [poller, taker]
  exact taking

theorem step_eq_some {action : QueueAction M W} :
    queue.step action = some after ↔ queue.fault = false ∧ queue.act action = some after := by
  unfold step
  cases queue.fault <;> simp

theorem Lists.enqueue {task : Nat} {val : M} (lists : queue.Lists messages)
    (stepped : queue.act (.enqueue task val) = some after) :
    MQueue.step (queue.seen messages) (.enqueue task val) = some (after.seen messages) ∧
      after.Lists messages := by
  simp only [act] at stepped
  cases pc : queue.enqueuer task <;> simp only [pc, reduceCtorEq] at stepped
  obtain ⟨q, did, same⟩ := Option.bind_eq_some_iff.mp stepped
  cases Option.some.inj same
  have guarded : queue.q.Guarded (.append task val) := trivial
  have intact : q.Intact := Machine.exactGuard.preserved lists.holds.intact guarded did
  obtain ⟨acted, allocated, rfl⟩ := Option.map_eq_some_iff.mp did
  have effect := Machine.act_effect allocated
  cases effect with
  | allocates idle =>
    refine ⟨?_, holds_of_silent lists.holds intact rfl rfl, fun other => ?_, lists.taking⟩
    · simp only [MQueue.step, seen, pc]
      rfl
    · by_cases mine : other = task
      · subst mine
        unfold Appending
        simp only [goto, Function.update_self]
        refine ⟨queue.q.fresh, ?_⟩
        change ((Function.update _ other _ : Nat → AppendPc M) other).call = _
        rw [Function.update_self]
        rfl
      · exact appending_goto mine (lists.appending other) rfl rfl

/-- The waker cell and the wake are the same steps in both queues. -/
theorem Lists.elsewhere {task : Nat} (lists : queue.Lists messages)
    (outside : ∀ val, queue.enqueuer task ≠ .append val)
    (stepped : queue.enqueueStep task = some after) :
    queue.shown (.enqueueStep task) = some (.enqueueStep task) ∧
      MQueue.step (queue.seen messages) (.enqueueStep task) = some (after.seen messages) ∧
      after.Lists messages := by
  have idle : queue.q.appender task = .idle := by
    have here := lists.appending task
    unfold Appending at here
    cases pc : queue.enqueuer task with
    | append val => exact absurd pc (outside val)
    | idle | swap | wake => simpa [pc] using here
  have moved {pc : EnqueuePc M W} (gone : ∀ val, pc ≠ .append val)
      (tasks : after.enqueuer = Function.update queue.enqueuer task pc)
      (q : after.q = queue.q) (poller : after.poller = queue.poller) : after.Lists messages := by
    refine ⟨q ▸ lists.holds, fun other => ?_, ?_⟩
    · by_cases mine : other = task
      · subst mine
        unfold Appending
        rw [tasks, q, Function.update_self]
        cases pc with
        | append val => exact absurd rfl (gone val)
        | idle | swap | wake => exact idle
      · have unmoved : after.q.appender = Function.update queue.q.appender task .idle := by
          rw [q, ← idle, Function.update_eq_self]
        exact appending_goto mine (lists.appending other) tasks unmoved
    · exact taking_of_same lists.taking poller (by rw [q])
  have visible {pc : EnqueuePc M W} (gone : ∀ val, pc ≠ .append val)
      (tasks : after.enqueuer = Function.update queue.enqueuer task pc) :
      queue.shown (.enqueueStep task) = some (.enqueueStep task) := by
    simp only [shown, stepped, Option.map_some, tasks, Function.update_self]
    cases pc with
    | append val => exact absurd rfl (gone val)
    | idle | swap | wake => rfl
  cases pc : queue.enqueuer task with
  | idle => simp [enqueueStep, pc] at stepped
  | append val => exact absurd pc (outside val)
  | swap =>
    cases cell : queue.s with
    | none =>
      have same : queue.goto task .idle = after := by
        simpa only [enqueueStep, pc, cell, Option.some.injEq] using stepped
      have gone : ∀ val, (.idle : EnqueuePc M W) ≠ .append val := by simp
      have tasks : after.enqueuer = Function.update queue.enqueuer task .idle := by rw [← same]; rfl
      refine ⟨visible gone tasks, ?_, moved gone tasks (by rw [← same]; rfl) (by rw [← same]; rfl)⟩
      simp only [MQueue.step, MQueue.enqueueStep, seen, pc, cell]
      rw [← same]
      simp [MQueue.goto, goto, cell]
    | some waker =>
      have same : { queue.goto task (.wake waker) with s := none } = after := by
        simpa only [enqueueStep, pc, cell, Option.some.injEq] using stepped
      have gone : ∀ val, (.wake waker : EnqueuePc M W) ≠ .append val := by simp
      have tasks : after.enqueuer = Function.update queue.enqueuer task (.wake waker) := by
        rw [← same]; rfl
      refine ⟨visible gone tasks, ?_, moved gone tasks (by rw [← same]; rfl) (by rw [← same]; rfl)⟩
      simp only [MQueue.step, MQueue.enqueueStep, seen, pc, cell]
      rw [← same]
      rfl
  | wake waker =>
    have same : { queue.goto task .idle with woken := true } = after := by
      simpa only [enqueueStep, pc, Option.some.injEq] using stepped
    have gone : ∀ val, (.idle : EnqueuePc M W) ≠ .append val := by simp
    have tasks : after.enqueuer = Function.update queue.enqueuer task .idle := by rw [← same]; rfl
    refine ⟨visible gone tasks, ?_, moved gone tasks (by rw [← same]; rfl) (by rw [← same]; rfl)⟩
    simp only [MQueue.step, MQueue.enqueueStep, seen, pc]
    rw [← same]
    rfl

theorem Lists.appendStep {task : Nat} {val : M} (lists : queue.Lists messages)
    (here : queue.enqueuer task = .append val) (defined : queue.q.Defined (.appendStep task))
    (guarded : queue.q.Guarded (.appendStep task))
    (stepped : queue.enqueueStep task = some after) :
    queue.shown (.enqueueStep task) = none ∧ after.seen messages = queue.seen messages ∧
        after.Lists messages ∨
      ∃ onward, queue.shown (.enqueueStep task) = some (.enqueueStep task) ∧
        MQueue.step (queue.seen messages) (.enqueueStep task) = some (after.seen onward) ∧
        after.Lists onward := by
  have did := stepped
  simp only [enqueueStep, here, if_pos defined] at did
  obtain ⟨q, listStepped, same⟩ := Option.bind_eq_some_iff.mp did
  have intact : q.Intact := Machine.exactGuard.preserved lists.holds.intact guarded listStepped
  have mine := lists.appending task
  simp only [Appending, here] at mine
  cases appendStep_cases defined listStepped with
  | returned call running tasks calls taken taker =>
    have now : q.appender task = .idle := by rw [tasks, Function.update_self]
    have isCall : call.2 = val := by
      obtain ⟨address, sameCall⟩ := mine
      rw [sameCall] at running
      cases running
      rfl
    simp only [now, Option.some.injEq] at same
    subst same
    refine .inr ⟨messages ++ [val], ?_, ?_, ⟨intact, ?_⟩, fun other => ?_, ?_⟩
    · simp only [shown, stepped, Option.map_some, goto, Function.update_self]
    · simp only [MQueue.step, MQueue.enqueueStep, seen, here]
      rfl
    · change q.returned.map Prod.snd = q.taken.map Prod.snd ++ (messages ++ [val])
      rw [calls, taken, List.map_append, lists.holds.values, List.append_assoc, ← isCall]
      rfl
    · by_cases same : other = task
      · subst same
        unfold Appending
        simp only [goto, Function.update_self]
        exact now
      · exact appending_goto same (lists.appending other) rfl tasks
    · exact taking_of_same lists.taking rfl taker
  | continues pc runs sameCall tasks calls taken taker =>
    have now : q.appender task = pc := by rw [tasks, Function.update_self]
    have isAfter : { queue with q } = after := by
      cases pc with
      | idle => exact absurd rfl runs
      | _ => simpa only [now, Option.some.injEq] using same
    subst isAfter
    refine .inl ⟨?_, rfl, holds_of_silent lists.holds intact calls taken, fun other => ?_, ?_⟩
    · simp only [shown, stepped, Option.map_some, here]
    · by_cases same : other = task
      · subst same
        unfold Appending
        simp only [here, now]
        rw [sameCall]
        exact mine
      · have unmoved := lists.appending other
        unfold Appending at unmoved ⊢
        simp only [tasks, Function.update_of_ne same]
        exact unmoved
    · exact taking_of_same lists.taking rfl taker

theorem Lists.poll {waker : W} (lists : queue.Lists messages)
    (stepped : queue.act (.poll waker) = some after) :
    MQueue.step (queue.seen messages) (.poll waker) = some (after.seen messages) ∧
      after.Lists messages := by
  simp only [act] at stepped
  cases pc : queue.poller <;> simp only [pc, reduceCtorEq] at stepped
  obtain ⟨q, did, same⟩ := Option.bind_eq_some_iff.mp stepped
  cases Option.some.inj same
  have guarded : queue.q.Guarded .take := trivial
  have intact : q.Intact := Machine.exactGuard.preserved lists.holds.intact guarded did
  obtain ⟨acted, began, rfl⟩ := Option.map_eq_some_iff.mp did
  have effect := Machine.act_effect began
  cases effect with
  | begins idle =>
    refine ⟨?_, holds_of_silent lists.holds intact rfl rfl, lists.appending, ?_⟩
    · simp only [MQueue.step, seen, pc]
    · intro idle
      cases idle

theorem Lists.store {waker : W} (lists : queue.Lists messages) (here : queue.poller = .store waker)
    (stepped : queue.pollStep = some after) :
    queue.shown .pollStep = some .pollStep ∧
      MQueue.step (queue.seen messages) .pollStep = some (after.seen messages) ∧
      after.Lists messages := by
  have did := stepped
  simp only [pollStep, here, Option.some.injEq] at did
  subst did
  have idle := lists.taking
  simp only [Taking, here] at idle
  refine ⟨?_, ?_, lists.holds, lists.appending, idle⟩
  · simp only [shown, stepped, Option.map_some]
  · simp only [MQueue.step, MQueue.pollStep, seen, here]

theorem Lists.takeStep {waker : W} (lists : queue.Lists messages)
    (here : queue.poller = .take waker) (guarded : queue.q.Guarded .takeStep)
    (stepped : queue.pollStep = some after) :
    queue.shown .pollStep = none ∧ after.seen messages = queue.seen messages ∧
        after.Lists messages ∨
      ∃ onward, queue.shown .pollStep = some .pollStep ∧
        MQueue.step (queue.seen messages) .pollStep = some (after.seen onward) ∧
        after.Lists onward := by
  have did := stepped
  simp only [pollStep, here] at did
  obtain ⟨q, listStepped, same⟩ := Option.bind_eq_some_iff.mp did
  have intact : q.Intact := Machine.exactGuard.preserved lists.holds.intact guarded listStepped
  obtain ⟨cases, appender, returned⟩ := takeStep_cases lists.holds.intact listStepped
  have appending {next : SharedQueue M W} (list : next.q = q)
      (tasks : next.enqueuer = queue.enqueuer) (other : Nat) : next.Appending other := by
    have unmoved := lists.appending other
    unfold Appending at unmoved ⊢
    rw [list, tasks, appender]
    exact unmoved
  cases cases with
  | reads runs taken =>
    have isAfter : { queue with q } = after := by
      cases pc : q.taker with
      | idle => exact absurd pc runs
      | _ => simpa only [pc, here, Option.some.injEq] using same
    subst isAfter
    refine .inl ⟨?_, rfl, holds_of_silent lists.holds intact returned taken, appending rfl rfl, ?_⟩
    · simp only [shown, stepped, Option.map_some, here]
    · simpa only [Taking, here] using runs
  | takes call idle taken =>
    simp only [idle, taken, List.drop_left, Option.some.injEq] at same
    subst same
    have calls : q.returned = queue.q.returned ++ [] := by rw [returned, List.append_nil]
    obtain ⟨rest, holds, front⟩ := onward lists.holds intact calls taken
    have first : messages = call.2 :: rest := by simpa using front
    refine .inr ⟨rest, ?_, ?_, holds, appending rfl rfl, idle⟩
    · simp only [shown, stepped, Option.map_some]
    · simp only [MQueue.step, MQueue.pollStep, seen, here, first]
  | empty idle taken none =>
    simp only [idle, taken, List.drop_length, Option.some.injEq] at same
    subst same
    have nothing := (head_eq_none_iff lists.holds).mp none
    subst nothing
    refine .inr ⟨[], ?_, ?_, holds_of_silent lists.holds intact returned taken, appending rfl rfl,
      idle⟩
    · simp only [shown, stepped, Option.map_some]
    · simp only [MQueue.step, MQueue.pollStep, seen, here]

/-- A step that meets the guard of the list is a step of the queue of its messages, or is silent
within one call of the list. -/
theorem Lists.step {action : QueueAction M W} (lists : queue.Lists messages)
    (guarded : queue.ListGuarded action) (stepped : queue.act action = some after) :
    queue.shown action = none ∧ after.seen messages = queue.seen messages ∧ after.Lists messages ∨
      ∃ onward, queue.shown action = some action ∧
        MQueue.step (queue.seen messages) action = some (after.seen onward) ∧
        after.Lists onward := by
  cases action with
  | enqueue task val => exact .inr ⟨messages, rfl, lists.enqueue stepped⟩
  | poll waker => exact .inr ⟨messages, rfl, lists.poll stepped⟩
  | enqueueStep task =>
    cases pc : queue.enqueuer task with
    | append val =>
      simp only [ListGuarded, pc] at guarded
      exact lists.appendStep pc guarded.1 guarded.2 stepped
    | idle | swap | wake =>
      refine .inr ⟨messages, lists.elsewhere ?_ stepped⟩
      simp [pc]
  | pollStep =>
    cases pc : queue.poller with
    | idle => simp [act, pollStep, pc] at stepped
    | take waker =>
      simp only [ListGuarded, pc] at guarded
      exact lists.takeStep pc guarded stepped
    | store waker => exact .inr ⟨messages, lists.store pc stepped⟩

end Steps

theorem lists_new : (new : SharedQueue M W).Lists [] :=
  ⟨⟨Machine.intact_new, rfl⟩, fun _ => rfl, rfl⟩

/-- The queue on its list simulates the queue whose list operations are single steps. -/
theorem simulation : System.Simulation (system M W) (MQueue.system M W) ListGuarded shown
    fun queue shadow => ∃ messages, queue.Lists messages ∧ shadow = queue.seen messages where
  initial valid := by
    rw [valid]
    exact ⟨MQueue.new, rfl, [], lists_new, rfl⟩
  step {queue action after shadow} related guarded stepped := by
    obtain ⟨messages, lists, rfl⟩ := related
    rcases lists.step guarded (step_eq_some.mp stepped).2 with
      ⟨silent, same, still⟩ | ⟨onward, visible, did, now⟩
    · exact .inl ⟨silent, messages, still, same.symm⟩
    · exact .inr ⟨action, after.seen onward, visible, did, onward, now, rfl⟩

/-- In every interleaving whose steps meet the guard of the list, the queue on its list does what
the queue with single-step list operations does: the steps that are not within a call of the list
are a run of it, over the messages that were appended and not yet taken. -/
theorem refines {trail : List (SharedQueue M W × QueueAction M W)} {queue : SharedQueue M W}
    (run : (system M W).Run trail queue) (guarded : System.Run.AllSteps ListGuarded trail) :
    ∃ history messages, (MQueue.system M W).Run history (queue.seen messages) ∧
      history.map Prod.snd = System.emitted shown trail ∧
      queue.q.returned.map Prod.snd = queue.q.taken.map Prod.snd ++ messages := by
  obtain ⟨history, shadow, abstract, labels, messages, lists, rfl⟩ := simulation.of_run run guarded
  exact ⟨history, messages, abstract, labels, lists.holds.values⟩

/-- Two tasks enqueue, and a poll takes a message while the second one still appends. -/
theorem refines_interleaved :
    let actions : List (QueueAction Nat Unit) := [.enqueue 0 5, .enqueue 1 6, .enqueueStep 0,
      .enqueueStep 1, .enqueueStep 1, .enqueueStep 0, .poll (), .pollStep, .enqueueStep 0,
      .enqueueStep 0, .enqueueStep 0, .enqueueStep 0, .pollStep, .pollStep]
    ∃ (queue : SharedQueue Nat Unit) (history : List (MQueue Nat Unit × QueueAction Nat Unit))
      (messages : List Nat), System.execute step new actions = some queue ∧
      (MQueue.system Nat Unit).Run history (queue.seen messages) ∧
      history.map Prod.snd = [.enqueue 0 5, .enqueue 1 6, .enqueueStep 1, .poll (),
        .enqueueStep 0, .pollStep] ∧ messages = [5] := by
  intro actions
  have ran : (System.execute step new actions).map
      (fun queue => (queue.q.returned, queue.q.taken)) = some ([(1, 6), (0, 5)], [(1, 6)]) := rfl
  obtain ⟨queue, executed, facts⟩ := Option.map_eq_some_iff.mp ran
  rw [Prod.mk.injEq] at facts
  have guarded : System.Run.AllSteps ListGuarded (System.trailOf step new actions) := by
    rintro entry (_ | ⟨_, _ | ⟨_, _ | ⟨_, _ | ⟨_, _ | ⟨_, _ | ⟨_, _ | ⟨_, _ | ⟨_, _ | ⟨_, _ | ⟨_,
      _ | ⟨_, _ | ⟨_, _ | ⟨_, _ | ⟨_, impossible⟩⟩⟩⟩⟩⟩⟩⟩⟩⟩⟩⟩⟩⟩)
    -- A link is filled at the twelfth step, and the head is swung at the last one.
    rotate_left 11
    · refine ⟨?_, fun _ => .here⟩
      intro freed
      cases freed
    · trivial
    · intro node stored
      cases stored
      rfl
    · cases impossible
    all_goals trivial
  obtain ⟨history, messages, abstract, labels, values⟩ := refines (System.run_of_execute executed)
    guarded
  refine ⟨queue, history, messages, executed, abstract, labels, ?_⟩
  rw [facts.1, facts.2] at values
  simpa using values.symm

/-- The queue is that of the messages on its list, and no wake-up is missing. -/
structure Kept (queue : SharedQueue M W) (messages : List M) : Prop
    extends Lists queue messages where
  sound : queue.fault = false
  watched : (queue.seen messages).Watched

/-- The guard of the waker cell is the same in both queues. -/
theorem Kept.seen_guarded {queue : SharedQueue M W} {messages : List M}
    {action : QueueAction M W} (kept : queue.Kept messages) :
    queue.Guarded action ↔ queue.ListGuarded action ∧ (queue.seen messages).Guarded action := by
  refine and_congr_right fun _ => ?_
  cases action with
  | enqueue | enqueueStep | poll => exact Iff.rfl
  | pollStep =>
    cases pc : queue.poller with
    | idle | take => simp [MQueue.Guarded, seen, pc]
    | store waker =>
      simp only [MQueue.Guarded, seen, pc, head_eq_none_iff kept.holds]
      rfl

theorem Kept.live {queue : SharedQueue M W} {messages : List M} (kept : queue.Kept messages) :
    ¬ (queue.Quiet ∧ queue.Asleep ∧ queue.q.head ≠ none) := by
  rintro ⟨quiet, asleep, waiting⟩
  exact kept.watched.live ⟨quiet, asleep, (head_eq_none_iff kept.holds).not.mp waiting⟩

/-- The guard of the waker cell only speaks of the store of a waker. -/
theorem storing_of_unguarded {queue : SharedQueue M W} {messages : List M}
    {action : QueueAction M W} (unguarded : ¬ (queue.seen messages).Guarded action) :
    ∃ waker, action = .pollStep ∧ queue.poller = .store waker := by
  cases action with
  | enqueue | enqueueStep | poll => exact absurd trivial unguarded
  | pollStep =>
    cases pc : queue.poller with
    | idle | take => simp [MQueue.Guarded, seen, pc] at unguarded
    | store waker => exact ⟨waker, rfl, rfl⟩

/-- Only a step outside the guard of the list faults. -/
theorem fault_of_guarded {queue after : SharedQueue M W} {action : QueueAction M W}
    (guarded : queue.ListGuarded action) (acted : queue.act action = some after) :
    after.fault = queue.fault := by
  cases action with
  | enqueue task val =>
    simp only [act] at acted
    split at acted
    · obtain ⟨q, _, same⟩ := Option.bind_eq_some_iff.mp acted
      rw [← Option.some.inj same]
      rfl
    · cases acted
  | poll waker =>
    simp only [act] at acted
    split at acted
    · obtain ⟨q, _, same⟩ := Option.bind_eq_some_iff.mp acted
      rw [← Option.some.inj same]
    · cases acted
  | enqueueStep task =>
    simp only [act] at acted
    cases pc : queue.enqueuer task with
    | idle => simp [enqueueStep, pc] at acted
    | append val =>
      simp only [ListGuarded, pc] at guarded
      simp only [enqueueStep, pc, if_pos guarded.1] at acted
      obtain ⟨q, _, same⟩ := Option.bind_eq_some_iff.mp acted
      split at same <;> cases Option.some.inj same <;> rfl
    | swap =>
      cases cell : queue.s <;> simp only [enqueueStep, pc, cell, Option.some.injEq] at acted <;>
        rw [← acted] <;> rfl
    | wake waker =>
      simp only [enqueueStep, pc, Option.some.injEq] at acted
      rw [← acted]
      rfl
  | pollStep =>
    simp only [act] at acted
    cases pc : queue.poller with
    | idle => simp [pollStep, pc] at acted
    | take waker =>
      simp only [pollStep, pc] at acted
      obtain ⟨q, _, same⟩ := Option.bind_eq_some_iff.mp acted
      split at same
      · split at same <;> rw [← Option.some.inj same]
      · rw [← Option.some.inj same]
    | store waker =>
      simp only [pollStep, pc, Option.some.injEq] at acted
      rw [← acted]

theorem Kept.preserved {queue after : SharedQueue M W} {messages : List M}
    {action : QueueAction M W} (kept : queue.Kept messages) (guarded : queue.Guarded action)
    (stepped : queue.step action = some after) : ∃ onward, after.Kept onward := by
  obtain ⟨listGuarded, seenGuarded⟩ := kept.seen_guarded.mp guarded
  obtain ⟨_, acted⟩ := step_eq_some.mp stepped
  have sound : after.fault = false := (fault_of_guarded listGuarded acted).trans kept.sound
  rcases kept.toLists.step listGuarded acted with ⟨_, same, still⟩ | ⟨onward, _, did, now⟩
  · exact ⟨messages, still, sound, same ▸ kept.watched⟩
  · exact ⟨onward, now, sound, MQueue.exactGuard.preserved kept.watched seenGuarded did⟩

/-- A step outside the guard of the list breaks the list, or follows a pointer that leads
nowhere. -/
theorem Kept.list_unsafe {queue after : SharedQueue M W} {messages : List M}
    {action : QueueAction M W} (kept : queue.Kept messages)
    (unguarded : ¬ queue.ListGuarded action) (acted : queue.act action = some after) :
    after.fault = true ∨ ¬ after.q.Safe := by
  cases action with
  | enqueue => exact absurd trivial unguarded
  | poll => exact absurd trivial unguarded
  | enqueueStep task =>
    cases pc : queue.enqueuer task with
    | idle | swap | wake => simp [ListGuarded, pc] at unguarded
    | append val =>
      simp only [ListGuarded, pc] at unguarded
      simp only [act, enqueueStep, pc] at acted
      by_cases defined : queue.q.Defined (.appendStep task)
      · rw [if_pos defined] at acted
        obtain ⟨q, listStepped, same⟩ := Option.bind_eq_some_iff.mp acted
        have list : after.q = q := by
          split at same <;> rw [← Option.some.inj same]
        have breaks : ¬ queue.q.Guarded (.appendStep task) :=
          fun guarded => unguarded ⟨defined, guarded⟩
        rw [list]
        exact .inr (Machine.exactGuard.sharp kept.holds.intact breaks listStepped)
      · rw [if_neg defined, Option.some.injEq] at acted
        rw [← acted]
        exact .inl rfl
  | pollStep =>
    cases pc : queue.poller with
    | idle | store => simp [ListGuarded, pc] at unguarded
    | take waker =>
      simp only [ListGuarded, pc] at unguarded
      simp only [act, pollStep, pc] at acted
      obtain ⟨q, listStepped, same⟩ := Option.bind_eq_some_iff.mp acted
      have list : after.q = q := by
        split at same
        · split at same <;> rw [← Option.some.inj same]
        · rw [← Option.some.inj same]
      rw [list]
      exact .inr (Machine.exactGuard.sharp kept.holds.intact unguarded listStepped)

/-- Guarded steps keep the messages and the waker, and any other step loses one of them or is the
last. -/
theorem exactGuard :
    (system M W).ExactGuard Guarded (fun queue => ∃ messages, queue.Kept messages) Safe where
  initial valid := by
    rw [valid]
    exact ⟨[], lists_new, rfl, MQueue.watched_new⟩
  preserved kept guarded stepped := by
    obtain ⟨messages, kept⟩ := kept
    exact kept.preserved guarded stepped
  sound kept := by
    obtain ⟨messages, kept⟩ := kept
    exact ⟨kept.sound, kept.holds.intact.safe, kept.live⟩
  sharp {queue action after} kept unguarded stepped := by
    obtain ⟨messages, kept⟩ := kept
    rintro ⟨sound, list, live⟩
    obtain ⟨_, acted⟩ := step_eq_some.mp stepped
    by_cases listGuarded : queue.ListGuarded action
    · have seenUnguarded : ¬ (queue.seen messages).Guarded action := by
        intro seenGuarded
        exact unguarded (kept.seen_guarded.mpr ⟨listGuarded, seenGuarded⟩)
      obtain ⟨waker, rfl, storing⟩ := storing_of_unguarded seenUnguarded
      obtain ⟨_, did, now⟩ := kept.toLists.store storing acted
      refine MQueue.exactGuard.sharp kept.watched seenUnguarded did ?_
      rintro ⟨quiet, asleep, waiting⟩
      exact live ⟨quiet, asleep, (head_eq_none_iff now.holds).not.mpr waiting⟩
    · rcases kept.list_unsafe listGuarded acted with fault | broken
      · rw [fault] at sound
        cases sound
      · exact broken list

/-- In every interleaving no pointer is followed that leads nowhere and no message and no wake-up
is lost in any state reached, exactly when all steps meet the guard. When the polling task then
sleeps and no enqueue is running, all that was enqueued has been taken, in its order. -/
theorem kept_iff {trail : List (SharedQueue M W × QueueAction M W)} {queue : SharedQueue M W}
    (run : (system M W).Run trail queue) :
    (System.Run.AllStates Safe trail queue ↔ System.Run.AllSteps Guarded trail) ∧
      (System.Run.AllSteps Guarded trail → queue.Quiet → queue.Asleep →
        queue.q.taken.map Prod.snd = queue.q.returned.map Prod.snd) := by
  refine ⟨exactGuard.safe_iff_guarded run, fun guarded quiet asleep => ?_⟩
  obtain ⟨messages, kept⟩ := exactGuard.invariant_of_run run guarded
  have empty : messages = [] := by
    by_contra waiting
    exact kept.watched.live ⟨quiet, asleep, waiting⟩
  rw [kept.holds.values, empty, List.append_nil]

/-- A poll sleeps on the empty list, an enqueue wakes it, and two more polls empty the list. -/
theorem kept_iff_woken :
    let actions : List (QueueAction Nat Unit) := [.poll (), .pollStep, .pollStep, .enqueue 0 7,
      .enqueueStep 0, .enqueueStep 0, .enqueueStep 0, .enqueueStep 0, .poll (), .pollStep,
      .pollStep, .pollStep, .poll (), .pollStep, .pollStep]
    ∃ queue, (system Nat Unit).Run (System.trailOf step new actions) queue ∧
      System.Run.AllStates Safe (System.trailOf step new actions) queue ∧
      queue.q.returned.map Prod.snd = [7] ∧
      queue.q.taken.map Prod.snd = queue.q.returned.map Prod.snd := by
  intro actions
  have ran : (System.execute step new actions).map
      (fun queue => (queue.q.returned, queue.poller, queue.woken, queue.enqueuer)) =
      some ([(0, 7)], .idle (some none), false, Function.update (Function.update (Function.update
        (Function.update (fun _ => .idle) 0 (.append 7)) 0 .swap) 0 (.wake ())) 0 .idle) := rfl
  obtain ⟨queue, executed, facts⟩ := Option.map_eq_some_iff.mp ran
  simp only [Prod.mk.injEq] at facts
  obtain ⟨returned, last, notWoken, tasks⟩ := facts
  have run := System.run_of_execute executed
  have quiet : queue.Quiet := by
    intro task
    rw [tasks]
    by_cases first : task = 0 <;> simp [first]
  have guarded : System.Run.AllSteps Guarded (System.trailOf step new actions) := by
    rintro entry (_ | ⟨_, _ | ⟨_, _ | ⟨_, _ | ⟨_, _ | ⟨_, _ | ⟨_, _ | ⟨_, _ | ⟨_, _ | ⟨_, _ | ⟨_,
      _ | ⟨_, _ | ⟨_, _ | ⟨_, _ | ⟨_, _ | ⟨_, impossible⟩⟩⟩⟩⟩⟩⟩⟩⟩⟩⟩⟩⟩⟩⟩)
    rotate_left 2
    · exact ⟨trivial, .inl rfl⟩
    rotate_left 8
    · refine ⟨?_, trivial⟩
      intro node stored
      cases stored
      rfl
    rotate_left 2
    · exact ⟨trivial, .inl rfl⟩
    · cases impossible
    all_goals trivial
  obtain ⟨safe, delivered⟩ := kept_iff run
  exact ⟨queue, run, safe.mpr guarded, by rw [returned]; rfl,
    delivered guarded quiet ⟨last, notWoken⟩⟩

end SharedQueue
end Sipusu.MessageBroker
