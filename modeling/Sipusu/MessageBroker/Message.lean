import Sipusu.Foundation.Runs

/-!
# The message queue and its waker

`src/message_broker/message.rs`. An enqueuer appends its message and then takes the
waker out of its cell; a poll tries the queue and then stores its waker. The
queue's own operations and each swap of the cell are single steps here.
-/

namespace Sipusu.MessageBroker

open Sipusu.Foundation

/-- What a call of `enqueue` does next. -/
inductive EnqueuePc (M W : Type) where
  /-- No call is running. -/
  | idle
  /-- `self.inner.q.append(val)`. -/
  | append (val : M)
  /-- `self.inner.s.swap(null, ..)`. -/
  | swap
  /-- `Box::from_raw(waker).wake()`. -/
  | wake (waker : W)
deriving DecidableEq, Repr

/-- What the polling task does next. -/
inductive PollPc (M W : Type) where
  /-- No poll is running; the last one, if any, returned this. -/
  | idle (last : Option (Option M))
  /-- `me.queue.q.take_first()`, in a context with this waker. -/
  | take (waker : W)
  /-- `me.queue.s.swap(waker, ..)`. -/
  | store (waker : W)
deriving DecidableEq, Repr

/-- `struct MQueue` with the tasks around it. -/
structure MQueue (M W : Type) where
  q : List M
  s : Option W
  enqueuer : Nat → EnqueuePc M W
  poller : PollPc M W
  /-- Whether a wake has been issued since the last poll began. -/
  woken : Bool

/-- What a task does. -/
inductive QueueAction (M W : Type) where
  | enqueue (task : Nat) (val : M)
  | enqueueStep (task : Nat)
  | poll (waker : W)
  | pollStep

variable {M W : Type}

namespace MQueue

/-- `MQueue::new`. -/
def new : MQueue M W where
  q := []
  s := none
  enqueuer _ := .idle
  poller := .idle none
  woken := false

/-- An enqueuer goes on with the given step. -/
def goto (queue : MQueue M W) (task : Nat) (pc : EnqueuePc M W) : MQueue M W :=
  { queue with enqueuer := Function.update queue.enqueuer task pc }

/-- One step of `Queue::enqueue`. -/
def enqueueStep (queue : MQueue M W) (task : Nat) : Option (MQueue M W) :=
  match queue.enqueuer task with
  | .idle => none
  | .append val => some { queue.goto task .swap with q := queue.q ++ [val] }
  | .swap =>
      match queue.s with
      | none => some (queue.goto task .idle)
      | some waker => some { queue.goto task (.wake waker) with s := none }
  | .wake _ => some { queue.goto task .idle with woken := true }

/-- One step of `DequeueMessage::poll`. The waker found in the cell is dropped. -/
def pollStep (queue : MQueue M W) : Option (MQueue M W) :=
  match queue.poller with
  | .idle _ => none
  | .take waker =>
      match queue.q with
      | [] => some { queue with poller := .store waker }
      | msg :: rest => some { queue with q := rest, poller := .idle (some (some msg)) }
  | .store waker => some { queue with s := some waker, poller := .idle (some none) }

/-- One step of any task. -/
def step (queue : MQueue M W) : QueueAction M W → Option (MQueue M W)
  | .enqueue task val =>
      match queue.enqueuer task with
      | .idle => some (queue.goto task (.append val))
      | _ => none
  | .enqueueStep task => queue.enqueueStep task
  | .poll waker =>
      match queue.poller with
      | .idle _ => some { queue with poller := .take waker, woken := false }
      | _ => none
  | .pollStep => queue.pollStep

/-- All interleavings of enqueuers and the one polling task. -/
def system (M W : Type) : System (MQueue M W) (QueueAction M W) := .ofStep .new step

/-- The polling task sleeps: its last poll was pending and nothing woke it since. -/
def Asleep (queue : MQueue M W) : Prop := queue.poller = .idle (some none) ∧ queue.woken = false

/-- All enqueues have finished. -/
def Quiet (queue : MQueue M W) : Prop := ∀ task, queue.enqueuer task = .idle

/-- No wake-up is lost: the polling task does not sleep on a message that no
running enqueue will wake it for. -/
def Live (queue : MQueue M W) : Prop := ¬ (queue.Quiet ∧ queue.Asleep ∧ queue.q ≠ [])

/-- The condition on steps: a poll stores its waker only while the queue is still
empty, or an enqueue is running, or a wake was issued since the poll began. -/
def Guarded (queue : MQueue M W) : QueueAction M W → Prop
  | .pollStep =>
      match queue.poller with
      | .store _ => queue.q = [] ∨ ¬ queue.Quiet ∨ queue.woken = true
      | _ => True
  | _ => True

/-- While the polling task sleeps its waker waits in the cell or in the hands of an
enqueuer, and a queued message has a running enqueue. -/
structure Watched (queue : MQueue M W) : Prop where
  wakeable : queue.Asleep → queue.s ≠ none ∨ ∃ task waker, queue.enqueuer task = .wake waker
  announced : queue.Asleep → queue.q ≠ [] → ∃ task, queue.enqueuer task ≠ .idle

theorem watched_new : (new : MQueue M W).Watched where
  wakeable := by rintro ⟨last, _⟩; cases last
  announced := by rintro ⟨last, _⟩; cases last

theorem goto_ne (queue : MQueue M W) {task other : Nat} (different : other ≠ task)
    (pc : EnqueuePc M W) : (queue.goto task pc).enqueuer other = queue.enqueuer other := by
  simp [goto, different]

theorem goto_self (queue : MQueue M W) (task : Nat) (pc : EnqueuePc M W) :
    (queue.goto task pc).enqueuer task = pc := by
  simp [goto]

theorem Watched.enqueue {queue after : MQueue M W} (watched : queue.Watched) {task : Nat} {val : M}
    (stepped : queue.step (.enqueue task val) = some after) : after.Watched := by
  simp only [step] at stepped
  cases pc : queue.enqueuer task <;> simp only [pc, reduceCtorEq, Option.some.injEq] at stepped
  subst stepped
  refine ⟨fun asleep => ?_, fun _ _ => ⟨task, ?_⟩⟩
  · rcases watched.wakeable asleep with stored | ⟨other, waker, waking⟩
    · exact .inl stored
    · have different : other ≠ task := by
        rintro rfl
        rw [pc] at waking
        cases waking
      exact .inr ⟨other, waker, (goto_ne queue different _).trans waking⟩
  · rw [goto_self]
    exact nofun

theorem Watched.enqueueStep {queue after : MQueue M W} (watched : queue.Watched) {task : Nat}
    (stepped : queue.enqueueStep task = some after) : after.Watched := by
  unfold MQueue.enqueueStep at stepped
  cases pc : queue.enqueuer task with
  | idle => simp [pc] at stepped
  | append val =>
    simp only [pc, Option.some.injEq] at stepped
    subst stepped
    refine ⟨fun asleep => ?_, fun _ _ => ⟨task, ?_⟩⟩
    · rcases watched.wakeable asleep with stored | ⟨other, waker, waking⟩
      · exact .inl stored
      · have different : other ≠ task := by
          rintro rfl
          rw [pc] at waking
          cases waking
        exact .inr ⟨other, waker, (goto_ne queue different .swap).trans waking⟩
    · have here : (queue.goto task .swap).enqueuer task = .swap := goto_self queue task .swap
      simp [here]
  | swap =>
    cases cell : queue.s with
    | none =>
      simp only [pc, cell, Option.some.injEq] at stepped
      subst stepped
      -- The cell was empty, so another enqueuer holds the waker.
      have waking : queue.Asleep → ∃ other waker,
          (queue.goto task .idle).enqueuer other = .wake waker := by
        intro asleep
        rcases watched.wakeable asleep with stored | ⟨other, waker, waking⟩
        · exact absurd cell stored
        · have different : other ≠ task := by
            rintro rfl
            rw [pc] at waking
            cases waking
          exact ⟨other, waker, (goto_ne queue different .idle).trans waking⟩
      refine ⟨fun asleep => .inr (waking asleep), fun asleep _ => ?_⟩
      obtain ⟨other, waker, isWaking⟩ := waking asleep
      exact ⟨other, by simp [isWaking]⟩
    | some waker =>
      simp only [pc, cell, Option.some.injEq] at stepped
      subst stepped
      have here : (queue.goto task (.wake waker)).enqueuer task = .wake waker :=
        goto_self queue task (.wake waker)
      exact ⟨fun _ => .inr ⟨task, waker, here⟩, fun _ _ => ⟨task, by simp [here]⟩⟩
  | wake waker =>
    simp only [pc, Option.some.injEq] at stepped
    subst stepped
    constructor <;> rintro ⟨_, notWoken⟩ <;> cases notWoken

/-- A poll that has begun is not asleep. -/
theorem Watched.poll {queue after : MQueue M W} {waker : W}
    (stepped : queue.step (.poll waker) = some after) : after.Watched := by
  simp only [step] at stepped
  cases pc : queue.poller <;> simp only [pc, reduceCtorEq, Option.some.injEq] at stepped
  subst stepped
  constructor <;> rintro ⟨last, _⟩ <;> cases last

theorem Watched.pollStep {queue after : MQueue M W} (guarded : queue.Guarded .pollStep)
    (stepped : queue.pollStep = some after) : after.Watched := by
  unfold MQueue.pollStep at stepped
  cases pc : queue.poller with
  | idle last => simp [pc] at stepped
  | take waker =>
    cases messages : queue.q <;> simp only [pc, messages, Option.some.injEq] at stepped <;>
      subst stepped <;> constructor <;> rintro ⟨last, _⟩ <;> cases last
  | store waker =>
    simp only [pc, Option.some.injEq] at stepped
    subst stepped
    simp only [Guarded, pc] at guarded
    refine ⟨fun _ => .inl (by simp), fun ⟨_, notWoken⟩ nonempty => ?_⟩
    rcases guarded with empty | running | woken
    · exact absurd empty nonempty
    · exact not_forall.mp running
    · exact absurd (woken.symm.trans notWoken) (by simp)

theorem Watched.live {queue : MQueue M W} (watched : queue.Watched) : queue.Live := by
  rintro ⟨quiet, asleep, nonempty⟩
  obtain ⟨task, running⟩ := watched.announced asleep nonempty
  exact running (quiet task)

/-- Storing the waker with a message queued, no enqueue running and no wake issued
strands that message. -/
theorem not_live_of_unguarded {queue after : MQueue M W} (unguarded : ¬ queue.Guarded .pollStep)
    (stepped : queue.pollStep = some after) : ¬ after.Live := by
  cases pc : queue.poller with
  | idle last => simp [Guarded, pc] at unguarded
  | take waker => simp [Guarded, pc] at unguarded
  | store waker =>
    simp only [Guarded, pc, not_or, not_not, Bool.not_eq_true] at unguarded
    obtain ⟨nonempty, quiet, notWoken⟩ := unguarded
    simp only [MQueue.pollStep, pc, Option.some.injEq] at stepped
    subst stepped
    exact fun live => live ⟨quiet, ⟨rfl, notWoken⟩, nonempty⟩

/-- Guarded steps keep every sleep watched, and any other step strands a message. -/
theorem exactGuard : (system M W).ExactGuard Guarded Watched Live where
  initial valid := by
    rw [valid]
    exact watched_new
  preserved {queue action after} watched guarded stepped := by
    cases action with
    | enqueue task val => exact watched.enqueue stepped
    | enqueueStep task => exact watched.enqueueStep stepped
    | poll waker => exact .poll stepped
    | pollStep => exact .pollStep guarded stepped
  sound watched := watched.live
  sharp {queue action after} watched unguarded stepped := by
    cases action with
    | pollStep => exact not_live_of_unguarded unguarded stepped
    | enqueue => exact absurd trivial unguarded
    | enqueueStep => exact absurd trivial unguarded
    | poll => exact absurd trivial unguarded

/-- In every interleaving of enqueuers and the polling task, no wake-up is lost in any
state reached, exactly when all steps meet the guard. -/
theorem wakeups_kept_iff {trail : List (MQueue M W × QueueAction M W)} {queue : MQueue M W}
    (run : (system M W).Run trail queue) :
    System.Run.AllStates Live trail queue ↔ System.Run.AllSteps Guarded trail :=
  exactGuard.safe_iff_guarded run

/-- A poll that finds the queue empty goes to sleep, and an enqueue wakes it. -/
theorem wakeups_kept_iff_woken :
    let actions : List (QueueAction Nat Unit) :=
      [.poll (), .pollStep, .pollStep, .enqueue 0 7, .enqueueStep 0, .enqueueStep 0, .enqueueStep 0]
    ∃ queue, (system Nat Unit).Run (System.trailOf step new actions) queue ∧
      queue.q = [7] ∧ queue.woken = true ∧
      System.Run.AllStates Live (System.trailOf step new actions) queue := by
  intro actions
  have ran : (System.execute step new actions).map (fun queue => (queue.q, queue.woken)) =
      some ([7], true) := rfl
  obtain ⟨queue, executed, facts⟩ := Option.map_eq_some_iff.mp ran
  simp only [Prod.mk.injEq] at facts
  have run := System.run_of_execute executed
  refine ⟨queue, run, facts.1, facts.2, (wakeups_kept_iff run).mpr ?_⟩
  have guards : (System.trailOf step new actions).map (fun entry => entry.1.Guarded entry.2) =
      [True, True, ([] : List Nat) = [] ∨ _, True, True, True, True] := rfl
  intro entry member
  have listed : entry.1.Guarded entry.2 ∈
      (System.trailOf step new actions).map fun entry => entry.1.Guarded entry.2 :=
    List.mem_map_of_mem member
  rw [guards] at listed
  simp only [true_or, List.mem_cons, List.not_mem_nil, or_false, eq_iff_iff, iff_true, or_self] at listed
  exact listed

/-- A message is appended between the poll's look at the queue and its store of the
waker. Its enqueue finds no waker to call, and the poll goes to sleep. -/
theorem wakeup_lost :
    ∃ queue, (system Nat Unit).Reachable queue ∧ queue.Quiet ∧ queue.Asleep ∧ queue.q = [7] ∧
      ¬ queue.Live := by
  have ran : (System.execute (step (W := Unit)) new
      [.poll (), .pollStep, .enqueue 0 7, .enqueueStep 0, .enqueueStep 0, .pollStep]).map
      (fun queue => (queue.q, queue.poller, queue.woken, queue.enqueuer)) =
        some ([7], .idle (some none), false, Function.update (Function.update (Function.update
          (fun _ => .idle) 0 (.append 7)) 0 .swap) 0 .idle) := rfl
  obtain ⟨queue, executed, facts⟩ := Option.map_eq_some_iff.mp ran
  simp only [Prod.mk.injEq] at facts
  obtain ⟨messages, last, notWoken, tasks⟩ := facts
  have quiet : queue.Quiet := by
    intro task
    rw [tasks]
    by_cases first : task = 0 <;> simp [first]
  have asleep : queue.Asleep := ⟨last, notWoken⟩
  exact ⟨queue, System.reachable_of_execute executed, quiet, asleep, messages,
    fun live => live ⟨quiet, asleep, by simp [messages]⟩⟩

end MQueue
end Sipusu.MessageBroker
