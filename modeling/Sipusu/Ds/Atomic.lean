import Sipusu.Ds.LinkedList
import Sipusu.Foundation.Simulation

/-!
# The message list as an atomic queue

As long as the steps of the list meet its guard, and no pointer is followed that is null or
leads to a freed node, its calls behave like the steps of a queue: `append` and `take_first`
take effect in the step in which they return.
-/

namespace Sipusu.Ds.LinkedList

open Sipusu.Foundation

variable {T : Type}

namespace Machine

/-- The operation whose call returns in a step. -/
def operation (s : Machine T) (action : Action T) : Option (FifoEvent T) :=
  match s.step action with
  | none => none
  | some next =>
      match next.returned.drop s.returned.length, next.taken.drop s.taken.length,
        next.nones.drop s.nones.length with
      | call :: _, _, _ => some (.appended call.2)
      | [], call :: _, _ => some (.took call.2)
      | [], [], _ :: _ => some .empty
      | [], [], [] => none

/-- The queue holds the values of the list. -/
structure Holds (s : Machine T) (queue : List T) : Prop where
  intact : s.Intact
  values : s.returned.map Prod.snd = s.taken.map Prod.snd ++ queue

section Steps

variable {s after : Machine T} {action : Action T} {queue : List T}

/-- A step that completes no call. -/
theorem operation_eq_none (stepped : s.step action = some after)
    (returned : after.returned = s.returned) (taken : after.taken = s.taken)
    (nones : after.nones = s.nones) : s.operation action = none := by
  simp [operation, stepped, returned, taken, nones]

theorem Holds.listed (holds : s.Holds queue) :
    ∃ path, Chain s.cell s.head path ∧ s.returned = s.taken ++ path ∧ queue = path.map Prod.snd := by
  obtain ⟨path, chain, split⟩ := holds.intact.listed
  have values := holds.values
  rw [split, List.map_append] at values
  exact ⟨path, chain, split, (List.append_cancel_left values).symm⟩

/-- A guarded step is a step of the queue, or none. -/
theorem Holds.step (holds : s.Holds queue) (guarded : s.Guarded action)
    (stepped : s.step action = some after) :
    s.operation action = none ∧ after.Holds queue ∨
      ∃ event onward, s.operation action = some event ∧ (fifo T).Step queue event onward ∧
        after.Holds onward := by
  have intact : after.Intact := exactGuard.preserved holds.intact guarded stepped
  have values := holds.values
  obtain ⟨acted, did, rfl⟩ := Option.map_eq_some_iff.mp stepped
  have effect := act_effect did
  cases effect with
  | allocates | moves | begins | readsHead | readsNext =>
    exact .inl ⟨operation_eq_none stepped rfl rfl rfl, intact, values⟩
  | @starts task call here empty =>
    refine .inr ⟨.appended call.2, queue ++ [call.2], ?_, rfl, intact, ?_⟩
    · simp [operation, stepped, Machine.observe, Machine.returns, goto]
    · change (s.returned ++ [call]).map Prod.snd = s.taken.map Prod.snd ++ (queue ++ [call.2])
      rw [List.map_append, values, List.append_assoc]
      rfl
  | @«extends» task curr call node here found last =>
    refine .inr ⟨.appended call.2, queue ++ [call.2], ?_, rfl, intact, ?_⟩
    · simp [operation, stepped, Machine.observe, fill, Machine.returns, goto]
    · change (s.returned ++ [call]).map Prod.snd = s.taken.map Prod.snd ++ (queue ++ [call.2])
      rw [List.map_append, values, List.append_assoc]
      rfl
  | @takes head next node here first found =>
    obtain ⟨path, chain, split, rfl⟩ := holds.listed
    rw [first] at chain
    obtain ⟨value, _, rest, rfl, headCell, _⟩ := chain.eq_cons
    have same : value = node.val := by
      simp only [cell, found, Option.map_some, Option.some.injEq, Prod.mk.injEq] at headCell
      exact headCell.1.symm
    subst same
    refine .inr ⟨.took node.val, rest.map Prod.snd, ?_, rfl, intact, ?_⟩
    · simp [operation, stepped, Machine.observe, Machine.takes]
    · change s.returned.map Prod.snd =
        (s.taken ++ [(head, node.val)]).map Prod.snd ++ rest.map Prod.snd
      rw [split]
      simp
  | findsEmpty here empty =>
    obtain ⟨path, chain, split, rfl⟩ := holds.listed
    rw [empty] at chain
    cases chain.eq_nil
    refine .inr ⟨.empty, [], ?_, ⟨rfl, rfl⟩, intact, values⟩
    simp [operation, stepped, Machine.observe, takesNone]
  | overtaken here moved =>
    have reading := holds.intact.reading
    rw [here] at reading
    exact absurd reading.1 moved

/-- What a step adds to the values returned and to those taken is in the operation. -/
theorem operation_spec (stepped : s.step action = some after) :
    after.returned.map Prod.snd =
        s.returned.map Prod.snd ++ ((s.operation action).bind FifoEvent.appended?).toList ∧
      after.taken.map Prod.snd =
        s.taken.map Prod.snd ++ ((s.operation action).bind FifoEvent.took?).toList := by
  have silent (returned : after.returned = s.returned) (taken : after.taken = s.taken)
      (said : s.operation action = none ∨ s.operation action = some .empty) :
      after.returned.map Prod.snd =
          s.returned.map Prod.snd ++ ((s.operation action).bind FifoEvent.appended?).toList ∧
        after.taken.map Prod.snd =
          s.taken.map Prod.snd ++ ((s.operation action).bind FifoEvent.took?).toList := by
    rcases said with none | empty
    · simp [none, returned, taken]
    · simp [empty, returned, taken, FifoEvent.appended?, FifoEvent.took?]
  obtain ⟨acted, did, rfl⟩ := Option.map_eq_some_iff.mp stepped
  have effect := act_effect did
  cases effect with
  | allocates | moves | begins | readsHead | readsNext =>
    exact silent rfl rfl (.inl (operation_eq_none stepped rfl rfl rfl))
  | @starts task call here empty =>
    have said : s.operation (.appendStep task) = some (.appended call.2) := by
      simp [operation, stepped, Machine.observe, Machine.returns, goto]
    rw [said]
    simp [Machine.observe, Machine.returns, goto, FifoEvent.appended?, FifoEvent.took?]
  | @«extends» task curr call node here found last =>
    have said : s.operation (.appendStep task) = some (.appended call.2) := by
      simp [operation, stepped, Machine.observe, fill, Machine.returns, goto]
    rw [said]
    simp [Machine.observe, fill, Machine.returns, goto, FifoEvent.appended?, FifoEvent.took?]
  | @takes head next node here first found =>
    have said : s.operation .takeStep = some (.took node.val) := by
      simp [operation, stepped, Machine.observe, Machine.takes]
    rw [said]
    simp [Machine.observe, Machine.takes, FifoEvent.appended?, FifoEvent.took?]
  | findsEmpty | overtaken =>
    refine silent rfl rfl (.inr ?_)
    simp [operation, stepped, Machine.observe, takesNone]

end Steps

/-- The values that were returned and taken are those of the operations. -/
theorem operations_of_run {trail : List (Machine T × Action T)} {s : Machine T}
    (run : (machine T).Run trail s) :
    (System.emitted operation trail).filterMap FifoEvent.appended? = s.returned.map Prod.snd ∧
      (System.emitted operation trail).filterMap FifoEvent.took? = s.taken.map Prod.snd := by
  induction run with
  | initial valid =>
    rw [valid]
    exact ⟨rfl, rfl⟩
  | @step trail state action next prior transition inductionHypothesis =>
    obtain ⟨returned, taken⟩ := operation_spec transition
    rw [System.emitted_append, List.filterMap_append, List.filterMap_append, inductionHypothesis.1,
      inductionHypothesis.2, returned, taken]
    cases state.operation action with
    | none => exact ⟨rfl, rfl⟩
    | some event => cases event <;> exact ⟨rfl, rfl⟩

/-- The list simulates a queue. -/
theorem simulation :
    System.Simulation (machine T) (fifo T) Guarded operation Holds where
  initial valid := by
    rw [valid]
    exact ⟨[], rfl, intact_new, rfl⟩
  step holds guarded stepped := holds.step guarded stepped

/-- In every interleaving of guarded steps in which no pointer is followed that is null or leads
to a freed node, the calls take effect one after another, each in the step in which it returns,
as the operations of a queue: what is on the list is what was appended and not yet taken, and
`None` is returned when the queue is empty. -/
theorem linearizable {trail : List (Machine T × Action T)} {s : Machine T}
    (defined : (definedMachine T).Run trail s) (guarded : System.Run.AllSteps Guarded trail) :
    ∃ history queue, (fifo T).Run history queue ∧
      history.map Prod.snd = System.emitted operation trail ∧
      (System.emitted operation trail).filterMap FifoEvent.appended? = s.returned.map Prod.snd ∧
      (System.emitted operation trail).filterMap FifoEvent.took? = s.taken.map Prod.snd ∧
      s.returned.map Prod.snd = s.taken.map Prod.snd ++ queue ∧
      ∃ path, Chain s.cell s.head path ∧ path.map Prod.snd = queue := by
  have run := run_of_defined defined
  obtain ⟨history, queue, abstract, labels, holds⟩ := simulation.of_run run guarded
  obtain ⟨returned, taken⟩ := operations_of_run run
  obtain ⟨path, chain, _, same⟩ := holds.listed
  have law := fifo_law abstract
  rw [labels, returned, taken] at law
  exact ⟨history, queue, abstract, labels, returned, taken, law, path, chain, same.symm⟩

/-- Two tasks append, and one message is taken in between. -/
theorem linearizable_interleaved :
    let actions : List (Action Nat) := [.append 0 5, .append 1 6, .appendStep 0, .appendStep 1,
      .appendStep 1, .appendStep 0, .take, .takeStep, .appendStep 0, .appendStep 0, .appendStep 0,
      .appendStep 0, .takeStep, .takeStep]
    let trail := System.trailOf definedStep new actions
    System.emitted operation trail = [.appended 6, .appended 5, .took 6] ∧
      ∃ history queue, (fifo Nat).Run history queue ∧
        history.map Prod.snd = System.emitted operation trail ∧ queue = [5] := by
  intro actions trail
  have ran : (System.execute definedStep new actions).map (fun s => (s.returned, s.taken)) =
      some ([(1, 6), (0, 5)], [(1, 6)]) := rfl
  obtain ⟨s, executed, facts⟩ := Option.map_eq_some_iff.mp ran
  rw [Prod.mk.injEq] at facts
  have guarded : System.Run.AllSteps Guarded (System.trailOf definedStep new actions) := by
    rintro entry (_ | ⟨_, _ | ⟨_, _ | ⟨_, _ | ⟨_, _ | ⟨_, _ | ⟨_, _ | ⟨_, _ | ⟨_, _ | ⟨_, _ | ⟨_,
      _ | ⟨_, _ | ⟨_, _ | ⟨_, _ | ⟨_, impossible⟩⟩⟩⟩⟩⟩⟩⟩⟩⟩⟩⟩⟩⟩)
    -- The two steps that the guard speaks of: a link is filled, and the head is swung.
    rotate_left 11
    · exact fun _ => .here
    · trivial
    · intro node stored
      cases stored
      rfl
    · cases impossible
    all_goals trivial
  obtain ⟨history, queue, run, labels, _, _, values, _⟩ :=
    linearizable (System.run_of_execute executed) guarded
  refine ⟨rfl, history, queue, run, labels, ?_⟩
  rw [facts.1, facts.2] at values
  simpa using values.symm

end Machine
end Sipusu.Ds.LinkedList
