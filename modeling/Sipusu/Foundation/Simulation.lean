import Sipusu.Foundation.Runs

/-!
# Simulations between transition systems

Every guarded step of one system is a step of another system that it emits, or none at all.
Then a guarded run is a run of the other system along what was emitted. `fifo` is a queue
whose operations are single steps, for systems that are to behave like one.
-/

namespace Sipusu.Foundation

universe u v w x

namespace System

variable {State : Type u} {Label : Type v} {Abstract : Type w} {Event : Type x}

/-- What the steps of a trail emit, in their order. -/
def emitted (emit : State → Label → Option Event) (trail : List (State × Label)) : List Event :=
  trail.filterMap fun entry => emit entry.1 entry.2

theorem emitted_append (emit : State → Label → Option Event) (trail : List (State × Label))
    (state : State) (label : Label) :
    emitted emit (trail ++ [(state, label)]) = emitted emit trail ++ (emit state label).toList := by
  rw [emitted, List.filterMap_append]
  cases own : emit state label <;> simp [emitted, own]

/-- A step emits nothing and leaves the related state, or emits a step of it. -/
structure Simulation (concrete : System State Label) (abstract : System Abstract Event)
    (guard : State → Label → Prop) (emit : State → Label → Option Event)
    (related : State → Abstract → Prop) : Prop where
  initial : ∀ {state}, concrete.Initial state → ∃ shadow, abstract.Initial shadow ∧ related state shadow
  step : ∀ {state label next shadow}, related state shadow → guard state label →
    concrete.Step state label next →
    emit state label = none ∧ related next shadow ∨
      ∃ event onward, emit state label = some event ∧ abstract.Step shadow event onward ∧
        related next onward

/-- A guarded run is a run of the abstract system along what it emits. -/
theorem Simulation.of_run {concrete : System State Label} {abstract : System Abstract Event}
    {guard : State → Label → Prop} {emit : State → Label → Option Event}
    {related : State → Abstract → Prop}
    (simulation : Simulation concrete abstract guard emit related)
    {trail : List (State × Label)} {state : State} (run : concrete.Run trail state)
    (guarded : Run.AllSteps guard trail) :
    ∃ history shadow, abstract.Run history shadow ∧ history.map Prod.snd = emitted emit trail ∧
      related state shadow := by
  induction run with
  | initial valid =>
    obtain ⟨shadow, start, same⟩ := simulation.initial valid
    exact ⟨[], shadow, .initial start, rfl, same⟩
  | step prior transition inductionHypothesis =>
    obtain ⟨earlier, last⟩ := Run.allSteps_append.mp guarded
    obtain ⟨history, shadow, run, labels, same⟩ := inductionHypothesis earlier
    rw [emitted_append]
    rcases simulation.step same last transition with ⟨silent, still⟩ | ⟨event, onward, said, did, now⟩
    · exact ⟨history, shadow, run, by rw [labels, silent]; simp, still⟩
    · exact ⟨history ++ [(shadow, event)], onward, .step run did,
        by rw [List.map_append, labels, said]; rfl, now⟩

end System

/-- What happens at a queue. -/
inductive FifoEvent (T : Type u) where
  | appended (val : T)
  | took (val : T)
  | empty
deriving DecidableEq, Repr

namespace FifoEvent

variable {T : Type u}

/-- The value that is appended. -/
def appended? : FifoEvent T → Option T
  | .appended val => some val
  | _ => none

/-- The value that is taken. -/
def took? : FifoEvent T → Option T
  | .took val => some val
  | _ => none

end FifoEvent

/-- A queue whose operations are single steps. -/
def fifo (T : Type u) : System (List T) (FifoEvent T) where
  Initial queue := queue = []
  Step queue event next :=
    match event with
    | .appended val => next = queue ++ [val]
    | .took val => queue = val :: next
    | .empty => queue = [] ∧ next = []

/-- What was appended is what was taken and then what is still queued. -/
theorem fifo_law {T : Type u} {history : List (List T × FifoEvent T)} {queue : List T}
    (run : (fifo T).Run history queue) :
    (history.map Prod.snd).filterMap FifoEvent.appended? =
      (history.map Prod.snd).filterMap FifoEvent.took? ++ queue := by
  induction run with
  | initial valid =>
    rw [valid]
    rfl
  | @step history queue event next prior transition inductionHypothesis =>
    rw [List.map_append, List.filterMap_append, List.filterMap_append, inductionHypothesis]
    cases event with
    | appended val =>
      rw [show next = queue ++ [val] from transition]
      simp [FifoEvent.appended?, FifoEvent.took?]
    | took val =>
      rw [show queue = val :: next from transition]
      simp [FifoEvent.appended?, FifoEvent.took?]
    | empty =>
      obtain ⟨rfl, rfl⟩ : queue = [] ∧ next = [] := transition
      rfl

end Sipusu.Foundation
