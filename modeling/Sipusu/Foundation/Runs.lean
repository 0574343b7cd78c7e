import Mathlib

/-!
# Runs of a labelled transition system

A run records the source state and the label of every step it took, so a
property of steps can be asked of a run as well as a property of states.
`Invariant` packages the induction over runs. `ExactGuard` adds a condition on
steps which is exactly what keeps a system safe: guarded steps preserve the
invariant, and any other step leaves the safe states at once.
-/

namespace Sipusu.Foundation

universe u v

/-- A transition system whose steps carry labels. -/
structure System (State : Type u) (Label : Type v) where
  Initial : State → Prop
  Step : State → Label → State → Prop

namespace System

variable {State : Type u} {Label : Type v} {system : System State Label}

/-- The states left and the labels taken, oldest first, up to the current state. -/
inductive Run (system : System State Label) : List (State × Label) → State → Prop where
  | initial {state} (valid : system.Initial state) : Run system [] state
  | step {trail state label next} (prior : Run system trail state)
      (transition : system.Step state label next) :
      Run system (trail ++ [(state, label)]) next

/-- A state at the end of some run. -/
def Reachable (system : System State Label) (state : State) : Prop :=
  ∃ trail, system.Run trail state

/-- A property of every state a run visits, its last one included. -/
def Run.AllStates (property : State → Prop) (trail : List (State × Label)) (state : State) : Prop :=
  (∀ entry ∈ trail, property entry.1) ∧ property state

/-- A property of every step a run took, judged in the state before it. -/
def Run.AllSteps (property : State → Label → Prop) (trail : List (State × Label)) : Prop :=
  ∀ entry ∈ trail, property entry.1 entry.2

theorem Run.allSteps_append {property : State → Label → Prop} {trail : List (State × Label)}
    {state : State} {label : Label} :
    Run.AllSteps property (trail ++ [(state, label)]) ↔
      Run.AllSteps property trail ∧ property state label := by
  simp only [Run.AllSteps, List.forall_mem_append, List.forall_mem_singleton]

theorem Run.allStates_append {property : State → Prop} {trail : List (State × Label)}
    {state next : State} {label : Label} :
    Run.AllStates property (trail ++ [(state, label)]) next ↔
      Run.AllStates property trail state ∧ property next := by
  simp only [Run.AllStates, List.forall_mem_append, List.forall_mem_singleton]

/-- Every entry of a trail is a step that was taken. -/
theorem Run.stepped {trail : List (State × Label)} {state : State} (run : system.Run trail state)
    {entry : State × Label} (member : entry ∈ trail) : ∃ next, system.Step entry.1 entry.2 next := by
  induction run with
  | initial _ => cases member
  | step _ transition inductionHypothesis =>
    rcases List.mem_append.mp member with earlier | last
    · exact inductionHypothesis earlier
    · rw [List.mem_singleton.mp last]
      exact ⟨_, transition⟩

/-- A property that holds at the start and that every step preserves. -/
structure Invariant (system : System State Label) (property : State → Prop) : Prop where
  initial : ∀ {state}, system.Initial state → property state
  preserved : ∀ {state label next}, property state → system.Step state label next → property next

/-- An invariant holds at the end of every run. -/
theorem Invariant.of_run {property : State → Prop} (invariant : system.Invariant property)
    {trail : List (State × Label)} {state : State} (run : system.Run trail state) :
    property state := by
  induction run with
  | initial valid => exact invariant.initial valid
  | step _ transition inductionHypothesis =>
      exact invariant.preserved inductionHypothesis transition

/-- An invariant holds in every reachable state. -/
theorem Invariant.of_reachable {property : State → Prop} (invariant : system.Invariant property)
    {state : State} (reachable : system.Reachable state) : property state := by
  obtain ⟨trail, run⟩ := reachable
  exact invariant.of_run run

/-- A property that holds at the start and that the steps which meet a condition preserve. -/
structure GuardedInvariant (system : System State Label) (guard : State → Label → Prop)
    (property : State → Prop) : Prop where
  initial : ∀ {state}, system.Initial state → property state
  preserved : ∀ {state label next}, property state → guard state label →
    system.Step state label next → property next

/-- It holds in every state of a run whose steps all meet the condition. -/
theorem GuardedInvariant.allStates {guard : State → Label → Prop} {property : State → Prop}
    (invariant : system.GuardedInvariant guard property) {trail : List (State × Label)}
    {state : State} (run : system.Run trail state) (guarded : Run.AllSteps guard trail) :
    Run.AllStates property trail state := by
  induction run with
  | initial valid => exact ⟨nofun, invariant.initial valid⟩
  | step _ transition inductionHypothesis =>
      obtain ⟨earlier, last⟩ := Run.allSteps_append.mp guarded
      have before := inductionHypothesis earlier
      exact Run.allStates_append.mpr ⟨before, invariant.preserved before.2 last transition⟩

theorem Run.AllStates.mono {property weaker : State → Prop}
    {trail : List (State × Label)} {state : State} (all : Run.AllStates property trail state)
    (implies : ∀ {state}, property state → weaker state) : Run.AllStates weaker trail state :=
  ⟨fun entry member => implies (all.1 entry member), implies all.2⟩

/-- A condition on steps that separates the safe runs from the unsafe ones. -/
structure ExactGuard (system : System State Label) (guard : State → Label → Prop)
    (invariant safe : State → Prop) : Prop where
  initial : ∀ {state}, system.Initial state → invariant state
  preserved : ∀ {state label next}, invariant state → guard state label →
    system.Step state label next → invariant next
  sound : ∀ {state}, invariant state → safe state
  sharp : ∀ {state label next}, invariant state → ¬ guard state label →
    system.Step state label next → ¬ safe next

variable {guard : State → Label → Prop} {invariant safe : State → Prop}

/-- Guarded runs keep the invariant. -/
theorem ExactGuard.invariant_of_run (exactness : system.ExactGuard guard invariant safe)
    {trail : List (State × Label)} {state : State} (run : system.Run trail state)
    (guarded : Run.AllSteps guard trail) : invariant state := by
  induction run with
  | initial valid => exact exactness.initial valid
  | step _ transition inductionHypothesis =>
      obtain ⟨earlier, last⟩ := Run.allSteps_append.mp guarded
      exact exactness.preserved (inductionHypothesis earlier) last transition

/-- A run stays in the safe states exactly when all its steps are guarded. -/
theorem ExactGuard.safe_iff_guarded (exactness : system.ExactGuard guard invariant safe)
    {trail : List (State × Label)} {state : State} (run : system.Run trail state) :
    Run.AllStates safe trail state ↔ Run.AllSteps guard trail := by
  induction run with
  | @initial state valid =>
      constructor
      · intro _ entry member
        cases member
      · intro _
        refine ⟨fun entry member => ?_, exactness.sound (exactness.initial valid)⟩
        cases member
  | @step trail state label next prior transition inductionHypothesis =>
      rw [Run.allStates_append, Run.allSteps_append, inductionHypothesis]
      -- Up to the last step the run is guarded either way, so the invariant
      -- holds in the state that step leaves.
      constructor
      · rintro ⟨earlier, safeNext⟩
        refine ⟨earlier, ?_⟩
        by_contra unguarded
        exact exactness.sharp (exactness.invariant_of_run prior earlier) unguarded transition safeNext
      · rintro ⟨earlier, last⟩
        exact ⟨earlier, exactness.sound
          (exactness.preserved (exactness.invariant_of_run prior earlier) last transition)⟩

/-- The system of a step function. -/
def ofStep (start : State) (step : State → Label → Option State) : System State Label where
  Initial state := state = start
  Step state label next := step state label = some next

/-- Take the steps with the given labels, if each of them can be taken. -/
def execute (step : State → Label → Option State) (state : State) : List Label → Option State
  | [] => some state
  | label :: rest => (step state label).bind fun next => execute step next rest

theorem execute_append {step : State → Label → Option State} {state middle : State}
    {earlier : List Label} (executed : execute step state earlier = some middle)
    (later : List Label) : execute step state (earlier ++ later) = execute step middle later := by
  induction earlier generalizing state with
  | nil =>
    cases executed
    rfl
  | cons label rest inductionHypothesis =>
    obtain ⟨next, stepped, continued⟩ := Option.bind_eq_some_iff.mp executed
    rw [List.cons_append, execute, stepped, Option.bind_some]
    exact inductionHypothesis continued

/-- The states those steps leave, with their labels. -/
def trailOf (step : State → Label → Option State) (state : State) :
    List Label → List (State × Label)
  | [] => []
  | label :: rest => (state, label) ::
      match step state label with
      | some next => trailOf step next rest
      | none => []

/-- A run continues along every execution. -/
theorem Run.execute {start : State} {step : State → Label → Option State}
    {trail : List (State × Label)} {state final : State} {labels : List Label}
    (run : (ofStep start step).Run trail state)
    (executed : System.execute step state labels = some final) :
    (ofStep start step).Run (trail ++ trailOf step state labels) final := by
  induction labels generalizing trail state with
  | nil =>
    cases executed
    simpa [trailOf] using run
  | cons label rest inductionHypothesis =>
    obtain ⟨next, stepped, continued⟩ := Option.bind_eq_some_iff.mp executed
    have longer : (ofStep start step).Run (trail ++ [(state, label)]) next := .step run stepped
    simpa [trailOf, stepped] using inductionHypothesis longer continued

/-- The run along an execution from the start. -/
theorem run_of_execute {start final : State} {step : State → Label → Option State}
    {labels : List Label} (executed : System.execute step start labels = some final) :
    (ofStep start step).Run (trailOf step start labels) final := by
  simpa using Run.execute (.initial rfl) executed

theorem reachable_of_execute {start final : State} {step : State → Label → Option State}
    {labels : List Label} (executed : System.execute step start labels = some final) :
    (ofStep start step).Reachable final :=
  ⟨_, run_of_execute executed⟩

end System
end Sipusu.Foundation
