import Sipusu.Foundation.Outcome

/-!
# Calls that change a state

An action keeps what it has changed whatever way it ends. `Returns` says exactly when a
call returns and what holds then, and `Ends` what holds whatever way it ends; their rules
follow the way actions are composed.
-/

namespace Sipusu.Foundation

/-- A call that may change a state before it ends. -/
def Action (σ ε α : Type) := σ → Outcome ε α × σ

namespace Action

variable {σ ε ε' α β : Type}

/-- Continue with the value of a call that returned one, as `?` does. -/
def bind (call : Action σ ε α) (next : α → Action σ ε β) : Action σ ε β := fun s =>
  match call s with
  | (.ok value, s) => next value s
  | (.err error, s) => (.err error, s)
  | (.panic, s) => (.panic, s)

instance : Monad (Action σ ε) where
  pure value := fun s => (.ok value, s)
  bind := bind

/-- A call that changes nothing. -/
def ofOutcome (outcome : Outcome ε α) : Action σ ε α := fun s => (outcome, s)

/-- A call that only looks at the state. -/
def ask (question : σ → Outcome ε α) : Action σ ε α := fun s => (question s, s)

/-- A call that only changes the state. -/
def modify (change : σ → σ) : Action σ ε Unit := fun s => (.ok (), change s)

/-- `Result::unwrap`: an error becomes an abort. -/
def unwrap (call : Action σ ε α) : Action σ ε' α := fun s => ((call s).1.unwrap, (call s).2)

/-- Rename the error of a call, as `map_err` does. -/
def mapErr (rename : ε → ε') (call : Action σ ε α) : Action σ ε' α := fun s =>
  ((call s).1.mapErr rename, (call s).2)

/-- Look at the `Result` of a call. Its abort goes through. -/
def attempt (call : Action σ ε α) : Action σ ε' (Except ε α) := fun s =>
  match call s with
  | (.ok value, s) => (.ok (.ok value), s)
  | (.err error, s) => (.ok (.error error), s)
  | (.panic, s) => (.panic, s)

section Evaluation

variable {call : Action σ ε α} {next : α → Action σ ε β} {s after : σ}

@[simp] theorem pure_apply (value : α) (s : σ) :
    (pure value : Action σ ε α) s = (.ok value, s) := rfl

@[simp] theorem ofOutcome_apply (outcome : Outcome ε α) (s : σ) :
    (ofOutcome outcome : Action σ ε α) s = (outcome, s) := rfl

@[simp] theorem ask_apply (question : σ → Outcome ε α) (s : σ) :
    ask question s = (question s, s) := rfl

theorem bind_of_ok {value : α} (went : call s = (.ok value, after)) :
    (call >>= next) s = next value after := by
  show bind call next s = _
  rw [bind, went]

theorem bind_of_err {error : ε} (went : call s = (.err error, after)) :
    (call >>= next) s = (.err error, after) := by
  show bind call next s = _
  rw [bind, went]

theorem bind_of_abort (went : call s = (.panic, after)) :
    (call >>= next) s = (.panic, after) := by
  show bind call next s = _
  rw [bind, went]

theorem bind_of_panic (abort : (call s).1 = .panic) : ((call >>= next) s).1 = .panic := by
  show (bind call next s).1 = _
  rw [bind]
  rcases went : call s with ⟨outcome, after⟩
  rw [went] at abort
  obtain rfl : outcome = .panic := abort
  rfl

@[simp] theorem ofOutcome_ok_bind (value : α) (next : α → Action σ ε β) (s : σ) :
    (ofOutcome (.ok value) >>= next) s = next value s := rfl

@[simp] theorem ask_bind (question : σ → α) (next : α → Action σ ε β) (s : σ) :
    (ask (fun s => .ok (question s)) >>= next) s = next (question s) s := rfl

@[simp] theorem modify_bind (change : σ → σ) (next : Unit → Action σ ε β) (s : σ) :
    (modify change >>= next) s = next () (change s) := rfl

theorem ofOutcome_bind_pure (outcome : Outcome ε α) (f : α → β) (s : σ) :
    (ofOutcome outcome >>= fun value => (pure (f value) : Action σ ε β)) s =
      (outcome >>= fun value => pure (f value), s) := by
  cases outcome <;> rfl

theorem unwrap_of_ok {value : α} (went : call s = (.ok value, after)) :
    (call.unwrap : Action σ ε' α) s = (.ok value, after) := by
  rw [unwrap, went]
  rfl

theorem mapErr_of_ok {value : α} (went : call s = (.ok value, after)) (rename : ε → ε') :
    call.mapErr rename s = (.ok value, after) := by
  rw [mapErr, went]
  rfl

theorem mapErr_of_err {error : ε} (went : call s = (.err error, after)) (rename : ε → ε') :
    call.mapErr rename s = (.err (rename error), after) := by
  rw [mapErr, went]
  rfl

theorem mapErr_of_panic (went : call s = (.panic, after)) (rename : ε → ε') :
    call.mapErr rename s = (.panic, after) := by
  rw [mapErr, went]
  rfl

theorem attempt_of_panic (went : call s = (.panic, after)) :
    (call.attempt s : Outcome ε' (Except ε α) × σ) = (.panic, after) := by
  rw [attempt, went]

end Evaluation

/-- The call returns, and the postcondition holds, when the condition does; otherwise it
aborts. -/
structure Returns (condition : Prop) (post : α → σ → Prop) (call : Action σ ε α) (s : σ) :
    Prop where
  returns : condition → ∃ value after, call s = (.ok value, after) ∧ post value after
  aborts : ¬ condition → (call s).1 = .panic

section Returning

variable {condition other : Prop} {post : α → σ → Prop} {call : Action σ ε α} {s : σ}

theorem Returns.pure {value : α} (holds : post value s) :
    Returns True post (Pure.pure value : Action σ ε α) s :=
  ⟨fun _ => ⟨value, s, rfl, holds⟩, fun never => absurd trivial never⟩

/-- A call that returns whatever the condition is. -/
theorem Returns.of_ok {value : α} {after : σ} (went : call s = (.ok value, after))
    (holds : post value after) : Returns True post call s :=
  ⟨fun _ => ⟨value, after, went, holds⟩, fun never => absurd trivial never⟩

theorem Returns.of_panic (abort : (call s).1 = .panic) : Returns False post call s :=
  ⟨False.elim, fun _ => abort⟩

/-- A call that goes on as another one. -/
theorem Returns.of_eq {later : Action σ ε α} {between : σ}
    (returns : Returns condition post later between) (same : call s = later between) :
    Returns condition post call s :=
  ⟨fun holds => same ▸ returns.returns holds, fun fails => same ▸ returns.aborts fails⟩

theorem Returns.congr (returns : Returns condition post call s) (same : condition ↔ other) :
    Returns other post call s :=
  ⟨fun holds => returns.returns (same.mpr holds), fun fails => returns.aborts (mt same.mp fails)⟩

/-- A sequence returns when both its parts do. -/
theorem Returns.bind {next : α → Action σ ε β} {final : β → σ → Prop}
    (first : Returns condition post call s)
    (second : ∀ value after, post value after → Returns other final (next value) after) :
    Returns (condition ∧ other) final (call >>= next) s := by
  constructor
  · rintro ⟨holds, further⟩
    obtain ⟨value, after, went, ends⟩ := first.returns holds
    rw [bind_of_ok went]
    exact (second value after ends).returns further
  · intro fails
    by_cases holds : condition
    · obtain ⟨value, after, went, ends⟩ := first.returns holds
      rw [bind_of_ok went]
      exact (second value after ends).aborts fun further => fails ⟨holds, further⟩
    · exact bind_of_panic (first.aborts holds)

/-- A call that changes nothing. -/
theorem Returns.ofOutcome {outcome : Outcome ε α}
    (returns : condition → ∃ value, outcome = .ok value ∧ post value s)
    (aborts : ¬ condition → outcome = .panic) :
    Returns condition post (Action.ofOutcome outcome : Action σ ε α) s := by
  refine ⟨fun holds => ?_, aborts⟩
  obtain ⟨value, went, ends⟩ := returns holds
  exact ⟨value, s, by rw [ofOutcome_apply, went], ends⟩

/-- A call that is unwrapped and may return an error. -/
theorem Returns.of_unwrap
    (returns : condition → ∃ value after, call s = (.ok value, after) ∧ post value after)
    (fails : ¬ condition → ∀ value, (call s).1 ≠ .ok value) :
    Returns condition post (call.unwrap : Action σ ε' α) s := by
  constructor
  · intro holds
    obtain ⟨value, after, went, ends⟩ := returns holds
    exact ⟨value, after, unwrap_of_ok went, ends⟩
  · intro fails'
    have never := fails fails'
    rw [Action.unwrap]
    cases outcome : (call s).1 with
    | ok value => exact absurd outcome (never value)
    | err error => rfl
    | panic => rfl

/-- Unwrapping adds nothing to a call that returns no errors. -/
theorem Returns.unwrap (returns : Returns condition post call s) :
    Returns condition post (call.unwrap : Action σ ε' α) s := by
  constructor
  · intro holds
    obtain ⟨value, after, went, ends⟩ := returns.returns holds
    exact ⟨value, after, unwrap_of_ok went, ends⟩
  · intro fails
    rw [Action.unwrap, returns.aborts fails]
    rfl

end Returning

/-- The postcondition holds of the outcome and the state, whatever way the call ends. -/
def Ends (post : Outcome ε α → σ → Prop) (call : Action σ ε α) (s : σ) : Prop :=
  post (call s).1 (call s).2

section Ending

variable {middle : Outcome ε α → σ → Prop} {final : Outcome ε β → σ → Prop}
  {call : Action σ ε α} {s : σ}

theorem Ends.mono {post : Outcome ε α → σ → Prop} (ends : Ends middle call s)
    (implies : ∀ {outcome after}, middle outcome after → post outcome after) : Ends post call s :=
  implies ends

/-- A call that goes on as another one. -/
theorem Ends.of_eq {post : Outcome ε α → σ → Prop} {later : Action σ ε α} {between : σ}
    (ends : Ends post later between) (same : call s = later between) : Ends post call s := by
  rw [Ends, same]
  exact ends

/-- A sequence ends as its second part does, or as the first part where that does not return. -/
theorem Ends.bind {next : α → Action σ ε β} (ends : Ends middle call s)
    (returned : ∀ value after, middle (.ok value) after → Ends final (next value) after)
    (failed : ∀ error after, middle (.err error) after → final (.err error) after)
    (aborted : ∀ after, middle .panic after → final .panic after) :
    Ends final (call >>= next) s := by
  rw [Ends] at ends
  show final (Action.bind call next s).1 (Action.bind call next s).2
  rw [Action.bind]
  rcases went : call s with ⟨outcome, after⟩
  rw [went] at ends
  cases outcome with
  | ok value => exact returned value after ends
  | err error => exact failed error after ends
  | panic => exact aborted after ends

theorem Ends.unwrap {post : Outcome ε' α → σ → Prop} (ends : Ends middle call s)
    (returned : ∀ value after, middle (.ok value) after → post (.ok value) after)
    (failed : ∀ error after, middle (.err error) after → post .panic after)
    (aborted : ∀ after, middle .panic after → post .panic after) :
    Ends post (call.unwrap : Action σ ε' α) s := by
  rw [Ends] at ends
  show post (call s).1.unwrap (call s).2
  rcases went : call s with ⟨outcome, after⟩
  rw [went] at ends
  cases outcome with
  | ok value => exact returned value after ends
  | err error => exact failed error after ends
  | panic => exact aborted after ends

theorem Ends.mapErr {post : Outcome ε' α → σ → Prop} {rename : ε → ε'} (ends : Ends middle call s)
    (returned : ∀ value after, middle (.ok value) after → post (.ok value) after)
    (failed : ∀ error after, middle (.err error) after → post (.err (rename error)) after)
    (aborted : ∀ after, middle .panic after → post .panic after) :
    Ends post (call.mapErr rename) s := by
  rw [Ends] at ends
  show post ((call s).1.mapErr rename) (call s).2
  rcases went : call s with ⟨outcome, after⟩
  rw [went] at ends
  cases outcome with
  | ok value => exact returned value after ends
  | err error => exact failed error after ends
  | panic => exact aborted after ends

/-- Going on with the `Result` of a call. -/
theorem Ends.attempt_bind {final : Outcome ε' β → σ → Prop} {next : Except ε α → Action σ ε' β}
    (ends : Ends middle call s)
    (returned : ∀ value after, middle (.ok value) after → Ends final (next (.ok value)) after)
    (failed : ∀ error after, middle (.err error) after → Ends final (next (.error error)) after)
    (aborted : ∀ after, middle .panic after → final .panic after) :
    Ends final (call.attempt >>= next) s := by
  rw [Ends] at ends
  show final (Action.bind call.attempt next s).1 (Action.bind call.attempt next s).2
  rw [Action.bind, Action.attempt]
  rcases went : call s with ⟨outcome, after⟩
  rw [went] at ends
  cases outcome with
  | ok value => exact returned value after ends
  | err error => exact failed error after ends
  | panic => exact aborted after ends

end Ending

section Atomicity

variable {call : Action σ ε α} {s : σ}

/-- The call leaves the state as it was whenever it returns an error. -/
def Atomic (call : Action σ ε α) (s : σ) : Prop :=
  ∀ error after, call s = (.err error, after) → after = s

/-- The call never changes the state. -/
def Keeps (call : Action σ ε α) : Prop := ∀ s, (call s).2 = s

theorem Keeps.pure (value : α) : Keeps (Pure.pure value : Action σ ε α) := fun _ => rfl

theorem Keeps.ofOutcome (outcome : Outcome ε α) :
    Keeps (Action.ofOutcome outcome : Action σ ε α) := fun _ => rfl

theorem Keeps.ask (question : σ → Outcome ε α) : Keeps (Action.ask question) := fun _ => rfl

theorem Keeps.bind {next : α → Action σ ε β} (first : Keeps call)
    (second : ∀ value, Keeps (next value)) : Keeps (call >>= next) := by
  intro s
  show (Action.bind call next s).2 = s
  have kept := first s
  rw [Action.bind]
  rcases went : call s with ⟨outcome, after⟩
  rw [went] at kept
  obtain rfl : after = s := kept
  cases outcome with
  | ok value => exact second value after
  | err error => rfl
  | panic => rfl

/-- A first part that changes nothing leaves it to the second part. -/
theorem atomic_bind_iff {next : α → Action σ ε β} (keeps : Keeps call) :
    Atomic (call >>= next) s ↔ ∀ value, (call s).1 = .ok value → Atomic (next value) s := by
  have kept := keeps s
  rcases went : call s with ⟨outcome, after⟩
  rw [went] at kept
  obtain rfl : after = s := kept
  cases outcome with
  | ok value =>
    rw [Atomic, bind_of_ok went]
    constructor
    · intro atomic other same
      rw [← Outcome.ok.inj same]
      exact atomic
    · intro atomic
      exact atomic value rfl
  | err error =>
    rw [Atomic, bind_of_err went]
    refine iff_of_true ?_ nofun
    intro _ after same
    exact (Prod.mk.inj same).2.symm
  | panic =>
    refine iff_of_true ?_ nofun
    intro error after same
    have abort : ((call >>= next) _).1 = .panic := bind_of_panic (congrArg Prod.fst went)
    rw [same] at abort
    cases abort

/-- Behind a change no error may be returned any more. -/
theorem atomic_modify_bind_iff {change : σ → σ} {next : Unit → Action σ ε α}
    (changes : change s ≠ s) (keeps : Keeps (next ())) :
    Atomic (modify change >>= next) s ↔ ∀ error, (next () (change s)).1 ≠ .err error := by
  have kept := keeps (change s)
  rw [Atomic, modify_bind]
  constructor
  · intro atomic error failed
    have same := atomic error (change s) (Prod.ext failed kept)
    exact changes same
  · intro never error after same
    exact absurd (congrArg Prod.fst same) (never error)

end Atomicity

end Action
end Sipusu.Foundation
