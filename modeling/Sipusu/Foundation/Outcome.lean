import Mathlib

/-!
# Outcomes of fallible code

A call ends in one of three ways: it returns a value, it returns an error to
its caller, or it aborts the task that made it. An abort is kept apart from an
error because no caller can handle it.
-/

namespace Sipusu.Foundation

universe u v

/-- The three ways a call can end. -/
inductive Outcome (ε : Type u) (α : Type v) where
  | ok (value : α)
  | err (error : ε)
  | panic
deriving DecidableEq, Repr

namespace Outcome

variable {ε : Type u} {α β : Type v}

/-- Continue with the value of a call that returned one. -/
def bind (outcome : Outcome ε α) (next : α → Outcome ε β) : Outcome ε β :=
  match outcome with
  | .ok value => next value
  | .err error => .err error
  | .panic => .panic

instance : Monad (Outcome ε) where
  pure := .ok
  bind := bind

@[simp] theorem pure_eq (value : α) : (pure value : Outcome ε α) = .ok value := rfl

@[simp] theorem ok_bind (value : α) (next : α → Outcome ε β) :
    (Outcome.ok value >>= next) = next value := rfl

@[simp] theorem err_bind (error : ε) (next : α → Outcome ε β) :
    (Outcome.err error >>= next) = .err error := rfl

@[simp] theorem panic_bind (next : α → Outcome ε β) :
    (Outcome.panic >>= next) = (.panic : Outcome ε β) := rfl

/-- A sequence returns exactly when both of its halves do. -/
theorem bind_eq_ok {outcome : Outcome ε α} {next : α → Outcome ε β} {result : β} :
    (outcome >>= next) = .ok result ↔
      ∃ value, outcome = .ok value ∧ next value = .ok result := by
  cases outcome <;> simp

theorem ok_ne_panic (value : α) : (ok value : Outcome ε α) ≠ panic := nofun

theorem err_ne_panic (error : ε) : (err error : Outcome ε α) ≠ panic := nofun

theorem ok_ne_err (value : α) (error : ε) : (ok value : Outcome ε α) ≠ err error := by
  intro same
  cases same

theorem panic_ne_err (error : ε) : (panic : Outcome ε α) ≠ err error := by
  intro same
  cases same

theorem panic_ne_ok (value : α) : (panic : Outcome ε α) ≠ ok value := nofun

theorem err_ne_ok (error : ε) (value : α) : (err error : Outcome ε α) ≠ ok value := nofun

/-- The value of a call that returned one, and nothing otherwise. -/
def toOption : Outcome ε α → Option α
  | .ok value => some value
  | _ => none

@[simp] theorem toOption_eq_some {outcome : Outcome ε α} {value : α} :
    outcome.toOption = some value ↔ outcome = .ok value := by
  cases outcome <;> simp [toOption]

/-- Rename the error of a call, as `map_err` does. -/
def mapErr {ε' : Type u} (rename : ε → ε') : Outcome ε α → Outcome ε' α
  | .ok value => .ok value
  | .err error => .err (rename error)
  | .panic => .panic

@[simp] theorem mapErr_eq_ok {ε' : Type u} {rename : ε → ε'} {outcome : Outcome ε α} {value : α} :
    outcome.mapErr rename = .ok value ↔ outcome = .ok value := by
  cases outcome <;> simp [mapErr]

@[simp] theorem mapErr_eq_panic {ε' : Type u} {rename : ε → ε'} {outcome : Outcome ε α} :
    outcome.mapErr rename = .panic ↔ outcome = .panic := by
  cases outcome <;> simp [mapErr]

/-- `Result::unwrap`: an error becomes an abort. -/
def unwrap {ε' : Type u} : Outcome ε α → Outcome ε' α
  | .ok value => .ok value
  | _ => .panic

@[simp] theorem unwrap_eq_ok {ε' : Type u} {outcome : Outcome ε α} {value : α} :
    (outcome.unwrap : Outcome ε' α) = .ok value ↔ outcome = .ok value := by
  cases outcome <;> simp [unwrap]

/-- `Option::unwrap`: a missing value becomes an abort. -/
def ofOption : Option α → Outcome ε α
  | some value => .ok value
  | none => .panic

@[simp] theorem ofOption_some (value : α) : (ofOption (some value) : Outcome ε α) = .ok value := rfl

@[simp] theorem ofOption_none : (ofOption none : Outcome ε α) = .panic := rfl

/-- A `Result` that no abort can stand in for. -/
def ofExcept : Except ε α → Outcome ε α
  | .ok value => .ok value
  | .error error => .err error

@[simp] theorem ofExcept_ok (value : α) : (ofExcept (.ok value) : Outcome ε α) = .ok value := rfl

@[simp] theorem ofExcept_error (error : ε) : (ofExcept (.error error) : Outcome ε α) = .err error :=
  rfl

end Outcome

/-- A call together with what it wrote before it ended, in order. -/
structure Traced (ω : Type u) (ε : Type u) (α : Type u) where
  written : List ω
  result : Outcome ε α

namespace Traced

variable {ω ε α β : Type u}

/-- Continue with the value of a call that returned one, as `?` does. -/
def bind (call : Traced ω ε α) (next : α → Traced ω ε β) : Traced ω ε β :=
  match call.result with
  | .ok value => ⟨call.written ++ (next value).written, (next value).result⟩
  | .err error => ⟨call.written, .err error⟩
  | .panic => ⟨call.written, .panic⟩

instance : Monad (Traced ω ε) where
  pure value := ⟨[], .ok value⟩
  bind := bind

/-- A call that writes nothing. -/
def ofOutcome (outcome : Outcome ε α) : Traced ω ε α := ⟨[], outcome⟩

/-- Drop the result of a call, but not its abort. -/
def discard (call : Traced ω ε α) : Traced ω ε PUnit :=
  match call.result with
  | .panic => ⟨call.written, .panic⟩
  | _ => ⟨call.written, .ok ⟨⟩⟩

@[simp] theorem written_discard (call : Traced ω ε α) : call.discard.written = call.written := by
  unfold discard
  split <;> rfl

@[simp] theorem ofOutcome_ok_bind (value : α) (next : α → Traced ω ε β) :
    (ofOutcome (.ok value) >>= next) = next value := rfl

/-- After a success both halves have written. -/
theorem written_bind_of_ok {call : Traced ω ε α} {value : α} (success : call.result = .ok value)
    (next : α → Traced ω ε β) : (call >>= next).written = call.written ++ (next value).written := by
  show (bind call next).written = _
  rw [bind, success]

/-- After a failure only the first half has written. -/
theorem written_bind_of_err {call : Traced ω ε α} {error : ε} (failure : call.result = .err error)
    (next : α → Traced ω ε β) : (call >>= next).written = call.written := by
  show (bind call next).written = _
  rw [bind, failure]

end Traced

/-- The kinds of `io::Error` the program tells apart. -/
inductive ErrorKind where
  | notFound
  | addrInUse
  | timedOut
  | invalidData
  | other
deriving DecidableEq, Repr

/-- `io::Error`. -/
structure IoError where
  kind : ErrorKind
  text : String
deriving DecidableEq, Repr

end Sipusu.Foundation
