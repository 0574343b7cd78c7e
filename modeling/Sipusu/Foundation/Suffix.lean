import Sipusu.Foundation.Layout

/-!
# Readers and what follows their octets

A stable reader returns the same value when more octets follow. It still may return only
because more octets follow: a field that its octets do not hold may end in them.
-/

namespace Sipusu.Foundation.Reader

variable {ε α β : Type}

/-- Two calls return the same value, or both fail, or both abort. -/
def SameResult : Outcome ε (α × Bytes) → Outcome ε (α × Bytes) → Prop
  | .ok first, .ok second => first.1 = second.1
  | .err _, .err _ => True
  | .panic, .panic => True
  | _, _ => False

theorem SameResult.refl (outcome : Outcome ε (α × Bytes)) : SameResult outcome outcome := by
  cases outcome <;> simp [SameResult]

/-- What does not return is told apart by whether it aborts. -/
theorem sameResult_iff_of_not_ok {first second : Outcome ε (α × Bytes)}
    (stops : ∀ result, first ≠ .ok result) :
    SameResult first second ↔
      (∀ result, second ≠ .ok result) ∧ (first = .panic ↔ second = .panic) := by
  cases first with
  | ok result => exact absurd rfl (stops result)
  | err error => cases second <;> simp [SameResult]
  | panic => cases second <;> simp [SameResult]

/-- Whenever the reader returns, it returns the same value on more octets, and leaves them. -/
def Stable (reader : Reader ε α) : Prop :=
  ∀ ⦃buffer value rest⦄, reader buffer = .ok (value, rest) →
    ∀ more, reader (buffer ++ more) = .ok (value, rest ++ more)

section Rules

variable {reader : Reader ε α}

/-- A reader whose field says what value it returns is stable. -/
theorem Yields.stable {holds : α → Bytes → Prop} {cut : Bytes → Prop}
    (yields : Yields reader holds cut) : Stable reader := by
  intro buffer value rest read more
  obtain ⟨used, rfl, whole⟩ := (yields.returns buffer value rest).mp read
  exact (yields.returns _ value _).mpr ⟨used, List.append_assoc used rest more, whole⟩

theorem Stable.bind (first : Stable reader) {next : α → Reader ε β}
    (second : ∀ value, Stable (next value)) : Stable (reader >>= next) := by
  intro buffer result rest read more
  obtain ⟨value, middle, started, continued⟩ := bind_eq_ok.mp read
  exact bind_eq_ok.mpr ⟨value, middle ++ more, first started more, second value continued more⟩

theorem Stable.pure (value : α) : Stable (Pure.pure value : Reader ε α) := by
  intro buffer result rest read more
  simp only [pure_apply, Outcome.ok.injEq, Prod.mk.injEq] at read
  rw [pure_apply, read.1, read.2]

theorem Stable.ensure (condition : Prop) [Decidable condition] (error : ε) :
    Stable (Reader.ensure condition error) := by
  intro buffer value rest read more
  obtain ⟨holds, rfl⟩ := ensure_eq_ok.mp read
  exact ensure_eq_ok.mpr ⟨holds, rfl⟩

theorem Stable.ite {condition : Prop} [Decidable condition] {other : Reader ε α}
    (stable : Stable reader) (otherStable : Stable other) :
    Stable (if condition then reader else other) := by
  by_cases holds : condition
  · rw [if_pos holds]
    exact stable
  · rw [if_neg holds]
    exact otherStable

/-- What is read on its own does not depend on what follows. -/
theorem Stable.within (own : Bytes) : Stable (Reader.within own reader) := by
  intro buffer value rest read more
  rw [within_apply, Outcome.bind_eq_ok] at read ⊢
  obtain ⟨result, ran, equal⟩ := read
  simp only [Outcome.ok.injEq, Prod.mk.injEq] at equal
  exact ⟨result, ran, by rw [equal.1, equal.2]⟩

end Rules

section Following

variable {reader : Reader ε α} {field : Field}

theorem Reads.not_ok (reads : Reads reader field) {buffer : Bytes}
    (nowhere : ∀ front rest, buffer = front ++ rest → ¬ field.whole front) :
    ∀ result, reader buffer ≠ .ok result := by
  rintro ⟨value, rest⟩ read
  obtain ⟨used, split, whole⟩ := (reads.returns buffer rest).mp ⟨value, read⟩
  exact nowhere used rest split whole

theorem Reads.nowhere (reads : Reads reader field) {buffer : Bytes}
    (stops : ∀ result, reader buffer ≠ .ok result) {front rest : Bytes}
    (split : buffer = front ++ rest) : ¬ field.whole front := by
  intro whole
  obtain ⟨value, read⟩ := (reads.returns buffer rest).mpr ⟨front, split, whole⟩
  exact stops (value, rest) read

/-- More octets do not change what a stable reader does exactly when its field does not end
in them, and does not break off because of them or for lack of them. -/
theorem sameResult_append_iff (reads : Reads reader field) (stable : Stable reader)
    (buffer more : Bytes) :
    SameResult (reader buffer) (reader (buffer ++ more)) ↔
      (∀ front rest, buffer ++ more = front ++ rest → field.whole front →
        front.length ≤ buffer.length) ∧ (field.cut buffer ↔ field.cut (buffer ++ more)) := by
  rw [← reads.aborts, ← reads.aborts]
  by_cases returned : ∃ result, reader buffer = .ok result
  · obtain ⟨⟨value, rest⟩, read⟩ := returned
    have longer := stable read more
    obtain ⟨used, split, _⟩ := (reads.returns buffer rest).mp ⟨value, read⟩
    rw [read, longer]
    refine iff_of_true rfl ⟨?_, by simp⟩
    intro front left other whole
    obtain ⟨again, readAgain⟩ := (reads.returns _ left).mpr ⟨front, other, whole⟩
    rw [longer] at readAgain
    simp only [Outcome.ok.injEq, Prod.mk.injEq] at readAgain
    have lengths := congrArg List.length other
    rw [← readAgain.2] at lengths
    simp only [List.length_append] at lengths
    omega
  · have stops : ∀ result, reader buffer ≠ .ok result := fun result read => returned ⟨result, read⟩
    rw [sameResult_iff_of_not_ok stops]
    refine and_congr ?_ Iff.rfl
    constructor
    · intro longerStops front rest split whole
      exact absurd whole (reads.nowhere longerStops split)
    · intro within
      apply reads.not_ok
      intro front rest split whole
      have starts : front <+: buffer ++ more := ⟨rest, split.symm⟩
      obtain ⟨back, own⟩ := List.prefix_of_prefix_length_le starts (List.prefix_append buffer more)
        (within front rest split whole)
      exact reads.nowhere stops own.symm whole

/-- A reader that returns what it leaves does the same on more octets exactly when there are
none, or when it does not return at all. -/
theorem sameResult_append_iff_of_rest (reads : Reads reader field) {left : α → Bytes}
    (leaves : ∀ {buffer value rest}, reader buffer = .ok (value, rest) → left value = rest)
    (buffer more : Bytes) :
    SameResult (reader buffer) (reader (buffer ++ more)) ↔
      more = [] ∨ (∀ front rest, buffer ++ more = front ++ rest → ¬ field.whole front) ∧
        (field.cut buffer ↔ field.cut (buffer ++ more)) := by
  by_cases none : more = []
  · rw [none, List.append_nil]
    exact iff_of_true (SameResult.refl _) (.inl rfl)
  rw [or_iff_right none, ← reads.aborts, ← reads.aborts]
  by_cases returned : ∃ result, reader buffer = .ok result
  · obtain ⟨⟨value, rest⟩, read⟩ := returned
    obtain ⟨used, split, whole⟩ := (reads.returns buffer rest).mp ⟨value, read⟩
    have longerSplit : buffer ++ more = used ++ (rest ++ more) := by
      rw [split, List.append_assoc]
    obtain ⟨other, longer⟩ := (reads.returns _ (rest ++ more)).mpr ⟨used, longerSplit, whole⟩
    refine iff_of_false ?_ fun nowhere => nowhere.1 used _ longerSplit whole
    rw [read, longer]
    -- The value tells what was left, which is more than before.
    intro same
    have leftovers := leaves read
    rw [show value = other from same, leaves longer] at leftovers
    exact none (List.append_right_eq_self.mp leftovers)
  · have stops : ∀ result, reader buffer ≠ .ok result := fun result read => returned ⟨result, read⟩
    rw [sameResult_iff_of_not_ok stops]
    refine and_congr ?_ Iff.rfl
    constructor
    · intro longerStops front rest split
      exact reads.nowhere longerStops split
    · intro nowhere
      exact reads.not_ok nowhere

end Following

end Sipusu.Foundation.Reader
