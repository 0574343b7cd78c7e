import Mathlib

/-!
# Hand-written equality

A type may define `==` and `!=` separately, and nothing forces the two to agree.
-/

namespace Sipusu.Foundation

universe u

/-- The two equality operators of a type. -/
class PartialEq (α : Type u) where
  eq : α → α → Bool
  ne : α → α → Bool

/-- `!=` is the negation of `==`. -/
class LawfulPartialEq (α : Type u) [PartialEq α] : Prop where
  ne_eq_not_eq : ∀ left right : α, PartialEq.ne left right = !PartialEq.eq left right

/-- The operators of `#[derive(PartialEq)]` and of the primitive types. -/
@[reducible] def PartialEq.derived (α : Type u) [DecidableEq α] : PartialEq α where
  eq left right := decide (left = right)
  ne left right := decide (left ≠ right)

instance : PartialEq Nat := .derived Nat

instance : LawfulPartialEq Nat where
  ne_eq_not_eq left right := by simp [PartialEq.ne, PartialEq.eq]

end Sipusu.Foundation
