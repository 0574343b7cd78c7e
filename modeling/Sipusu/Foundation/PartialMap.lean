import Sipusu.Foundation.Comparison

/-!
# Partial maps

A store seen from outside: which keys are bound, and to what. The two updates
never touch a key other than their own.
-/

namespace Sipusu.Foundation

universe u v

/-- A partial map from keys to values. -/
abbrev PartialMap (κ : Type u) (ν : Type v) := κ → Option ν

namespace PartialMap

variable {κ : Type u} {ν : Type v} [DecidableEq κ]

/-- The map with nothing bound. -/
def empty : PartialMap κ ν := fun _ => none

/-- Bind a key only if it is unbound, and say whether that was so. -/
def insertNew (key : κ) (value : ν) (map : PartialMap κ ν) : Bool × PartialMap κ ν :=
  match map key with
  | none => (true, Function.update map key (some value))
  | some _ => (false, map)

/-- Unbind a key only if its value equals the given one, and say whether that was so. -/
def removeEqual [PartialEq ν] (key : κ) (value : ν) (map : PartialMap κ ν) :
    Bool × PartialMap κ ν :=
  match map key with
  | none => (false, map)
  | some current =>
      if PartialEq.eq current value then (true, Function.update map key none) else (false, map)

/-- `insertNew` answers `true` exactly on an unbound key. -/
theorem insertNew_fst {key : κ} {value : ν} {map : PartialMap κ ν} :
    (map.insertNew key value).1 = true ↔ map key = none := by
  unfold insertNew
  cases map key <;> simp

/-- What `insertNew` leaves at every key. -/
theorem insertNew_snd (key other : κ) (value : ν) (map : PartialMap κ ν) :
    (map.insertNew key value).2 other =
      if other = key ∧ map key = none then some value else map other := by
  unfold insertNew
  cases bound : map key with
  | none =>
    by_cases same : other = key
    · simp [same]
    · simp [same]
  | some current => simp

/-- `removeEqual` answers `true` exactly on a key bound to an equal value. -/
theorem removeEqual_fst [PartialEq ν] {key : κ} {value : ν} {map : PartialMap κ ν} :
    (map.removeEqual key value).1 =
      match map key with
      | none => false
      | some current => PartialEq.eq current value := by
  unfold removeEqual
  cases map key with
  | none => rfl
  | some current => by_cases equal : PartialEq.eq current value = true <;> simp [equal]

/-- What `removeEqual` leaves at every key. -/
theorem removeEqual_snd [PartialEq ν] (key other : κ) (value : ν) (map : PartialMap κ ν) :
    (map.removeEqual key value).2 other =
      if other = key ∧ (map.removeEqual key value).1 = true then none else map other := by
  unfold removeEqual
  cases bound : map key with
  | none => simp
  | some current =>
    by_cases equal : PartialEq.eq current value = true
    · by_cases same : other = key
      · simp [equal, same]
      · simp [equal, same]
    · simp [equal]

end PartialMap
end Sipusu.Foundation
