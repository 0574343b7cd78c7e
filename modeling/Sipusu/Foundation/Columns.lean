import Mathlib

/-!
# Columns of a fixed width

A value shorter than its column is followed by a filler up to the width. A reader
that meets a column at a known place finds the value's octets first, and meets
the filler before the last place exactly when the value leaves two places free.
-/

namespace Sipusu.Foundation

universe u

variable {α : Type u}

/-- A value in a column of the given width. -/
def column (width : Nat) (filler : α) (value : List α) : List α :=
  value ++ List.replicate (width - value.length) filler

theorem length_column {width : Nat} {filler : α} {value : List α} (fits : value.length ≤ width) :
    (column width filler value).length = width := by
  rw [column, List.length_append, List.length_replicate]
  omega

theorem prefix_column (width : Nat) (filler : α) (value : List α) :
    value <+: column width filler value :=
  ⟨_, rfl⟩

/-- The filler shows before the last place unless the value fills all but one place. -/
theorem filler_mem_take_column {width : Nat} {filler : α} {value : List α} (free : filler ∉ value) :
    filler ∈ (column width filler value).take (width - 1) ↔ value.length + 1 < width := by
  rw [column, List.take_append, List.take_replicate, List.mem_append, List.mem_replicate]
  constructor
  · rintro (own | ⟨room, _⟩)
    · exact absurd (List.mem_of_mem_take own) free
    · omega
  · intro room
    exact .inr ⟨by omega, rfl⟩

/-- The items at a known place. -/
theorem take_drop_append {start count : Nat} {front middle back : List α}
    (place : front.length = start) (size : count ≤ middle.length) :
    ((front ++ middle ++ back).drop start).take count = middle.take count := by
  rw [List.append_assoc, List.drop_left' place, List.take_append_of_le_length size]

/-- A part of a window is the same part of the whole, as far as the window goes. -/
theorem take_drop_window {offset width start count : Nat} (whole : List α)
    (inside : start + count ≤ width) :
    ((((whole.drop offset).take width).drop start).take count) =
      (whole.drop (offset + start)).take count := by
  rw [List.drop_take, List.drop_drop, List.take_take, Nat.min_eq_left (by omega)]

/-- A nonempty part is inside the window exactly where it is inside the whole. -/
theorem le_length_window {offset width stop : Nat} (whole : List α) (inside : stop ≤ width)
    (positive : 0 < stop) :
    stop ≤ ((whole.drop offset).take width).length ↔ offset + stop ≤ whole.length := by
  rw [List.length_take, List.length_drop]
  omega

end Sipusu.Foundation
