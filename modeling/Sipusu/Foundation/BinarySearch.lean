import Mathlib

/-!
# Binary search by a probe

`slice::binary_search_by`: the probe says whether an element lies before, at or
after what is sought. On a list where the probe only ever grows, and is equal at
most once, the search finds that element exactly when it is there.
-/

namespace Sipusu.Foundation.BinarySearch

universe u

variable {α : Type u}

/-- The loop on the window from `left` up to `right`. -/
def searchLoop (probe : α → Ordering) (list : List α) : Nat → Nat → Nat → Except Nat Nat
  | 0, left, _ => .error left
  | fuel + 1, left, right =>
      if left < right then
        let middle := left + (right - left) / 2
        match (list[middle]?).map probe with
        | some .lt => searchLoop probe list fuel (middle + 1) right
        | some .gt => searchLoop probe list fuel left middle
        | some .eq => .ok middle
        | none => .error left
      else .error left

/-- `slice::binary_search_by`. -/
def binarySearchBy (probe : α → Ordering) (list : List α) : Except Nat Nat :=
  searchLoop probe list list.length 0 list.length

/-- Before an element that is not beyond the sought one, all elements lie before it. -/
def Splits (probe : α → Ordering) (list : List α) : Prop :=
  list.Pairwise fun earlier later => probe later ≠ .gt → probe earlier = .lt

variable {probe : α → Ordering} {list : List α}

theorem Splits.lt_of_index (splits : Splits probe list) {i j : Nat} (before : i < j)
    (bound : j < list.length) (notBeyond : probe list[j] ≠ .gt) : probe list[i] = .lt :=
  List.pairwise_iff_getElem.mp splits i j (by omega) bound before notBeyond

/-- What the loop answers when everything left of the window lies before the
sought element and everything right of it lies beyond. -/
theorem searchLoop_spec (splits : Splits probe list) {fuel left right : Nat}
    (enough : right - left ≤ fuel) (bounded : right ≤ list.length)
    (before : ∀ i (bound : i < list.length), i < left → probe list[i] = .lt)
    (beyond : ∀ i (bound : i < list.length), right ≤ i → probe list[i] = .gt) :
    match searchLoop probe list fuel left right with
    | .ok i => ∃ bound : i < list.length, probe list[i] = .eq
    | .error _ => ∀ item ∈ list, probe item ≠ .eq := by
  have closed : ¬ left < right → ∀ item ∈ list, probe item ≠ .eq := by
    intro empty item member
    obtain ⟨i, bound, rfl⟩ := List.getElem_of_mem member
    by_cases side : i < left
    · simp [before i bound side]
    · simp [beyond i bound (by omega)]
  induction fuel generalizing left right with
  | zero => exact closed (by omega)
  | succ fuel inductionHypothesis =>
    by_cases window : left < right
    · have inside : left + (right - left) / 2 < right := by omega
      have middleBound : left + (right - left) / 2 < list.length := by omega
      simp only [searchLoop, window, if_true, List.getElem?_eq_getElem middleBound, Option.map_some]
      generalize middleEq : left + (right - left) / 2 = middle at inside middleBound
      cases verdict : probe list[middle] with
      | eq => exact ⟨middleBound, verdict⟩
      | lt =>
        have lower : ∀ i (bound : i < list.length), i < middle + 1 → probe list[i] = .lt := by
          intro i bound side
          rcases Nat.lt_succ_iff_lt_or_eq.mp side with earlier | rfl
          · exact splits.lt_of_index earlier middleBound (by simp [verdict])
          · exact verdict
        refine inductionHypothesis (by omega) bounded lower beyond fun empty => ?_
        intro item member
        obtain ⟨i, bound, rfl⟩ := List.getElem_of_mem member
        by_cases side : i < middle + 1
        · simp [lower i bound side]
        · simp [beyond i bound (by omega)]
      | gt =>
        have upper : ∀ i (bound : i < list.length), middle ≤ i → probe list[i] = .gt := by
          intro i bound side
          by_contra notBeyond
          rcases Nat.lt_or_eq_of_le side with later | rfl
          · simp [splits.lt_of_index later bound notBeyond] at verdict
          · exact notBeyond verdict
        refine inductionHypothesis (by omega) (by omega) before upper fun empty => ?_
        intro item member
        obtain ⟨i, bound, rfl⟩ := List.getElem_of_mem member
        by_cases side : i < left
        · simp [before i bound side]
        · simp [upper i bound (by omega)]
    · simpa [searchLoop, window] using closed window

/-- The search finds the sought element, and misses it only where it is absent. -/
theorem binarySearchBy_spec (splits : Splits probe list) :
    match binarySearchBy probe list with
    | .ok i => ∃ bound : i < list.length, probe list[i] = .eq
    | .error _ => ∀ item ∈ list, probe item ≠ .eq :=
  searchLoop_spec splits (Nat.sub_le _ _) (Nat.le_refl _) (fun _ _ side => absurd side (Nat.not_lt_zero _))
    (fun _ bound side => absurd bound (Nat.not_lt.mpr side))

end Sipusu.Foundation.BinarySearch
