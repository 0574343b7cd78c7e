import Mathlib

/-!
# Bracketed groups

A text of filler and of groups, each between an opening and a closing mark. Filler holds
no opening mark and a group no closing one, so a text has at most one list of groups.
-/

namespace Sipusu.Foundation

universe u

/-- The text is filler and groups, and these are its groups in order. -/
inductive Grouped {α : Type u} (opening closing : α) : List α → List (List α) → Prop where
  | filler {filler : List α} (clear : opening ∉ filler) : Grouped opening closing filler []
  | group {filler group rest : List α} {groups : List (List α)} (clear : opening ∉ filler)
      (closed : closing ∉ group) (others : Grouped opening closing rest groups) :
      Grouped opening closing (filler ++ opening :: (group ++ closing :: rest)) (group :: groups)

/-- The text before the first mark and the text after it are determined. -/
theorem cut_unique {α : Type u} {mark : α} {front front' back back' : List α}
    (clear : mark ∉ front) (clear' : mark ∉ front')
    (same : front ++ mark :: back = front' ++ mark :: back') : front = front' ∧ back = back' := by
  induction front generalizing front' with
  | nil =>
    cases front' with
    | nil => simpa using same
    | cons head' tail' =>
      obtain ⟨rfl, -⟩ := List.cons.inj same
      exact absurd List.mem_cons_self clear'
  | cons head tail inductionHypothesis =>
    cases front' with
    | nil =>
      obtain ⟨rfl, -⟩ := List.cons.inj same
      exact absurd List.mem_cons_self clear
    | cons head' tail' =>
      obtain ⟨rfl, tails⟩ := List.cons.inj same
      have fronts := inductionHypothesis (fun member => clear (List.mem_cons_of_mem _ member))
        (fun member => clear' (List.mem_cons_of_mem _ member)) tails
      exact ⟨by rw [fronts.1], fronts.2⟩

namespace Grouped

variable {α : Type u} {opening closing : α} {text : List α} {groups : List (List α)}

theorem nil_iff : Grouped opening closing [] groups ↔ groups = [] := by
  constructor
  · intro grouped
    generalize whole : ([] : List α) = text at grouped
    cases grouped with
    | filler => rfl
    | group => simp at whole
  · rintro rfl
    exact .filler List.not_mem_nil

/-- Filler may grow at the front. -/
theorem cons_iff {head : α} (other : head ≠ opening) :
    Grouped opening closing (head :: text) groups ↔ Grouped opening closing text groups := by
  constructor
  · intro grouped
    generalize whole : head :: text = input at grouped
    cases grouped with
    | filler clear =>
      subst whole
      exact .filler fun member => clear (List.mem_cons_of_mem _ member)
    | @group filler _ _ _ clear closed others =>
      cases filler with
      | nil => exact absurd (List.cons.inj whole).1 other
      | cons first filler =>
        obtain ⟨-, rfl⟩ := List.cons.inj whole
        exact .group (fun member => clear (List.mem_cons_of_mem _ member)) closed others
  · intro grouped
    cases grouped with
    | filler clear => exact .filler (by simp [Ne.symm other, clear])
    | group clear closed others =>
      rw [← List.cons_append]
      exact .group (by simp [Ne.symm other, clear]) closed others

/-- At an opening mark a group starts. -/
theorem opening_iff : Grouped opening closing (opening :: text) groups ↔
    ∃ group rest others, text = group ++ closing :: rest ∧ closing ∉ group ∧
      groups = group :: others ∧ Grouped opening closing rest others := by
  constructor
  · intro grouped
    generalize whole : opening :: text = input at grouped
    cases grouped with
    | filler clear =>
      subst whole
      exact absurd List.mem_cons_self clear
    | @group filler group rest others clear closed grouped =>
      cases filler with
      | nil => exact ⟨group, rest, others, (List.cons.inj whole).2, closed, rfl, grouped⟩
      | cons first filler =>
        obtain ⟨rfl, -⟩ := List.cons.inj whole
        exact absurd List.mem_cons_self clear
  · rintro ⟨group, rest, others, rfl, closed, rfl, grouped⟩
    have clear : opening ∉ ([] : List α) := List.not_mem_nil
    exact .group clear closed grouped

/-- After a whole group the groups of the rest follow. -/
theorem group_iff {group rest : List α} (closed : closing ∉ group) :
    Grouped opening closing (opening :: (group ++ closing :: rest)) groups ↔
      ∃ others, groups = group :: others ∧ Grouped opening closing rest others := by
  rw [opening_iff]
  constructor
  · rintro ⟨group', rest', others, same, closed', rfl, grouped⟩
    obtain ⟨rfl, rfl⟩ := cut_unique closed closed' same
    exact ⟨others, rfl, grouped⟩
  · rintro ⟨others, rfl, grouped⟩
    exact ⟨group, rest, others, rfl, closed, rfl, grouped⟩

/-- Without a closing mark the group at an opening mark does not end. -/
theorem not_of_unclosed (unclosed : closing ∉ text) :
    ¬ Grouped opening closing (opening :: text) groups := by
  rw [opening_iff]
  rintro ⟨group, rest, -, rfl, -⟩
  exact unclosed (by simp)

/-- A text with exactly two groups. -/
theorem pair_iff {first second : List α} : Grouped opening closing text [first, second] ↔
    ∃ front middle back,
      text = front ++ opening :: (first ++ closing ::
        (middle ++ opening :: (second ++ closing :: back))) ∧
      (opening ∉ front ∧ opening ∉ middle ∧ opening ∉ back) ∧
      closing ∉ first ∧ closing ∉ second := by
  constructor
  · intro grouped
    cases grouped with
    | @group front _ _ _ clearFront closedFirst others =>
      cases others with
      | @group middle _ _ _ clearMiddle closedSecond others =>
        cases others with
        | filler clearBack =>
          exact ⟨front, middle, _, rfl, ⟨clearFront, clearMiddle, clearBack⟩,
            closedFirst, closedSecond⟩
  · rintro ⟨front, middle, back, rfl, ⟨clearFront, clearMiddle, clearBack⟩, closedFirst,
      closedSecond⟩
    exact .group clearFront closedFirst (.group clearMiddle closedSecond (.filler clearBack))

end Grouped
end Sipusu.Foundation
