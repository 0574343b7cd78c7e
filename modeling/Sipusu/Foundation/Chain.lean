import Mathlib

/-!
# Chains of linked cells

A cell holds a value and a link, and a null link ends the chain. `Chain` lists
what is met on the way from a link, `Linked` says that an address is met at all.
-/

namespace Sipusu.Foundation

universe u v

variable {α : Type u} {β : Type v}

/-- The entries met by following links from `start` to a null link. -/
def Chain (cell : α → Option (β × Option α)) : Option α → List (α × β) → Prop
  | start, [] => start = none
  | start, (address, value) :: rest =>
      start = some address ∧ ∃ next, cell address = some (value, next) ∧ Chain cell next rest

/-- An address is met by following links from `start`. -/
inductive Linked (cell : α → Option (β × Option α)) : Option α → α → Prop where
  | here {address} : Linked cell (some address) address
  | there {address value next other} (found : cell address = some (value, next))
      (later : Linked cell next other) : Linked cell (some address) other

variable {cell changed : α → Option (β × Option α)} {start : Option α} {path : List (α × β)}

theorem Chain.eq_nil (chain : Chain cell none path) : path = [] := by
  rcases path with _ | ⟨⟨address, value⟩, rest⟩
  · rfl
  · obtain ⟨impossible, _⟩ := chain
    cases impossible

/-- A chain from an address starts with the cell at that address. -/
theorem Chain.eq_cons {address : α} (chain : Chain cell (some address) path) :
    ∃ value next rest, path = (address, value) :: rest ∧ cell address = some (value, next) ∧
      Chain cell next rest := by
  rcases path with _ | ⟨⟨first, value⟩, rest⟩
  · cases chain
  · obtain ⟨same, next, found, later⟩ := chain
    cases same
    exact ⟨value, next, rest, rfl, found, later⟩

/-- What a met cell links to is met. -/
theorem Linked.next {address later : α} {value : β} (linked : Linked cell start address)
    (found : cell address = some (value, some later)) : Linked cell start later := by
  induction linked with
  | here => exact .there found .here
  | there first _ inductionHypothesis => exact .there first (inductionHypothesis found)

/-- What is met from a link is what its chain lists. -/
theorem Chain.linked_iff (chain : Chain cell start path) {address : α} :
    Linked cell start address ↔ address ∈ path.map Prod.fst := by
  induction path generalizing start with
  | nil =>
    cases chain
    simp only [List.map_nil, List.not_mem_nil, iff_false]
    rintro ⟨⟩
  | cons entry rest inductionHypothesis =>
    obtain ⟨first, value⟩ := entry
    obtain ⟨rfl, next, found, later⟩ := chain
    rw [List.map_cons, List.mem_cons]
    constructor
    · intro linked
      cases linked with
      | here => exact .inl rfl
      | there again onward =>
        rw [found, Option.some.injEq, Prod.mk.injEq] at again
        obtain ⟨_, rfl⟩ := again
        exact .inr ((inductionHypothesis later).mp onward)
    · rintro (rfl | member)
      · exact .here
      · exact .there found ((inductionHypothesis later).mpr member)

/-- The value listed for an address is the value of its cell. -/
theorem Chain.cell_of_mem (chain : Chain cell start path) {address : α} {value : β}
    (member : (address, value) ∈ path) : ∃ next, cell address = some (value, next) := by
  induction path generalizing start with
  | nil => cases member
  | cons entry rest inductionHypothesis =>
    obtain ⟨first, head⟩ := entry
    obtain ⟨_, next, found, later⟩ := chain
    rcases List.mem_cons.mp member with same | member
    · cases same
      exact ⟨next, found⟩
    · exact inductionHypothesis later member

/-- Cells off the chain do not matter to it. -/
theorem Chain.frame (chain : Chain cell start path)
    (unchanged : ∀ address ∈ path.map Prod.fst, changed address = cell address) :
    Chain changed start path := by
  induction path generalizing start with
  | nil => exact chain
  | cons entry rest inductionHypothesis =>
    obtain ⟨first, value⟩ := entry
    obtain ⟨same, next, found, later⟩ := chain
    refine ⟨same, next, ?_, inductionHypothesis later fun address member => ?_⟩
    · rw [unchanged first List.mem_cons_self, found]
    · exact unchanged address (List.mem_cons_of_mem first member)

/-- Filling the null link at the end of a chain with a new last cell extends it. -/
theorem Chain.extend (chain : Chain cell start path) {last new : α} {old value : β}
    (onChain : last ∈ path.map Prod.fst) (ended : cell last = some (old, none))
    (unchanged : ∀ address ∈ path.map Prod.fst, address ≠ last → changed address = cell address)
    (linked : changed last = some (old, some new)) (fresh : changed new = some (value, none)) :
    Chain changed start (path ++ [(new, value)]) := by
  induction path generalizing start with
  | nil => cases onChain
  | cons entry rest inductionHypothesis =>
    obtain ⟨first, firstValue⟩ := entry
    obtain ⟨same, next, found, later⟩ := chain
    by_cases isLast : first = last
    · subst isLast
      rw [ended, Option.some.injEq, Prod.mk.injEq] at found
      obtain ⟨rfl, rfl⟩ := found
      cases later.eq_nil
      exact ⟨same, some new, linked, rfl, none, fresh, rfl⟩
    · have onRest : last ∈ rest.map Prod.fst := by
        rcases List.mem_cons.mp onChain with here | there
        · exact absurd here.symm isLast
        · exact there
      refine ⟨same, next, ?_, inductionHypothesis later onRest fun address member => ?_⟩
      · rw [unchanged first List.mem_cons_self isLast, found]
      · exact unchanged address (List.mem_cons_of_mem _ member)

end Sipusu.Foundation
