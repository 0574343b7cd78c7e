import Sipusu.Protocol.V5

/-!
# User properties

Every packet writes its user properties with the same loop, one pair of strings after
another behind the identifier `0x26`.
-/

namespace Sipusu.Protocol.V5

open Sipusu.Foundation

/-- The octets that user properties take. -/
def pairsSize (pairs : List (Str × Str)) : Nat :=
  (pairs.map fun pair => 5 + pair.1.len + pair.2.len).sum

theorem pairsSize_append (front back : List (Str × Str)) :
    pairsSize (front ++ back) = pairsSize front + pairsSize back := by
  simp [pairsSize]

theorem pairsSize_cons (pair : Str × Str) (pairs : List (Str × Str)) :
    pairsSize (pair :: pairs) = 5 + pair.1.len + pair.2.len + pairsSize pairs := by
  simp [pairsSize]

theorem pair_le_pairsSize {pair : Str × Str} {pairs : List (Str × Str)} (member : pair ∈ pairs) :
    5 + pair.1.len + pair.2.len ≤ pairsSize pairs := by
  obtain ⟨front, back, rfl⟩ := List.append_of_mem member
  rw [pairsSize_append, pairsSize_cons]
  omega

/-- A user property. -/
def pairBytes (pair : Str × Str) : Bytes :=
  0x26 :: (lengthPrefixed pair.1.bytes ++ lengthPrefixed pair.2.bytes)

theorem length_pairBytes (pairs : List (Str × Str)) :
    (pairs.flatMap pairBytes).length = pairsSize pairs := by
  induction pairs with
  | nil => rfl
  | cons pair rest inductionHypothesis =>
    rw [List.flatMap_cons, List.length_append, inductionHypothesis, pairsSize_cons, pairBytes]
    simp only [List.length_cons, List.length_append, length_lengthPrefixed, Str.len]
    omega

/-- A loop over user properties writes them all when their strings fit, and nothing
otherwise. -/
theorem pairsLoop_eq_ok {loop : List (Str × Str) → Outcome String Bytes} (nil : loop [] = .ok [])
    (cons : ∀ key value rest, loop ((key, value) :: rest) = (do
      let key ← encodeUtf8String key
      let value ← encodeUtf8String value
      let rest ← loop rest
      return 0x26 :: (key ++ (value ++ rest)))) {pairs : List (Str × Str)} {octets : Bytes} :
    loop pairs = .ok octets ↔
      (∀ pair ∈ pairs, pair.1.len < 65536 ∧ pair.2.len < 65536) ∧
        octets = pairs.flatMap pairBytes := by
  induction pairs generalizing octets with
  | nil => simp [nil, eq_comm]
  | cons pair rest inductionHypothesis =>
    rw [cons, List.forall_mem_cons, List.flatMap_cons, pairBytes]
    simp only [Outcome.bind_eq_ok, encodeUtf8String_eq_ok, inductionHypothesis, Outcome.pure_eq,
      Outcome.ok.injEq]
    constructor
    · rintro ⟨_, ⟨keyFits, rfl⟩, _, ⟨valueFits, rfl⟩, _, ⟨restFit, rfl⟩, rfl⟩
      exact ⟨⟨⟨keyFits, valueFits⟩, restFit⟩, by simp⟩
    · rintro ⟨⟨⟨keyFits, valueFits⟩, restFit⟩, rfl⟩
      exact ⟨_, ⟨keyFits, rfl⟩, _, ⟨valueFits, rfl⟩, _, ⟨restFit, rfl⟩, by simp⟩

end Sipusu.Protocol.V5
