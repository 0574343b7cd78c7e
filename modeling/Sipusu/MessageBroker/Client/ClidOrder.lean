import Sipusu.MessageBroker.Client.Clobj

/-!
# The comparisons of client identifiers

The derived `Ord` looks at the strings, the hand-written operators at their lengths
and hashes. Of two different strings, `!=` asks more than `==` refuses.
-/

namespace Sipusu.MessageBroker.ClientID

open Sipusu.Foundation

/-- What `==` looks at, which makes it an equivalence. -/
def key (clid : ClientID) : Nat × UInt32 := (clid.id.len, clid.hash)

theorem eq_iff_key {left right : ClientID} :
    PartialEq.eq left right = true ↔ left.key = right.key := by
  simp only [PartialEq.eq, key, Bool.and_eq_true, beq_iff_eq, Prod.mk.injEq]

theorem eq_false_iff_key {left right : ClientID} :
    PartialEq.eq left right = false ↔ left.key ≠ right.key := by
  rw [← Bool.not_eq_true, eq_iff_key]

/-- All comparisons of two identifiers say the same. -/
structure Coherent (a b : Str) : Prop where
  eq : PartialEq.eq (new a) (new b) = true ↔ a = b
  ne : PartialEq.ne (new a) (new b) = false ↔ a = b
  cmp : (new a).cmp (new b) = .eq ↔ a = b
  partialCmp : (new a).partialCmp (new b) = some .eq ↔ a = b
  order : (new a).partialCmp (new b) = some ((new a).cmp (new b))
  lt : (new a).lt (new b) = true ↔ (new a).cmp (new b) = .lt
  le : (new a).le (new b) = true ↔ (new a).cmp (new b) ≠ .gt
  gt : (new a).gt (new b) = true ↔ (new a).cmp (new b) = .gt
  ge : (new a).ge (new b) = true ↔ (new a).cmp (new b) ≠ .lt

/-- The operators on hashes follow the order of the hashes. -/
theorem hash_operators (x y : ClientID) :
    (x.lt y = true ↔ compare x.hash y.hash = .lt) ∧
      (x.le y = true ↔ compare x.hash y.hash ≠ .gt) ∧
      (x.gt y = true ↔ compare x.hash y.hash = .gt) ∧
      (x.ge y = true ↔ compare x.hash y.hash ≠ .lt) := by
  have below : compare x.hash y.hash = .lt ↔ x.hash < y.hash := Std.compare_eq_lt
  have above : compare x.hash y.hash = .gt ↔ y.hash < x.hash := Std.compare_eq_gt
  refine ⟨?_, ?_, ?_, ?_⟩
  · rw [below, ClientID.lt, decide_eq_true_iff]
  · rw [ne_eq, above, ClientID.le, decide_eq_true_iff, UInt32.not_lt]
  · rw [above, ClientID.gt, decide_eq_true_iff, gt_iff_lt]
  · rw [ne_eq, below, ClientID.ge, decide_eq_true_iff, UInt32.not_lt, ge_iff_le]

/-- The comparisons of two identifiers agree exactly when the strings are equal, or differ
in length and have hashes in the order of the strings. -/
theorem coherent_iff (a b : Str) :
    Coherent a b ↔
      a = b ∨ a.len ≠ b.len ∧ compare (hashOf a) (hashOf b) = compare a.bytes b.bytes := by
  obtain ⟨lt, le, gt, ge⟩ := hash_operators (new a) (new b)
  have strings : (new a).cmp (new b) = compare a.bytes b.bytes := cmp_eq_compare _ _
  constructor
  · intro coherent
    refine or_iff_not_imp_left.mpr fun different => ?_
    have unequal : PartialEq.ne (new a) (new b) = true :=
      Bool.not_eq_false _ ▸ fun same => different (coherent.ne.mp same)
    have order := coherent.order
    rw [strings, partialCmp, Option.some.injEq] at order
    simp only [PartialEq.ne, Bool.and_eq_true, bne_iff_ne] at unequal
    exact ⟨unequal.1, order⟩
  · intro condition
    have order : compare (hashOf a) (hashOf b) = compare a.bytes b.bytes := by
      rcases condition with rfl | ⟨_, order⟩
      · rw [Std.ReflOrd.compare_self, Std.ReflOrd.compare_self]
      · exact order
    have hashes : compare (new a).hash (new b).hash = (new a).cmp (new b) := by
      rw [strings]
      exact order
    have equal : (new a).cmp (new b) = .eq ↔ a = b := cmp_eq_iff
    rw [hashes] at lt le gt ge
    refine ⟨?_, ?_, equal, ?_, by rw [partialCmp, hashes], lt, le, gt, ge⟩
    · rcases condition with rfl | ⟨lengths, _⟩
      · simp [PartialEq.eq]
      · have different : a ≠ b := fun same => lengths (congrArg Str.len same)
        simp [PartialEq.eq, lengths, different]
    · rcases condition with rfl | ⟨lengths, _⟩
      · simp [PartialEq.ne]
      · have different : a ≠ b := fun same => lengths (congrArg Str.len same)
        have unequal : (new a).hash ≠ (new b).hash := by
          intro same
          rw [same, Std.ReflOrd.compare_self] at hashes
          exact different (equal.mp hashes.symm)
        simp [PartialEq.ne, lengths, different, unequal]
    · rw [partialCmp, hashes, Option.some.injEq]
      exact equal

/-- Two different strings of one length for which `!=` answers false. -/
theorem not_coherent_of_one_length :
    let a : Str := ⟨[0x61], by decide⟩
    let b : Str := ⟨[0x62], by decide⟩
    a ≠ b ∧ PartialEq.ne (new a) (new b) = false ∧ ¬ Coherent a b := by
  intro a b
  have different : a ≠ b := fun same => absurd (congrArg Str.bytes same) (by decide)
  have unequal : PartialEq.ne (new a) (new b) = false := by simp [PartialEq.ne, a, b, Str.len]
  exact ⟨different, unequal, fun coherent => different (coherent.ne.mp unequal)⟩

end Sipusu.MessageBroker.ClientID
