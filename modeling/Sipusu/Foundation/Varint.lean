import Sipusu.Foundation.Reader

/-!
# Variable-length integers

A number as digits to base 128, the lowest first. Every octet but the last one has
its high bit set, so the form ends by itself, and it has no more octets than needed.
-/

namespace Sipusu.Foundation.Varint

/-- The low seven bits of an octet. -/
theorem toNat_and_low (octet : UInt8) : (octet &&& 127).toNat = octet.toNat % 128 := by
  rw [UInt8.toNat_and]
  exact Nat.and_two_pow_sub_one_eq_mod octet.toNat 7

/-- The high bit of an octet. -/
theorem and_high_eq_zero_iff (octet : UInt8) : octet &&& 128 = 0 ↔ octet.toNat < 128 := by
  have table : ∀ value : Fin 256, value.val &&& 128 = 0 ↔ value.val < 128 := by decide +kernel
  rw [← UInt8.toNat_inj, UInt8.toNat_and]
  exact table ⟨octet.toNat, octet.toNat_lt⟩

/-- The digits of a number, with at most `extra` octets before the last one. -/
def digits : Nat → Nat → Bytes
  | 0, n => [UInt8.ofNat n]
  | extra + 1, n =>
      if n < 128 then [UInt8.ofNat n]
      else UInt8.ofNat (n % 128 + 128) :: digits extra (n / 128)

theorem digits_ne_nil (extra n : Nat) : digits extra n ≠ [] := by
  cases extra with
  | zero => exact List.cons_ne_nil _ _
  | succ extra =>
    rw [digits]
    split <;> exact List.cons_ne_nil _ _

/-- The form takes no more octets than the number has digits. -/
theorem length_digits_le {extra n count : Nat} (positive : 0 < count) (bound : n < 128 ^ count) :
    (digits extra n).length ≤ count := by
  induction extra generalizing n count with
  | zero => exact positive
  | succ extra inductionHypothesis =>
    rw [digits]
    split
    · exact positive
    · obtain ⟨count, rfl⟩ : ∃ fewer, count = fewer + 1 := ⟨count - 1, by omega⟩
      have fewer : 0 < count := by
        by_contra none
        obtain rfl : count = 0 := by omega
        omega
      have quotient : n / 128 < 128 ^ count := by
        rw [Nat.pow_succ] at bound
        exact Nat.div_lt_of_lt_mul (by omega)
      rw [List.length_cons]
      exact Nat.succ_le_succ (inductionHypothesis fewer quotient)

/-- An octet that another one follows has its high bit set. -/
theorem high_of_append {extra n : Nat} {front back : Bytes} {octet : UInt8}
    (split : digits extra n = front ++ octet :: back) (more : back ≠ []) : 128 ≤ octet.toNat := by
  have single : ∀ {last octet : UInt8} {front : Bytes}, [last] ≠ front ++ octet :: back := by
    intro last octet front same
    have length := congrArg List.length same
    have positive := List.length_pos_iff.mpr more
    simp only [List.length_append, List.length_cons, List.length_nil] at length
    omega
  induction extra generalizing n front with
  | zero => exact absurd split single
  | succ extra inductionHypothesis =>
    rw [digits] at split
    by_cases small : n < 128
    · rw [if_pos small] at split
      exact absurd split single
    · rw [if_neg small] at split
      cases front with
      | nil =>
        rw [List.nil_append, List.cons.injEq] at split
        rw [← split.1, UInt8.toNat_ofNat']
        omega
      | cons first front =>
        rw [List.cons_append, List.cons.injEq] at split
        exact inductionHypothesis split.2

section Octets

/-- The number that octets hold. -/
def value : Bytes → Nat
  | [] => 0
  | octet :: rest => octet.toNat % 128 + 128 * value rest

/-- Octets of which only the last has its high bit clear, with at most `extra` before it. -/
def Whole (extra : Nat) (used : Bytes) : Prop :=
  ∃ front last, used = front ++ [last] ∧ front.length ≤ extra ∧
    (∀ octet ∈ front, 128 ≤ octet.toNat) ∧ last.toNat < 128

/-- The octets of a number, of which no fewer hold it. -/
structure Shortest (extra n : Nat) (used : Bytes) : Prop where
  whole : Whole extra used
  holds : value used = n
  least : ∀ other, Whole extra other → value other = n → used.length ≤ other.length

/-- Octets that the number goes on behind. -/
def Cut (extra : Nat) (buffer : Bytes) : Prop :=
  buffer.length ≤ extra ∧ ∀ octet ∈ buffer, 128 ≤ octet.toNat

variable {extra : Nat} {octet : UInt8} {tail : Bytes}

theorem Whole.length_pos {used : Bytes} (whole : Whole extra used) : 0 < used.length := by
  obtain ⟨front, last, rfl, _⟩ := whole
  simp

theorem Whole.length_le {used : Bytes} (whole : Whole extra used) : used.length ≤ extra + 1 := by
  obtain ⟨front, last, rfl, short, _⟩ := whole
  rw [List.length_append, List.length_singleton]
  exact Nat.succ_le_succ short

/-- As many octets as there are hold no larger number. -/
theorem value_lt (used : Bytes) : value used < 128 ^ used.length := by
  induction used with
  | nil => exact Nat.one_pos
  | cons octet rest inductionHypothesis =>
    have digit : octet.toNat % 128 < 128 := Nat.mod_lt _ (by omega)
    rw [value, List.length_cons, Nat.pow_succ]
    omega

/-- A number takes the first of the octets it is read from. -/
theorem Whole.starts {used rest : Bytes} (whole : Whole extra used)
    (split : octet :: tail = used ++ rest) :
    ∃ others, used = octet :: others ∧ tail = others ++ rest := by
  obtain ⟨front, last, rfl, _⟩ := whole
  cases front with
  | nil =>
    simp only [List.nil_append, List.cons_append, List.cons.injEq] at split
    exact ⟨[], by rw [split.1, List.nil_append], split.2⟩
  | cons first front =>
    simp only [List.cons_append, List.cons.injEq] at split
    exact ⟨front ++ [last], by rw [split.1, List.cons_append], split.2⟩

theorem whole_cons_of_low (low : octet.toNat < 128) : Whole extra (octet :: tail) ↔ tail = [] := by
  constructor
  · rintro ⟨front, last, split, _, high, _⟩
    cases front with
    | nil =>
      rw [List.nil_append, List.cons.injEq] at split
      exact split.2
    | cons first front =>
      rw [List.cons_append, List.cons.injEq] at split
      have first := high first List.mem_cons_self
      rw [← split.1] at first
      omega
  · rintro rfl
    exact ⟨[], octet, rfl, Nat.zero_le extra, nofun, low⟩

theorem not_whole_zero_of_high (high : 128 ≤ octet.toNat) : ¬ Whole 0 (octet :: tail) := by
  rintro ⟨front, last, split, short, _, low⟩
  obtain rfl := List.eq_nil_of_length_eq_zero (Nat.le_zero.mp short)
  rw [List.nil_append, List.cons.injEq] at split
  rw [split.1] at high
  omega

theorem whole_cons_of_high (high : 128 ≤ octet.toNat) :
    Whole (extra + 1) (octet :: tail) ↔ Whole extra tail := by
  constructor
  · rintro ⟨front, last, split, short, others, low⟩
    cases front with
    | nil =>
      rw [List.nil_append, List.cons.injEq] at split
      rw [split.1] at high
      omega
    | cons first front =>
      rw [List.cons_append, List.cons.injEq] at split
      exact ⟨front, last, split.2, Nat.le_of_succ_le_succ short,
        fun other member => others other (List.mem_cons_of_mem first member), low⟩
  · rintro ⟨front, last, rfl, short, others, low⟩
    refine ⟨octet :: front, last, rfl, Nat.succ_le_succ short, ?_, low⟩
    intro other member
    rcases List.mem_cons.mp member with rfl | member
    · exact high
    · exact others other member

theorem not_cut_of_low (low : octet.toNat < 128) : ¬ Cut extra (octet :: tail) := by
  rintro ⟨_, high⟩
  have first := high octet List.mem_cons_self
  omega

theorem cut_cons_of_high (high : 128 ≤ octet.toNat) :
    Cut (extra + 1) (octet :: tail) ↔ Cut extra tail := by
  simp [Cut, high]

end Octets

end Sipusu.Foundation.Varint
