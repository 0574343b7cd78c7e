import Sipusu.Foundation.Reader

/-!
# Mixing of machine words

The steps that hash functions mix words with lose nothing: multiplication by a word that
has an inverse, rotation and the exclusive or with a shifted copy are one to one. Octets
are put into a word with the first of them lowest.
-/

namespace Sipusu.Foundation.Words

variable {width : Nat}

/-- A factor with an inverse can be cancelled. -/
theorem mul_injective {factor inverse : BitVec width} (inverted : factor * inverse = 1) :
    Function.Injective fun word => word * factor := by
  intro left right same
  have back : ∀ word : BitVec width, word * factor * inverse = word := fun word => by
    rw [BitVec.mul_assoc, inverted]
    exact BitVec.mul_one word
  rw [← back left, ← back right]
  exact congrArg (· * inverse) same

/-- A rotation moves every bit up, and the highest around. -/
theorem getLsbD_rotateLeft_mod {word : BitVec width} {count i : Nat} (inside : count < width)
    (bit : i < width) : (word.rotateLeft count).getLsbD ((i + count) % width) = word.getLsbD i := by
  have small : count % width = count := Nat.mod_eq_of_lt inside
  by_cases around : i + count < width
  · have past : ¬ i + count < count := by omega
    rw [Nat.mod_eq_of_lt around, BitVec.getLsbD_rotateLeft, small]
    simp [around, past]
  · have place : (i + count) % width = i + count - width := by
      rw [Nat.mod_eq_sub_mod (by omega), Nat.mod_eq_of_lt (by omega)]
    have bitBefore : width - count + (i + count - width) = i := by omega
    have below : i + count - width < count := by omega
    rw [place, BitVec.getLsbD_rotateLeft, small, bitBefore]
    simp [below]

theorem rotateLeft_injective {count : Nat} (inside : count < width) :
    Function.Injective fun word : BitVec width => word.rotateLeft count := by
  intro left right same
  apply BitVec.eq_of_getLsbD_eq
  intro i bit
  rw [← getLsbD_rotateLeft_mod inside bit, ← getLsbD_rotateLeft_mod inside bit]
  exact congrArg (fun word : BitVec width => word.getLsbD ((i + count) % width)) same

/-- A word that a shift leaves alone is zero. -/
theorem eq_zero_of_ushiftRight {word : BitVec width} {count : Nat} (positive : 0 < count)
    (fixed : word >>> count = word) : word = 0 := by
  have halved : word.toNat / 2 ^ count = word.toNat := by
    simpa [BitVec.toNat_ushiftRight, Nat.shiftRight_eq_div_pow] using congrArg BitVec.toNat fixed
  apply BitVec.eq_of_toNat_eq
  by_contra nonzero
  have smaller : word.toNat / 2 ^ count < word.toNat :=
    Nat.div_lt_self (Nat.pos_of_ne_zero nonzero) (Nat.one_lt_two_pow (by omega))
  omega

theorem xor_ushiftRight_injective {count : Nat} (positive : 0 < count) :
    Function.Injective fun word : BitVec width => word ^^^ (word >>> count) := by
  intro left right same
  -- The difference of two such words is its own shift.
  have fixed : (left ^^^ right) >>> count = left ^^^ right := by
    calc (left ^^^ right) >>> count
        = left ^^^ (left ^^^ left >>> count) ^^^ right >>> count := by
          rw [BitVec.ushiftRight_xor_distrib, ← BitVec.xor_assoc, BitVec.xor_self,
            BitVec.zero_xor]
      _ = left ^^^ (right ^^^ right >>> count) ^^^ right >>> count :=
          congrArg (fun word => left ^^^ word ^^^ right >>> count) same
      _ = left ^^^ right := by
          rw [BitVec.xor_assoc, BitVec.xor_assoc right, BitVec.xor_self, BitVec.xor_zero]
  exact BitVec.xor_eq_zero_iff.mp (eq_zero_of_ushiftRight positive fixed)

/-- Octets as a word, the first of them lowest. -/
def ofBytes (width : Nat) : Bytes → BitVec width
  | [] => 0
  | byte :: rest => (ofBytes width rest <<< 8) ||| byte.toBitVec.setWidth width

/-- The number of octets, the first of them lowest. -/
def value : Bytes → Nat
  | [] => 0
  | byte :: rest => byte.toNat + 256 * value rest

theorem value_lt (bytes : Bytes) : value bytes < 2 ^ (8 * bytes.length) := by
  induction bytes with
  | nil => decide
  | cons byte rest inductionHypothesis =>
    have octet := byte.toNat_lt
    have power : 2 ^ (8 * (rest.length + 1)) = 256 * 2 ^ (8 * rest.length) := by
      rw [Nat.mul_succ, Nat.pow_add, Nat.mul_comm]
    rw [value, List.length_cons, power]
    omega

theorem value_injective {left right : Bytes} (lengths : left.length = right.length)
    (same : value left = value right) : left = right := by
  induction left generalizing right with
  | nil => exact (List.length_eq_zero_iff.mp lengths.symm).symm
  | cons byte rest inductionHypothesis =>
    cases right with
    | nil => cases lengths
    | cons byte' rest' =>
      have octet := byte.toNat_lt
      have octet' := byte'.toNat_lt
      rw [value, value] at same
      have first : byte = byte' := UInt8.toNat_inj.mp (by omega)
      have others := inductionHypothesis (Nat.succ.inj lengths) (by omega)
      rw [first, others]

theorem toNat_ofBytes {bytes : Bytes} (fits : 8 * bytes.length ≤ width) :
    (ofBytes width bytes).toNat = value bytes := by
  induction bytes with
  | nil => simp [ofBytes, value]
  | cons byte rest inductionHypothesis =>
    have shorter : 8 * rest.length + 8 ≤ width := by simpa [Nat.mul_add] using fits
    have high := inductionHypothesis (by omega)
    have bounded := value_lt rest
    have room : (ofBytes width rest).toNat <<< 8 < 2 ^ width := by
      rw [Nat.shiftLeft_eq, high]
      calc value rest * 2 ^ 8 < 2 ^ (8 * rest.length) * 2 ^ 8 := by omega
        _ = 2 ^ (8 * rest.length + 8) := (Nat.pow_add ..).symm
        _ ≤ 2 ^ width := Nat.pow_le_pow_right (by decide) shorter
    have low : byte.toNat < 2 ^ width :=
      Nat.lt_of_lt_of_le byte.toNat_lt (Nat.pow_le_pow_right (by decide) (by omega))
    rw [ofBytes, BitVec.toNat_or, BitVec.toNat_shiftLeft, BitVec.toNat_setWidth,
      Nat.mod_eq_of_lt room, UInt8.toNat_toBitVec, Nat.mod_eq_of_lt low,
      ← Nat.shiftLeft_add_eq_or_of_lt byte.toNat_lt, Nat.shiftLeft_eq, high, value]
    omega

/-- As many octets are determined by their word. -/
theorem ofBytes_injective {left right : Bytes} (fits : 8 * left.length ≤ width)
    (lengths : left.length = right.length) (same : ofBytes width left = ofBytes width right) :
    left = right := by
  apply value_injective lengths
  rw [← toNat_ofBytes fits, ← toNat_ofBytes (lengths ▸ fits), same]

end Sipusu.Foundation.Words
