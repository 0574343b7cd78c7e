import Sipusu.Foundation.Murmur3
import Sipusu.MessageBroker.Client.Clobj

/-!
# The hash of a client identifier

`ClientID::hash` mixes whole blocks as MurmurHash3 does. Of the octets after them only
the last enters the hash, as if the others were zero.
-/

namespace Sipusu.MessageBroker.ClientID

open Sipusu.Foundation

section Words

theorem toBitVec_rotateLeft (word : UInt32) {count : UInt32} (positive : 0 < count.toNat)
    (inside : count.toNat < 32) :
    (rotateLeft word count).toBitVec = word.toBitVec.rotateLeft count.toNat := by
  have up : (count.toBitVec % 32).toNat = count.toNat := Nat.mod_eq_of_lt inside
  have down : ((32 - count).toBitVec % 32).toNat = 32 - count.toNat := by
    have fits : count ≤ 32 := UInt32.le_iff_toNat_le.mpr (Nat.le_of_lt inside)
    calc ((32 - count).toBitVec % 32).toNat = (32 - count).toNat % 32 := rfl
      _ = (32 - count.toNat) % 32 := by rw [UInt32.toNat_sub_of_le _ _ fits]; rfl
      _ = 32 - count.toNat := Nat.mod_eq_of_lt (by omega)
  rw [rotateLeft, UInt32.toBitVec_or, UInt32.toBitVec_shiftLeft, UInt32.toBitVec_shiftRight,
    BitVec.rotateLeft_eq_rotateLeftAux_of_lt inside, BitVec.rotateLeftAux, BitVec.shiftLeft_eq',
    BitVec.ushiftRight_eq', up, down]

theorem toBitVec_scramble (word : UInt32) :
    (scramble word).toBitVec = Murmur3.scramble word.toBitVec := by
  rw [scramble, UInt32.toBitVec_mul, toBitVec_rotateLeft _ (by decide) (by decide),
    UInt32.toBitVec_mul]
  rfl

/-- An octet in its place. -/
theorem toBitVec_placed (octet : UInt8) {count : UInt32} (inside : count.toNat < 32) :
    (octet.toUInt32 <<< count).toBitVec = octet.toBitVec.setWidth 32 <<< count.toNat := by
  have places : (count.toBitVec % 32).toNat = count.toNat := Nat.mod_eq_of_lt inside
  rw [UInt32.toBitVec_shiftLeft, UInt8.toBitVec_toUInt32, BitVec.shiftLeft_eq', places]

private theorem or_reverse {width : Nat} (p q r s : BitVec width) :
    p ||| q ||| r ||| s = s ||| r ||| q ||| p := by
  ac_rfl

theorem toBitVec_fromLeBytes (a b c d : UInt8) :
    (fromLeBytes a b c d).toBitVec = Murmur3.word [a, b, c, d] := by
  simp only [fromLeBytes, Murmur3.word, Words.ofBytes, UInt32.toBitVec_or, UInt8.toBitVec_toUInt32,
    toBitVec_placed _ (show (8 : UInt32).toNat < 32 by decide),
    toBitVec_placed _ (show (16 : UInt32).toNat < 32 by decide),
    toBitVec_placed _ (show (24 : UInt32).toNat < 32 by decide),
    BitVec.shiftLeft_or_distrib, ← BitVec.shiftLeft_add, BitVec.ofNat_eq_ofNat,
    BitVec.zero_shiftLeft, BitVec.zero_or]
  exact or_reverse _ _ _ _

/-- One turn of the loop over the blocks. -/
theorem toBitVec_mix (hash : UInt32) (a b c d : UInt8) :
    (rotateLeft (hash ^^^ scramble (fromLeBytes a b c d)) 13 * 5 + 0xe6546b64).toBitVec =
      Murmur3.mix hash.toBitVec (Murmur3.word [a, b, c, d]) := by
  rw [UInt32.toBitVec_add, UInt32.toBitVec_mul, toBitVec_rotateLeft _ (by decide) (by decide),
    UInt32.toBitVec_xor, toBitVec_scramble, toBitVec_fromLeBytes]
  rfl

theorem toBitVec_xor_shiftRight (word : UInt32) {count : UInt32} (inside : count.toNat < 32) :
    (word ^^^ word >>> count).toBitVec = word.toBitVec ^^^ word.toBitVec >>> count.toNat := by
  have places : (count.toBitVec % 32).toNat = count.toNat := Nat.mod_eq_of_lt inside
  rw [UInt32.toBitVec_xor, UInt32.toBitVec_shiftRight, BitVec.ushiftRight_eq', places]

theorem toBitVec_avalanche (hash : UInt32) :
    (avalanche hash).toBitVec = Murmur3.avalanche hash.toBitVec := by
  simp (disch := decide) only [avalanche, toBitVec_xor_shiftRight, UInt32.toBitVec_mul]
  rfl

end Words

theorem hashBlocks_block (hash : UInt32) (a b c d : UInt8) (rest : Bytes) :
    hashBlocks hash (a :: b :: c :: d :: rest) =
      hashBlocks (rotateLeft (hash ^^^ scramble (fromLeBytes a b c d)) 13 * 5 + 0xe6546b64) rest := by
  conv_lhs => unfold hashBlocks

/-- The loop over the blocks is the reference's, and leaves the reference's tail. -/
theorem hashBlocks_eq (hash : UInt32) : ∀ data : Bytes,
    (hashBlocks hash data).1.toBitVec = Murmur3.body hash.toBitVec data ∧
      (hashBlocks hash data).2 = Murmur3.tail data
  | a :: b :: c :: d :: rest => by
    rw [hashBlocks_block, Murmur3.tail_block, Murmur3.body_block, ← toBitVec_mix]
    exact hashBlocks_eq
      (rotateLeft (hash ^^^ scramble (fromLeBytes a b c d)) 13 * 5 + 0xe6546b64) rest
  | [] | [_] | [_, _] | [_, _, _] => by
    rw [Murmur3.tail_of_short (by simp), Murmur3.body_of_short (by simp)]
    exact ⟨rfl, rfl⟩

/-- The octets with all but the last of them cleared. -/
def lastOnly : Bytes → Bytes
  | [] => []
  | [last] => [last]
  | _ :: next :: rest => 0 :: lastOnly (next :: rest)

theorem length_lastOnly (tail : Bytes) : (lastOnly tail).length = tail.length := by
  fun_induction lastOnly tail <;> simp_all

theorem lastOnly_eq_iff {tail : Bytes} :
    lastOnly tail = tail ↔ ∀ octet ∈ tail.dropLast, octet = 0 := by
  fun_induction lastOnly tail with
  | case1 => simp
  | case2 last => simp
  | case3 first next rest inductionHypothesis =>
    have init : (first :: next :: rest).dropLast = first :: (next :: rest).dropLast := rfl
    rw [init, List.forall_mem_cons, List.cons.injEq, inductionHypothesis]
    exact and_congr_left' eq_comm

theorem toBitVec_hashTail {tail : Bytes} (short : tail.length < 4) :
    (hashTail tail).toBitVec = Murmur3.word (lastOnly tail) := by
  match tail, short with
  | [], _ => rfl
  | [a], _ =>
    simp [hashTail, lastOnly, Murmur3.word, Words.ofBytes]
  | [_, b], _ =>
    rw [hashTail, toBitVec_placed _ (by decide)]
    simp [lastOnly, Murmur3.word, Words.ofBytes]
  | [_, _, c], _ =>
    rw [hashTail, toBitVec_placed _ (by decide)]
    simp [lastOnly, Murmur3.word, Words.ofBytes]

theorem toBitVec_hashOf (rawClid : Str) :
    (hashOf rawClid).toBitVec = Murmur3.finish (Murmur3.body 0 rawClid.bytes)
      (Murmur3.word (lastOnly (Murmur3.tail rawClid.bytes))) rawClid.len := by
  have blocks := hashBlocks_eq 0 rawClid.bytes
  rw [hashOf, toBitVec_avalanche, UInt32.toBitVec_xor, UInt32.toBitVec_xor, toBitVec_scramble,
    blocks.1, blocks.2, toBitVec_hashTail (Murmur3.length_tail_lt _)]
  rfl

/-- The hash is MurmurHash3 exactly when the octets it leaves out are zero. -/
theorem hashOf_eq_murmur3_iff (rawClid : Str) :
    (hashOf rawClid).toBitVec = Murmur3.hash 0 rawClid.bytes ↔
      ∀ octet ∈ (Murmur3.tail rawClid.bytes).dropLast, octet = 0 := by
  have short := Murmur3.length_tail_lt rawClid.bytes
  rw [toBitVec_hashOf, Murmur3.hash, Str.len, Murmur3.finish_inj,
    Murmur3.word_inj (by rw [length_lastOnly]; omega) (length_lastOnly _), lastOnly_eq_iff]

/-- Two octets, of which the first does not enter. -/
theorem hashOf_drops_octets :
    (hashOf ⟨[0x61, 0x62], rfl⟩).toBitVec ≠ Murmur3.hash 0 [0x61, 0x62] := by
  decide +kernel

end Sipusu.MessageBroker.ClientID
