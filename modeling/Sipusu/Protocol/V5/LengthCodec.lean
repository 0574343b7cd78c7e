import Sipusu.Protocol.V5.Fields

/-!
# The variable-length integer as a codec

`RemainingLength::encode` writes the shortest form of every number up to its limit but zero,
for which it writes no octet. `RemainingLength::decode` never overflows and never takes a
fifth octet.
-/

namespace Sipusu.Protocol.V5

open Sipusu.Foundation Sipusu.Foundation.Reader

namespace RemainingLength

/-- A result of `u32` arithmetic, unless it overflows. -/
def checkedU32 (n : Nat) : Option Nat := if n < 2 ^ 32 then some n else none

theorem checkedU32_of_lt {n : Nat} (bound : n < 2 ^ 32) : checkedU32 n = some n := if_pos bound

/-- The loop of `RemainingLength::decode` in `u32` arithmetic, with the buffer that it leaves
however it ends. There is no result when the arithmetic overflows. -/
def decodeLoopChecked (multiplier value : Nat) : Bytes → Option (Outcome String Nat × Bytes)
  | [] => some (.panic, [])
  | encodedByte :: rest => do
      let term ← checkedU32 ((encodedByte &&& 127).toNat * multiplier)
      let value ← checkedU32 (value + term)
      if encodedByte &&& 128 = 0 then some (.ok value, rest)
      else
        let multiplier ← checkedU32 (multiplier * 128)
        if multiplier > 128 * 128 * 128 then some (.err malformedRemainingLength, rest)
        else decodeLoopChecked multiplier value rest

/-- `RemainingLength::decode` in `u32` arithmetic. -/
def decodeChecked : Bytes → Option (Outcome String Nat × Bytes) := decodeLoopChecked 1 0

/-- What the codec promises of a number: the shortest form up to the limit, which decodes to
the number in front of any octets, and an error above it. -/
structure Encodes (target : UInt32) : Prop where
  written : target.toNat ≤ 268435455 → ∃ used, encode target = .ok used ∧
    Varint.Shortest 3 target.toNat used ∧ ∀ rest, decode (used ++ rest) = .ok (target.toNat, rest)
  refused : 268435455 < target.toNat → ∃ error, encode target = .err error

/-- The value read so far stays below the multiplier, which bounds every intermediate
result. -/
theorem decodeLoopChecked_eq {extra multiplier value : Nat}
    (room : multiplier * 128 ^ extra = 128 ^ 3) (small : value < multiplier) (buffer : Bytes) :
    ∃ outcome used left, decodeLoopChecked multiplier value buffer = some (outcome, left) ∧
      buffer = used ++ left ∧ used.length ≤ extra + 1 ∧
      decodeLoop multiplier value buffer = outcome >>= fun n => .ok (n, left) := by
  induction buffer generalizing extra multiplier value with
  | nil => exact ⟨.panic, [], [], rfl, rfl, Nat.zero_le _, rfl⟩
  | cons octet tail inductionHypothesis =>
    have digit : (octet &&& 127).toNat < 128 := by
      rw [Varint.toNat_and_low]
      exact Nat.mod_lt _ (by omega)
    have multiplierBound : multiplier ≤ 128 ^ 3 := by
      rw [← room]
      exact Nat.le_mul_of_pos_right multiplier (Nat.pow_pos (by omega))
    have term : (octet &&& 127).toNat * multiplier ≤ 127 * multiplier :=
      Nat.mul_le_mul_right multiplier (Nat.le_of_lt_succ digit)
    rw [decodeLoopChecked, decodeLoop_cons]
    simp only [checkedU32_of_lt (show (octet &&& 127).toNat * multiplier < 2 ^ 32 by omega),
      checkedU32_of_lt (show value + (octet &&& 127).toNat * multiplier < 2 ^ 32 by omega),
      checkedU32_of_lt (show multiplier * 128 < 2 ^ 32 by omega), Option.bind_eq_bind,
      Option.bind_some]
    by_cases last : octet &&& 128 = 0
    · rw [if_pos last, if_pos last]
      exact ⟨.ok _, [octet], tail, rfl, rfl, Nat.succ_le_succ (Nat.zero_le extra), rfl⟩
    · rw [if_neg last, if_neg last]
      cases extra with
      | zero =>
        have full : multiplier * 128 > 128 * 128 * 128 := by omega
        rw [if_pos full, if_pos full]
        exact ⟨.err _, [octet], tail, rfl, rfl, Nat.le_refl 1, rfl⟩
      | succ extra =>
        have nextRoom : multiplier * 128 * 128 ^ extra = 128 ^ 3 := by
          rw [← room, Nat.pow_succ, Nat.mul_comm (128 ^ extra), Nat.mul_assoc]
        have noOverflow : ¬ multiplier * 128 > 128 * 128 * 128 := by
          have step := Nat.le_mul_of_pos_right (multiplier * 128)
            (show 0 < 128 ^ extra from Nat.pow_pos (by omega))
          omega
        rw [if_neg noOverflow, if_neg noOverflow]
        have nextSmall : value + (octet &&& 127).toNat * multiplier < multiplier * 128 := by
          omega
        obtain ⟨outcome, used, left, checked, rfl, short, same⟩ :=
          inductionHypothesis nextRoom nextSmall
        exact ⟨outcome, octet :: used, left, checked, rfl, Nat.succ_le_succ short, same⟩

/-- The shortest form is one. -/
theorem shortest_form {n : Nat} (bound : n < limit) : Varint.Shortest 3 n (form n) := by
  have decoded := decode_form bound []
  obtain ⟨used, split, whole, isValue⟩ := (decode_yields.returns _ n []).mp decoded
  simp only [List.append_nil] at split
  subst split
  refine ⟨whole, isValue.symm, ?_⟩
  rintro other otherWhole rfl
  exact length_form_le otherWhole.length_pos (Varint.value_lt other)

/-- Such octets are read as their number. -/
theorem decode_shortest {n : Nat} {used : Bytes} (shortest : Varint.Shortest 3 n used)
    (rest : Bytes) : decode (used ++ rest) = .ok (n, rest) :=
  (decode_yields.returns _ n rest).mpr ⟨used, rfl, shortest.whole, shortest.holds.symm⟩

/-- A number is written as promised when it is not zero. -/
theorem encodes_of_pos {target : UInt32} (positive : 0 < target.toNat) : Encodes target := by
  have isLimit := limit_eq
  constructor
  · intro small
    have bound : target.toNat < limit := by omega
    exact ⟨form target.toNat, by rw [encode_eq positive, if_pos bound], shortest_form bound,
      fun rest => decode_form bound rest⟩
  · intro large
    exact ⟨errorEncodeLength, by rw [encode_eq positive, if_neg (by omega)]⟩

/-- Zero is written without any octet, which is no form of a number. -/
theorem not_encodes_zero : ¬ Encodes 0 := by
  intro encodes
  obtain ⟨used, written, ⟨whole, _, _⟩, _⟩ := encodes.written (by decide)
  have nothing : encode 0 = .ok [] := rfl
  rw [nothing, Outcome.ok.injEq] at written
  have positive := whole.length_pos
  rw [← written] at positive
  cases positive

/-- The codec keeps its promises for every number but zero, and its decoder never overflows
and takes at most four octets of any buffer. -/
theorem codec_iff (target : UInt32) (buffer : Bytes) :
    (Encodes target ↔ target ≠ 0) ∧
      ∃ outcome used left, decodeChecked buffer = some (outcome, left) ∧
        buffer = used ++ left ∧ used.length ≤ 4 ∧
        decode buffer = outcome >>= fun n => .ok (n, left) := by
  constructor
  · constructor
    · rintro encodes rfl
      exact not_encodes_zero encodes
    · intro nonzero
      apply encodes_of_pos
      apply Nat.pos_of_ne_zero
      intro zero
      exact nonzero (UInt32.toNat_inj.mp zero)
  · exact @decodeLoopChecked_eq 3 1 0 rfl Nat.one_pos buffer

/-- Zero decodes from no octets that the encoder writes for it. -/
theorem codec_fails_for_zero : encode 0 = .ok [] ∧ ¬ ∀ target, Encodes target :=
  ⟨rfl, fun encodes => not_encodes_zero (encodes 0)⟩

end RemainingLength
end Sipusu.Protocol.V5
