import Sipusu.Foundation.Layout
import Sipusu.Protocol.V5

/-!
# Fields of the version 5 packets

The fields that the readers of `src/protocol/v5/mod.rs` read. A string or a block that
claims more octets than there are is refused; a length of which an octet is missing
aborts.
-/

namespace Sipusu.Protocol.V5

open Sipusu.Foundation Sipusu.Foundation.Reader

namespace RemainingLength

/-- While a further octet is allowed, the loop goes on behind one with its high bit set. -/
theorem decodeLoop_of_high {extra multiplier : Nat} {octet : UInt8}
    (room : multiplier * 128 ^ (extra + 1) = 128 ^ 3) (high : 128 ≤ octet.toNat) (value : Nat)
    (tail : Bytes) :
    multiplier * 128 * 128 ^ extra = 128 ^ 3 ∧
      decodeLoop multiplier value (octet :: tail) =
        decodeLoop (multiplier * 128) (value + octet.toNat % 128 * multiplier) tail := by
  have nextRoom : multiplier * 128 * 128 ^ extra = 128 ^ 3 := by
    rw [← room, Nat.pow_succ, Nat.mul_comm (128 ^ extra), Nat.mul_assoc]
  have power : 0 < 128 ^ extra := Nat.pow_pos (by omega)
  have step := Nat.le_mul_of_pos_right (multiplier * 128) power
  have more : ¬ octet &&& 128 = 0 := by
    rw [Varint.and_high_eq_zero_iff]
    omega
  exact ⟨nextRoom, by rw [decodeLoop_cons, if_neg more, if_neg (by omega), Varint.toNat_and_low]⟩

/-- The loop refuses a fifth octet. -/
theorem decodeLoop_of_last {multiplier : Nat} {octet : UInt8} (room : multiplier * 128 ^ 0 = 128 ^ 3)
    (high : 128 ≤ octet.toNat) (value : Nat) (tail : Bytes) :
    decodeLoop multiplier value (octet :: tail) = .err malformedRemainingLength := by
  have more : ¬ octet &&& 128 = 0 := by
    rw [Varint.and_high_eq_zero_iff]
    omega
  rw [decodeLoop_cons, if_neg more, if_pos (by omega)]

theorem decodeLoop_of_low {octet : UInt8} (low : octet.toNat < 128) (multiplier value : Nat)
    (tail : Bytes) :
    decodeLoop multiplier value (octet :: tail) =
      .ok (value + octet.toNat % 128 * multiplier, tail) := by
  rw [decodeLoop_cons, if_pos ((Varint.and_high_eq_zero_iff octet).mpr low), Varint.toNat_and_low]

theorem decodeLoop_eq_ok {extra multiplier value result : Nat} {buffer rest : Bytes}
    (room : multiplier * 128 ^ extra = 128 ^ 3) :
    decodeLoop multiplier value buffer = .ok (result, rest) ↔
      ∃ used, buffer = used ++ rest ∧ Varint.Whole extra used ∧
        result = value + Varint.value used * multiplier := by
  induction buffer generalizing extra multiplier value with
  | nil =>
    constructor
    · exact fun read => absurd read (Outcome.panic_ne_ok _)
    · rintro ⟨used, split, ⟨front, last, rfl, _⟩, _⟩
      simp at split
  | cons octet tail inductionHypothesis =>
    by_cases low : octet.toNat < 128
    · rw [decodeLoop_of_low low]
      simp only [Outcome.ok.injEq, Prod.mk.injEq]
      constructor
      · rintro ⟨rfl, rfl⟩
        exact ⟨[octet], rfl, (Varint.whole_cons_of_low low).mpr rfl, by simp [Varint.value]⟩
      · rintro ⟨used, split, whole, rfl⟩
        obtain ⟨others, rfl, rfl⟩ := whole.starts split
        obtain rfl := (Varint.whole_cons_of_low low).mp whole
        simp [Varint.value]
    · have high : 128 ≤ octet.toNat := Nat.not_lt.mp low
      cases extra with
      | zero =>
        rw [decodeLoop_of_last room high]
        constructor
        · exact fun read => absurd read (Outcome.err_ne_ok _ _)
        · rintro ⟨used, split, whole, rfl⟩
          obtain ⟨others, rfl, _⟩ := whole.starts split
          exact absurd whole (Varint.not_whole_zero_of_high high)
      | succ extra =>
        obtain ⟨nextRoom, goesOn⟩ := decodeLoop_of_high room high value tail
        rw [goesOn, inductionHypothesis nextRoom]
        have digits (used : Bytes) : value + octet.toNat % 128 * multiplier +
            Varint.value used * (multiplier * 128) =
              value + Varint.value (octet :: used) * multiplier := by
          rw [Varint.value, Nat.add_mul, Nat.add_assoc, Nat.mul_comm multiplier, ← Nat.mul_assoc,
            Nat.mul_comm 128]
        constructor
        · rintro ⟨used, rfl, whole, rfl⟩
          exact ⟨octet :: used, rfl, (Varint.whole_cons_of_high high).mpr whole, digits used⟩
        · rintro ⟨used, split, whole, rfl⟩
          obtain ⟨others, rfl, rfl⟩ := whole.starts split
          exact ⟨others, rfl, (Varint.whole_cons_of_high high).mp whole, (digits others).symm⟩

theorem decodeLoop_eq_panic {extra multiplier value : Nat} {buffer : Bytes}
    (room : multiplier * 128 ^ extra = 128 ^ 3) :
    decodeLoop multiplier value buffer = .panic ↔ Varint.Cut extra buffer := by
  induction buffer generalizing extra multiplier value with
  | nil => exact iff_of_true rfl ⟨Nat.zero_le extra, nofun⟩
  | cons octet tail inductionHypothesis =>
    by_cases low : octet.toNat < 128
    · rw [decodeLoop_of_low low]
      exact iff_of_false nofun (Varint.not_cut_of_low low)
    · have high : 128 ≤ octet.toNat := Nat.not_lt.mp low
      cases extra with
      | zero =>
        rw [decodeLoop_of_last room high]
        exact iff_of_false nofun fun cut => absurd cut.1 (by simp)
      | succ extra =>
        obtain ⟨nextRoom, goesOn⟩ := decodeLoop_of_high room high value tail
        rw [goesOn, inductionHypothesis nextRoom, Varint.cut_cons_of_high high]

/-- One to four octets hold the number. -/
theorem decode_yields : Yields decode
    (fun n used => Varint.Whole 3 used ∧ n = Varint.value used) (Varint.Cut 3) where
  returns buffer n rest := by
    have loop := @decodeLoop_eq_ok 3 1 0 n buffer rest rfl
    simp only [Nat.zero_add, Nat.mul_one] at loop
    exact loop
  aborts buffer := decodeLoop_eq_panic rfl

end RemainingLength

namespace Fields

/-- A variable-length number, and behind it a field that depends on the number. -/
def sized (next : Nat → Field) : Field :=
  .dependent (fun n used => Varint.Whole 3 used ∧ n = Varint.value used) (Varint.Cut 3) next

/-- A variable-length number. -/
def number : Field where
  whole := Varint.Whole 3
  cut := Varint.Cut 3

/-- Octets behind their length. -/
def binary : Field where
  whole used := ∃ block : Bytes, block.length < 65536 ∧ used = lengthPrefixed block
  cut buffer := buffer.length < 2

/-- A string behind its length. -/
def text : Field where
  whole used := ∃ value : Str, value.len < 65536 ∧ used = lengthPrefixed value.bytes
  cut buffer := buffer.length < 2

/-- Two strings. -/
def textPair : Field := text.andThen text

end Fields

theorem RemainingLength.decode_reads : Reads RemainingLength.decode Fields.number := by
  refine RemainingLength.decode_yields.reads ?_ fun buffer => Iff.rfl
  intro used
  constructor
  · intro whole
    exact ⟨Varint.value used, whole, rfl⟩
  · rintro ⟨_, whole, _⟩
    exact whole

theorem RemainingLength.decode_sized {α : Type} {next : Nat → Reader String α}
    {layout : Nat → Field} (reads : ∀ n, Reads (next n) (layout n)) :
    Reads (RemainingLength.decode >>= next) (Fields.sized layout) :=
  RemainingLength.decode_yields.bind reads

theorem decodeBinaryData_eq_panic {buffer : Bytes} :
    decodeBinaryData buffer = .panic ↔ buffer.length < 2 := by
  match buffer with
  | [] | [_] => exact iff_of_true rfl (by simp)
  | high :: low :: rest =>
    refine iff_of_false ?_ (by simp)
    simp only [decodeBinaryData, bind_apply, getU16, Outcome.ok_bind, remaining_apply, ensure_apply]
    split
    · rw [Outcome.ok_bind, splitTo, if_pos ‹_›]
      exact Outcome.ok_ne_panic _
    · exact Outcome.err_ne_panic _

theorem decodeUtf8String_eq_panic {buffer : Bytes} :
    decodeUtf8String buffer = .panic ↔ buffer.length < 2 := by
  match buffer with
  | [] | [_] => exact iff_of_true rfl (by simp)
  | high :: low :: rest =>
    refine iff_of_false ?_ (by simp)
    simp only [decodeUtf8String, bind_apply, getU16, Outcome.ok_bind, remaining_apply, ensure_apply]
    split
    · rw [Outcome.ok_bind, splitTo, if_pos ‹_›, Outcome.ok_bind]
      cases Str.fromUtf8? (rest.take _) with
      | none => exact Outcome.err_ne_panic _
      | some string => exact Outcome.ok_ne_panic _
    · exact Outcome.err_ne_panic _

theorem decodeBinaryData_yields : Yields decodeBinaryData
    (fun block used => block.length < 65536 ∧ used = lengthPrefixed block)
    (fun buffer => buffer.length < 2) where
  returns buffer block rest := by
    constructor
    · intro read
      obtain ⟨used, split, fits, same⟩ := decodeBinaryData_takes read
      exact ⟨used, split, fits, same⟩
    · rintro ⟨_, rfl, fits, rfl⟩
      exact decodeBinaryData_form fits rest
  aborts buffer := decodeBinaryData_eq_panic

theorem decodeBinaryData_reads : Reads decodeBinaryData Fields.binary :=
  decodeBinaryData_yields.reads (fun _ => Iff.rfl) fun _ => Iff.rfl

theorem decodeUtf8String_yields : Yields decodeUtf8String
    (fun value used => value.len < 65536 ∧ used = lengthPrefixed value.bytes)
    (fun buffer => buffer.length < 2) where
  returns buffer value rest := by
    constructor
    · intro read
      obtain ⟨used, split, fits, same⟩ := decodeUtf8String_takes read
      exact ⟨used, split, fits, same⟩
    · rintro ⟨_, rfl, fits, rfl⟩
      exact decodeUtf8String_form fits rest
  aborts buffer := decodeUtf8String_eq_panic

theorem decodeUtf8String_reads : Reads decodeUtf8String Fields.text :=
  decodeUtf8String_yields.reads (fun _ => Iff.rfl) fun _ => Iff.rfl

theorem decodeStringPair_reads : Reads decodeStringPair Fields.textPair :=
  decodeUtf8String_reads.bind fun key => decodeUtf8String_reads.map fun value => (key, value)

end Sipusu.Protocol.V5
