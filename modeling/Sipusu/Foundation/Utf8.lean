import Sipusu.Foundation.Reader

/-!
# UTF-8 strings

`Str` is an owned string: octets together with the fact that they are
well-formed UTF-8. Its length, equality and order are those of its octets.
Cutting a string at an ASCII octet leaves strings on both sides, because no
multi-octet sequence contains one.
-/

namespace Sipusu.Foundation

namespace Utf8

/-- How much of a multi-octet sequence is still owed. The states after `E0`,
`ED`, `F0` and `F4` restrict the next octet further, which excludes overlong
forms, surrogates and values above `10FFFF`. -/
inductive State where
  | start
  | tail1
  | tail2
  | tail3
  | afterE0
  | afterED
  | afterF0
  | afterF4
deriving DecidableEq, Repr

/-- The state after one more octet, if it may stand there. -/
def State.next : State → UInt8 → Option State
  | .start, byte =>
      if byte < 0x80 then some .start
      else if byte < 0xC2 then none
      else if byte < 0xE0 then some .tail1
      else if byte = 0xE0 then some .afterE0
      else if byte = 0xED then some .afterED
      else if byte < 0xF0 then some .tail2
      else if byte = 0xF0 then some .afterF0
      else if byte < 0xF4 then some .tail3
      else if byte = 0xF4 then some .afterF4
      else none
  | .tail1, byte => if 0x80 ≤ byte ∧ byte < 0xC0 then some .start else none
  | .tail2, byte => if 0x80 ≤ byte ∧ byte < 0xC0 then some .tail1 else none
  | .tail3, byte => if 0x80 ≤ byte ∧ byte < 0xC0 then some .tail2 else none
  | .afterE0, byte => if 0xA0 ≤ byte ∧ byte < 0xC0 then some .tail1 else none
  | .afterED, byte => if 0x80 ≤ byte ∧ byte < 0xA0 then some .tail1 else none
  | .afterF0, byte => if 0x90 ≤ byte ∧ byte < 0xC0 then some .tail2 else none
  | .afterF4, byte => if 0x80 ≤ byte ∧ byte < 0x90 then some .tail2 else none

/-- Whether the octets complete the sequence begun in `state` and are
well-formed after it. -/
def accepts : State → Bytes → Bool
  | state, [] => state = .start
  | state, byte :: rest =>
      match state.next byte with
      | some state => accepts state rest
      | none => false

/-- Well-formed UTF-8. -/
def valid (bytes : Bytes) : Bool := accepts .start bytes

@[simp] theorem valid_nil : valid [] = true := rfl

private theorem State.next_ascii {state : State} {byte : UInt8} (ascii : byte < 0x80) :
    state.next byte = if state = .start then some .start else none := by
  have low : byte.toNat < 128 := by simpa [UInt8.lt_iff_toNat_lt] using ascii
  cases state <;> simp [State.next, UInt8.lt_iff_toNat_lt, UInt8.le_iff_toNat_le, low] <;> omega

/-- An ASCII octet can only stand between characters. -/
theorem accepts_append_ascii {state : State} {byte : UInt8} (ascii : byte < 0x80)
    (front back : Bytes) :
    accepts state (front ++ byte :: back) = (accepts state front && accepts .start back) := by
  induction front generalizing state with
  | nil => cases state <;> simp [accepts, State.next_ascii ascii]
  | cons head tail inductionHypothesis =>
    simp only [List.cons_append, accepts]
    cases state.next head with
    | none => rfl
    | some after => exact inductionHypothesis

theorem valid_append_ascii {byte : UInt8} (ascii : byte < 0x80) (front back : Bytes) :
    valid (front ++ byte :: back) = (valid front && valid back) :=
  accepts_append_ascii ascii front back

/-- Every piece of a well-formed string between ASCII separators is well formed. -/
theorem valid_of_mem_splitOn {byte : UInt8} (ascii : byte < 0x80) {bytes piece : Bytes}
    (wellFormed : valid bytes = true) (member : piece ∈ bytes.splitOn byte) :
    valid piece = true := by
  have pieces : ∀ {list : List Bytes}, valid ([byte].intercalate list) = true →
      ∀ item ∈ list, valid item = true := by
    intro list whole
    induction list with
    | nil => simp
    | cons first rest inductionHypothesis =>
      cases rest with
      | nil => simpa using whole
      | cons second others =>
        have shape : [byte].intercalate (first :: second :: others) =
            first ++ byte :: [byte].intercalate (second :: others) := by
          simp [List.intercalate, List.intersperse]
        rw [shape, valid_append_ascii ascii, Bool.and_eq_true] at whole
        intro item itemMember
        rcases List.mem_cons.mp itemMember with rfl | later
        · exact whole.1
        · exact inductionHypothesis whole.2 item later
  exact pieces (by rwa [List.intercalate_splitOn]) piece member

end Utf8

/-- An owned string. -/
structure Str where
  bytes : Bytes
  wellFormed : Utf8.valid bytes = true
deriving DecidableEq

namespace Str

@[ext] theorem ext {left right : Str} (bytes : left.bytes = right.bytes) : left = right := by
  cases left
  cases right
  cases bytes
  rfl

/-- `String::from_utf8`. -/
def fromUtf8? (bytes : Bytes) : Option Str :=
  if wellFormed : Utf8.valid bytes = true then some ⟨bytes, wellFormed⟩ else none

theorem fromUtf8?_eq_some {bytes : Bytes} {string : Str} :
    fromUtf8? bytes = some string ↔ bytes = string.bytes := by
  unfold fromUtf8?
  constructor
  · intro equal
    split at equal
    · cases equal
      rfl
    · cases equal
  · rintro rfl
    simp [string.wellFormed]

@[simp] theorem fromUtf8?_bytes (string : Str) : fromUtf8? string.bytes = some string :=
  fromUtf8?_eq_some.mpr rfl

/-- `str::len`, in octets. -/
def len (string : Str) : Nat := string.bytes.length

/-- The empty string. -/
def empty : Str := ⟨[], rfl⟩

instance : Inhabited Str := ⟨empty⟩

/-- `str::split` at an ASCII character. -/
def split (separator : UInt8) (ascii : separator < 0x80) (string : Str) : List Str :=
  (string.bytes.splitOn separator).attach.map fun piece =>
    ⟨piece.1, Utf8.valid_of_mem_splitOn ascii string.wellFormed piece.2⟩

@[simp] theorem map_bytes_split (separator : UInt8) (ascii : separator < 0x80) (string : Str) :
    (string.split separator ascii).map bytes = string.bytes.splitOn separator := by
  simp [split, List.map_map, Function.comp_def]

/-- There is always a piece. -/
theorem split_ne_nil (separator : UInt8) (ascii : separator < 0x80) (string : Str) :
    string.split separator ascii ≠ [] := by
  intro none
  have pieces := map_bytes_split separator ascii string
  rw [none] at pieces
  exact List.splitOn_ne_nil separator string.bytes pieces.symm

/-- Different strings have different pieces. -/
theorem split_injective (separator : UInt8) (ascii : separator < 0x80) :
    Function.Injective (split separator ascii) := by
  intro left right same
  apply Str.ext
  have pieces : left.bytes.splitOn separator = right.bytes.splitOn separator := by
    rw [← map_bytes_split separator ascii left, same, map_bytes_split]
  have leftWhole : [separator].intercalate (left.bytes.splitOn separator) = left.bytes :=
    List.intercalate_splitOn separator
  have rightWhole : [separator].intercalate (right.bytes.splitOn separator) = right.bytes :=
    List.intercalate_splitOn separator
  rw [← leftWhole, pieces, rightWhole]

end Str
end Sipusu.Foundation
