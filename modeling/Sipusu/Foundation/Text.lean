import Sipusu.Foundation.Reader

/-!
# Text as octets

Words, trimming and decimal numbers, on the UTF-8 octets of a text. Printing a
number and parsing it back are inverse below the bound of its width.
-/

namespace Sipusu.Foundation.Text

/-- The octets of an ASCII literal. -/
def ascii (literal : String) : Bytes := literal.toList.map fun c => UInt8.ofNat c.toNat

/-- `u8::is_ascii_whitespace`. -/
def isAsciiWhitespace (byte : UInt8) : Bool :=
  byte = 0x20 || byte = 0x09 || byte = 0x0A || byte = 0x0C || byte = 0x0D

/-- `str::split_ascii_whitespace`. -/
def words (text : Bytes) : List Bytes :=
  (text.splitOnP isAsciiWhitespace).filter fun word => !word.isEmpty

/-- `split_inclusive` at newlines: every line with the newline that ends it. -/
def lines : Bytes → List Bytes
  | [] => []
  | byte :: rest =>
      if byte = 0x0A then [byte] :: lines rest
      else
        match lines rest with
        | [] => [[byte]]
        | line :: others => (byte :: line) :: others

/-- The encodings of the characters with the property `White_Space`. -/
def spaces : List Bytes :=
  [[0x09], [0x0A], [0x0B], [0x0C], [0x0D], [0x20], [0xC2, 0x85], [0xC2, 0xA0], [0xE1, 0x9A, 0x80],
    [0xE2, 0x80, 0x80], [0xE2, 0x80, 0x81], [0xE2, 0x80, 0x82], [0xE2, 0x80, 0x83],
    [0xE2, 0x80, 0x84], [0xE2, 0x80, 0x85], [0xE2, 0x80, 0x86], [0xE2, 0x80, 0x87],
    [0xE2, 0x80, 0x88], [0xE2, 0x80, 0x89], [0xE2, 0x80, 0x8A], [0xE2, 0x80, 0xA8],
    [0xE2, 0x80, 0xA9], [0xE2, 0x80, 0xAF], [0xE2, 0x81, 0x9F], [0xE3, 0x80, 0x80]]

/-- The width of the listed encoding that a text starts with, and 0 if there is none. -/
def widthOf (encodings : List Bytes) (text : Bytes) : Nat :=
  ((encodings.find? fun encoding => encoding.isPrefixOf text).map List.length).getD 0

/-- Drop characters from the front while `width` finds one. -/
def strip (width : Bytes → Nat) : Nat → Bytes → Bytes
  | 0, text => text
  | fuel + 1, text => if width text = 0 then text else strip width fuel (text.drop (width text))

/-- `str::trim`. -/
def trim (text : Bytes) : Bytes :=
  let text := strip (widthOf spaces) text.length text
  (strip (widthOf (spaces.map List.reverse)) text.length text.reverse).reverse

theorem lines_append {front : Bytes} (unbroken : 0x0A ∉ front) (rest : Bytes) :
    lines (front ++ 0x0A :: rest) = (front ++ [0x0A]) :: lines rest := by
  induction front with
  | nil => rfl
  | cons byte front inductionHypothesis =>
    rw [List.mem_cons, not_or] at unbroken
    rw [List.cons_append, lines, if_neg (Ne.symm unbroken.1), inductionHypothesis unbroken.2]
    rfl

/-- A text written line by line is cut into its lines. -/
theorem lines_flatMap {α : Type} {line : α → Bytes} (records : List α)
    (unbroken : ∀ record ∈ records, 0x0A ∉ line record) :
    lines (records.flatMap fun record => line record ++ [0x0A]) =
      records.map fun record => line record ++ [0x0A] := by
  induction records with
  | nil => rfl
  | cons record rest inductionHypothesis =>
    obtain ⟨first, others⟩ := List.forall_mem_cons.mp unbroken
    rw [List.flatMap_cons, List.append_assoc, List.singleton_append, lines_append first,
      inductionHypothesis others, List.map_cons]

/-- A printing ASCII character. -/
def Graphic (byte : UInt8) : Prop := 0x21 ≤ byte ∧ byte ≤ 0x7E

instance (byte : UInt8) : Decidable (Graphic byte) := inferInstanceAs (Decidable (_ ∧ _))

/-- A text of printing characters. -/
def Printable (text : Bytes) : Prop := ∀ byte ∈ text, Graphic byte

-- Octets are also a finite type, by which these instances would not evaluate.
instance (text : Bytes) : Decidable (Printable text) := List.decidableBAll _ text

/-- A text without printing characters. -/
def Blank (text : Bytes) : Prop := text ≠ [] ∧ ∀ byte ∈ text, ¬ Graphic byte

instance (text : Bytes) : Decidable (Blank text) :=
  @instDecidableAnd _ _ inferInstance (List.decidableBAll _ text)

theorem Graphic.not_whitespace {byte : UInt8} (graphic : Graphic byte) :
    isAsciiWhitespace byte = false := by
  obtain ⟨low, _⟩ := graphic
  simp only [isAsciiWhitespace, Bool.or_eq_false_iff, decide_eq_false_iff_not]
  refine ⟨⟨⟨⟨?_, ?_⟩, ?_⟩, ?_⟩, ?_⟩ <;> rintro rfl <;> exact absurd low (by decide)

theorem Graphic.widthOf_cons {encodings : List Bytes} {byte : UInt8} (graphic : Graphic byte)
    (blank : ∀ encoding ∈ encodings, Blank encoding)
    (text : Bytes) : widthOf encodings (byte :: text) = 0 := by
  have missing : encodings.find? (fun encoding => encoding.isPrefixOf (byte :: text)) = none := by
    rw [List.find?_eq_none]
    rintro encoding member
    obtain ⟨nonempty, unprintable⟩ := blank encoding member
    obtain ⟨first, rest, rfl⟩ := List.exists_cons_of_ne_nil nonempty
    have different : first ≠ byte := by
      rintro rfl
      exact unprintable first List.mem_cons_self graphic
    simp [List.isPrefixOf, different]
  rw [widthOf, missing]
  rfl

theorem strip_of_width_zero {width : Bytes → Nat} {text : Bytes} (none : width text = 0)
    (fuel : Nat) : strip width fuel text = text := by
  cases fuel with
  | zero => rfl
  | succ fuel => simp [strip, none]

/-- Trimming takes the newline off a line that starts and ends with a printing
character. -/
theorem trim_line {line : Bytes} {first last : UInt8} (starts : line.head? = some first)
    (firstGraphic : Graphic first) (ends : line.getLast? = some last)
    (lastGraphic : Graphic last) : trim (line ++ [0x0A]) = line := by
  obtain ⟨rest, rfl⟩ : ∃ rest, line = first :: rest := by
    cases line with
    | nil => cases starts
    | cons head rest =>
      cases starts
      exact ⟨rest, rfl⟩
  obtain ⟨front, split⟩ := List.getLast?_eq_some_iff.mp ends
  have leading : widthOf spaces (first :: rest ++ [0x0A]) = 0 :=
    firstGraphic.widthOf_cons (by decide) _
  have trailing : widthOf (spaces.map List.reverse) (last :: front.reverse) = 0 :=
    lastGraphic.widthOf_cons (by decide) _
  have newline : widthOf (spaces.map List.reverse) (0x0A :: last :: front.reverse) = 1 := rfl
  have reversed : (first :: rest ++ [0x0A]).reverse = 0x0A :: last :: front.reverse := by
    rw [split]
    simp
  have length : (first :: rest ++ [0x0A]).length = (first :: rest).length + 1 := by simp
  rw [trim, strip_of_width_zero leading, length, reversed, strip, newline, if_neg Nat.one_ne_zero,
    List.drop_one, List.tail_cons, strip_of_width_zero trailing, split]
  simp

/-- The first word of a text ends at the first blank after it. -/
theorem words_append {word : Bytes} (nonempty : word ≠ []) (graphic : Printable word)
    (rest : Bytes) : words (word ++ 0x20 :: rest) = word :: words rest := by
  rw [words, List.splitOnP_append_cons_of_forall_mem
    (fun byte member => (graphic byte member).not_whitespace) 0x20 (by decide) rest]
  simp [nonempty, words]

/-- A text of printing characters is one word. -/
theorem words_single {word : Bytes} (nonempty : word ≠ [])
    (graphic : Printable word) : words word = [word] := by
  rw [words, List.splitOnP_eq_singleton fun byte member => (graphic byte member).not_whitespace]
  simp [nonempty]

section Decimal

/-- The character of a number's last digit. -/
def digit (n : Nat) : UInt8 := UInt8.ofNat (0x30 + n % 10)

/-- The digits of a number, with one unit of fuel for each. -/
def digits : Nat → Nat → Bytes
  | 0, _ => []
  | fuel + 1, n => if n < 10 then [digit n] else digits fuel (n / 10) ++ [digit n]

/-- A number in decimal. -/
def decimal (n : Nat) : Bytes := digits (n + 1) n

/-- Read the digits after a number read so far, up to a bound. -/
def readDigits (bound : Nat) (read : Nat) : Bytes → Option Nat
  | [] => some read
  | byte :: rest =>
      if 0x30 ≤ byte ∧ byte ≤ 0x39 then
        if read * 10 + (byte.toNat - 0x30) < bound then
          readDigits bound (read * 10 + (byte.toNat - 0x30)) rest
        else none
      else none

/-- `str::parse` for an unsigned type with the given number of values. -/
def parse (bound : Nat) : Bytes → Option Nat
  | [] => none
  | [0x2B] => none
  | 0x2B :: text => readDigits bound 0 text
  | text => readDigits bound 0 text

theorem digits_eq {fuel more n : Nat} (enough : n < fuel) (also : n < more) :
    digits fuel n = digits more n := by
  induction fuel generalizing more n with
  | zero => omega
  | succ fuel inductionHypothesis =>
    obtain ⟨more, rfl⟩ : ∃ turns, more = turns + 1 := ⟨more - 1, by omega⟩
    by_cases small : n < 10
    · simp [digits, small]
    · simp only [digits, small, if_false]
      have shorter : digits fuel (n / 10) = digits more (n / 10) :=
        inductionHypothesis (by omega) (by omega)
      rw [shorter]

theorem decimal_eq (n : Nat) :
    decimal n = if n < 10 then [digit n] else decimal (n / 10) ++ [digit n] := by
  by_cases small : n < 10
  · simp [decimal, digits, small]
  · rw [decimal, digits, if_neg small, if_neg small, decimal,
      digits_eq (by omega) (Nat.lt_succ_self (n / 10))]

theorem digit_toNat (n : Nat) : (digit n).toNat = 0x30 + n % 10 := by
  simp only [digit, UInt8.toNat_ofNat']
  omega

theorem digit_bounds (n : Nat) : 0x30 ≤ digit n ∧ digit n ≤ 0x39 := by
  simp only [UInt8.le_iff_toNat_le, digit_toNat, UInt8.reduceToNat]
  omega

theorem decimal_bounds (n : Nat) : ∀ byte ∈ decimal n, 0x30 ≤ byte ∧ byte ≤ 0x39 := by
  induction n using Nat.strongRecOn with
  | ind n inductionHypothesis =>
    rw [decimal_eq]
    rintro byte member
    split at member
    · rw [List.mem_singleton.mp member]
      exact digit_bounds n
    · rcases List.mem_append.mp member with earlier | isLast
      · exact inductionHypothesis (n / 10) (by omega) byte earlier
      · rw [List.mem_singleton.mp isLast]
        exact digit_bounds n

theorem decimal_printable (n : Nat) : Printable (decimal n) := by
  rintro byte member
  obtain ⟨low, high⟩ := decimal_bounds n byte member
  exact ⟨UInt8.le_trans (by decide) low, UInt8.le_trans high (by decide)⟩

theorem decimal_ne_nil (n : Nat) : decimal n ≠ [] := by
  rw [decimal_eq]
  split <;> simp

/-- A number takes no more digits than the bound it is below. -/
theorem length_decimal_le {places n : Nat} (fits : n < 10 ^ (places + 1)) :
    (decimal n).length ≤ places + 1 := by
  induction places generalizing n with
  | zero =>
    rw [decimal_eq, if_pos (by omega)]
    exact Nat.le_refl 1
  | succ places inductionHypothesis =>
    rw [decimal_eq]
    split
    · exact Nat.le_add_left 1 _
    · rw [List.length_append, List.length_singleton]
      exact Nat.succ_le_succ (inductionHypothesis (by rw [Nat.pow_succ] at fits; omega))

/-- Reading digits one block after another. -/
theorem readDigits_append (bound read : Nat) (front back : Bytes) :
    readDigits bound read (front ++ back) =
      (readDigits bound read front).bind fun read => readDigits bound read back := by
  induction front generalizing read with
  | nil => rfl
  | cons byte rest inductionHypothesis =>
    simp only [List.cons_append, readDigits]
    split
    · split
      · exact inductionHypothesis _
      · rfl
    · rfl

theorem readDigits_decimal {bound n : Nat} (fits : n < bound) :
    readDigits bound 0 (decimal n) = some n := by
  induction n using Nat.strongRecOn with
  | ind n inductionHypothesis =>
    have last : ∀ read, read * 10 + n % 10 = n → readDigits bound read [digit n] = some n := by
      intro read whole
      have value : read * 10 + ((digit n).toNat - 0x30) = n := by
        rw [digit_toNat]
        omega
      simp [readDigits, digit_bounds n, value, fits]
    rw [decimal_eq]
    split
    · exact last 0 (by omega)
    · rw [readDigits_append, inductionHypothesis (n / 10) (by omega) (by omega)]
      exact last (n / 10) (by omega)

/-- Parsing inverts printing. -/
theorem parse_decimal {bound n : Nat} (fits : n < bound) : parse bound (decimal n) = some n := by
  have noSign : ∀ rest, decimal n ≠ 0x2B :: rest := by
    rintro rest sign
    have member : 0x2B ∈ decimal n := by simp [sign]
    exact absurd (decimal_bounds n _ member).1 (by decide)
  unfold parse
  split
  · exact absurd ‹_› (decimal_ne_nil n)
  · exact absurd ‹_› (noSign _)
  · exact absurd ‹_› (noSign _)
  · exact readDigits_decimal fits

end Decimal

end Sipusu.Foundation.Text
