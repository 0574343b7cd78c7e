import Sipusu.Foundation.Reader

/-!
# Layouts of packets

A field is given by the octets that make it up and by the octets that break off inside
it. `Reads` says that a reader returns on the first and aborts on the second, and
nowhere else; its rules follow the way readers are composed.
-/

namespace Sipusu.Foundation

/-- A part of a packet. `cut` is about all octets that are left, `whole` about those of
the field. -/
structure Field where
  whole : Bytes → Prop
  cut : Bytes → Prop

namespace Field

/-- A fixed number of octets. -/
def octets (count : Nat) : Field where
  whole used := used.length = count
  cut buffer := buffer.length < count

/-- No octets at all. -/
def nothing : Field where
  whole used := used = []
  cut _ := False

/-- No octets are accepted. -/
def refused : Field where
  whole _ := False
  cut _ := False

/-- One field behind another. -/
def andThen (first second : Field) : Field where
  whole used := ∃ front back, used = front ++ back ∧ first.whole front ∧ second.whole back
  cut buffer := first.cut buffer ∨
    ∃ front back, buffer = front ++ back ∧ first.whole front ∧ second.cut back

/-- Several fields in a row. -/
def all : List Field → Field
  | [] => nothing
  | first :: rest => first.andThen (all rest)

/-- A field whose octets hold a value, and behind it one that depends on the value. -/
def dependent {α : Type} (holds : α → Bytes → Prop) (cut : Bytes → Prop) (next : α → Field) :
    Field where
  whole used := ∃ value front back, used = front ++ back ∧ holds value front ∧
    (next value).whole back
  cut buffer := cut buffer ∨
    ∃ value front back, buffer = front ++ back ∧ holds value front ∧ (next value).cut back

/-- An octet, and behind it a field that depends on the octet. -/
def octet (next : UInt8 → Field) : Field :=
  dependent (fun octet used => used = [octet]) (fun buffer => buffer = []) next

@[simp] theorem not_whole_octet_nil (next : UInt8 → Field) : ¬ (octet next).whole [] := by
  rintro ⟨value, front, back, split, rfl, _⟩
  cases split

/-- A field that is accepted under a condition. -/
def provided (condition : Prop) (field : Field) : Field where
  whole used := condition ∧ field.whole used
  cut buffer := condition ∧ field.cut buffer

/-- A given number of octets with contents of their own. -/
def block (count : Nat) (contents : Field) : Field where
  whole used := used.length = count ∧ contents.whole used
  cut buffer := buffer.length < count ∨ contents.cut (buffer.take count)

/-- A block that is refused when the buffer is shorter than it. -/
def checkedBlock (count : Nat) (contents : Field) : Field where
  whole used := used.length = count ∧ contents.whole used
  cut buffer := count ≤ buffer.length ∧ contents.cut (buffer.take count)

/-- Octets that are whole items, one behind the other. -/
inductive Items (item : Field) : Bytes → Prop where
  | nil : Items item []
  | cons {front back : Bytes} (first : item.whole front) (rest : Items item back) :
      Items item (front ++ back)

/-- As many items as there are octets for. -/
def many (item : Field) : Field where
  whole := Items item
  cut buffer := ∃ front tail, buffer = front ++ tail ∧ tail ≠ [] ∧ Items item front ∧ item.cut tail

end Field

namespace Reader

variable {ε α β : Type}

/-- `reader` returns on octets that start with the field and aborts on octets that break
off inside it. -/
structure Reads (reader : Reader ε α) (field : Field) : Prop where
  returns : ∀ buffer rest, (∃ value, reader buffer = .ok (value, rest)) ↔
    ∃ used, buffer = used ++ rest ∧ field.whole used
  aborts : ∀ buffer, reader buffer = .panic ↔ field.cut buffer

/-- `Reads` for a field whose value matters to what follows. -/
structure Yields (reader : Reader ε α) (holds : α → Bytes → Prop) (cut : Bytes → Prop) :
    Prop where
  returns : ∀ buffer value rest, reader buffer = .ok (value, rest) ↔
    ∃ used, buffer = used ++ rest ∧ holds value used
  aborts : ∀ buffer, reader buffer = .panic ↔ cut buffer

/-- `Reads` for a reader of a whole buffer: what it leaves does not matter. -/
structure Fills (reader : Reader ε α) (field : Field) : Prop where
  returns : ∀ buffer, (∃ result, reader buffer = .ok result) ↔ field.whole buffer
  aborts : ∀ buffer, reader buffer = .panic ↔ field.cut buffer

/-- A sequence aborts when its first half does, or its second half on what the first
leaves. -/
theorem bind_eq_panic {reader : Reader ε α} {next : α → Reader ε β} {buffer : Bytes} :
    (reader >>= next) buffer = .panic ↔ reader buffer = .panic ∨
      ∃ value rest, reader buffer = .ok (value, rest) ∧ next value rest = .panic := by
  rw [bind_apply]
  cases reader buffer with
  | ok result => simp [Prod.ext_iff]
  | err error => simp
  | panic => simp

theorem bind_assoc {γ : Type} (reader : Reader ε α) (next : α → Reader ε β)
    (last : β → Reader ε γ) :
    reader >>= next >>= last = reader >>= fun value => next value >>= last := by
  funext buffer
  simp only [bind_apply]
  cases reader buffer <;> rfl

theorem bind_eq_ok {reader : Reader ε α} {next : α → Reader ε β} {buffer : Bytes}
    {result : β × Bytes} :
    (reader >>= next) buffer = .ok result ↔
      ∃ value rest, reader buffer = .ok (value, rest) ∧ next value rest = .ok result := by
  rw [bind_apply, Outcome.bind_eq_ok, Prod.exists]

section Values

variable {reader : Reader ε α} {holds : α → Bytes → Prop} {cut : Bytes → Prop}

/-- A field of which only the extent matters. -/
theorem Yields.reads (yields : Yields reader holds cut) {field : Field}
    (whole : ∀ used, field.whole used ↔ ∃ value, holds value used)
    (short : ∀ buffer, field.cut buffer ↔ cut buffer) : Reads reader field where
  returns buffer rest := by
    simp only [yields.returns, whole]
    constructor
    · rintro ⟨value, used, split, holds⟩
      exact ⟨used, split, value, holds⟩
    · rintro ⟨used, split, value, holds⟩
      exact ⟨value, used, split, holds⟩
  aborts buffer := (yields.aborts buffer).trans (short buffer).symm

/-- What follows may depend on the value. -/
theorem Yields.bind (yields : Yields reader holds cut) {next : α → Reader ε β}
    {layout : α → Field} (reads : ∀ value, Reads (next value) (layout value)) :
    Reads (reader >>= next) (.dependent holds cut layout) where
  returns buffer rest := by
    simp only [bind_eq_ok, yields.returns]
    constructor
    · rintro ⟨result, value, middle, ⟨front, rfl, first⟩, second⟩
      obtain ⟨back, rfl, whole⟩ := ((reads value).returns middle rest).mp ⟨result, second⟩
      exact ⟨front ++ back, by rw [List.append_assoc], value, front, back, rfl, first, whole⟩
    · rintro ⟨used, rfl, value, front, back, rfl, first, whole⟩
      obtain ⟨result, second⟩ := ((reads value).returns (back ++ rest) rest).mpr ⟨back, rfl, whole⟩
      exact ⟨result, value, back ++ rest, ⟨front, by rw [List.append_assoc], first⟩, second⟩
  aborts buffer := by
    rw [bind_eq_panic, yields.aborts]
    refine or_congr Iff.rfl ?_
    constructor
    · rintro ⟨value, rest, first, second⟩
      obtain ⟨front, split, first⟩ := (yields.returns buffer value rest).mp first
      exact ⟨value, front, rest, split, first, ((reads value).aborts rest).mp second⟩
    · rintro ⟨value, front, back, split, first, second⟩
      exact ⟨value, back, (yields.returns buffer value back).mpr ⟨front, split, first⟩,
        ((reads value).aborts back).mpr second⟩

/-- A value that is compared with the only one accepted. -/
theorem Yields.expect (yields : Yields reader holds cut) {expected : α}
    [∀ value, Decidable (value = expected)] {error : ε} {next : α → Reader ε β} {field rest : Field}
    (whole : ∀ used, field.whole used ↔ holds expected used)
    (short : ∀ buffer, field.cut buffer ↔ cut buffer) (reads : Reads (next expected) rest) :
    Reads (reader >>= fun value => ensure (value = expected) error >>= fun _ => next value)
      (field.andThen rest) where
  returns buffer left := by
    simp only [bind_eq_ok, yields.returns, ensure_eq_ok]
    constructor
    · rintro ⟨result, _, middle, ⟨front, rfl, first⟩, _, _, ⟨rfl, rfl⟩, second⟩
      obtain ⟨back, rfl, backWhole⟩ := (reads.returns middle left).mp ⟨result, second⟩
      exact ⟨front ++ back, by rw [List.append_assoc], front, back, rfl, (whole front).mpr first,
        backWhole⟩
    · rintro ⟨_, rfl, front, back, rfl, first, backWhole⟩
      obtain ⟨result, second⟩ := (reads.returns (back ++ left) left).mpr ⟨back, rfl, backWhole⟩
      exact ⟨result, expected, back ++ left, ⟨front, by rw [List.append_assoc], (whole front).mp first⟩,
        (), back ++ left, ⟨rfl, rfl⟩, second⟩
  aborts buffer := by
    rw [bind_eq_panic, yields.aborts]
    refine or_congr (short buffer).symm ?_
    constructor
    · rintro ⟨value, back, first, second⟩
      obtain ⟨front, split, first⟩ := (yields.returns buffer value back).mp first
      by_cases same : value = expected
      · subst same
        rw [bind_apply, ensure_apply, if_pos rfl] at second
        exact ⟨front, back, split, (whole front).mpr first, (reads.aborts back).mp second⟩
      · rw [bind_apply, ensure_apply, if_neg same] at second
        cases second
    · rintro ⟨front, back, split, first, second⟩
      refine ⟨expected, back, (yields.returns buffer expected back).mpr
        ⟨front, split, (whole front).mp first⟩, ?_⟩
      rw [bind_apply, ensure_apply, if_pos rfl]
      exact (reads.aborts back).mpr second

theorem Yields.mapErr {ε' : Type} (yields : Yields reader holds cut) (rename : ε → ε') :
    Yields (reader.mapErr rename) holds cut where
  returns buffer value rest := by
    rw [mapErr_apply, Outcome.mapErr_eq_ok]
    exact yields.returns buffer value rest
  aborts buffer := by
    rw [mapErr_apply, Outcome.mapErr_eq_panic]
    exact yields.aborts buffer

theorem Yields.splitTo (count : Nat) :
    Yields (Reader.splitTo count : Reader ε Bytes)
      (fun block used => used = block ∧ block.length = count) (fun buffer => buffer.length < count) where
  returns buffer block rest := by
    constructor
    · exact fun read => Consumes.splitTo count read
    · rintro ⟨_, rfl, rfl, length⟩
      exact splitTo_of_length_eq length rest
  aborts buffer := by
    by_cases enough : count ≤ buffer.length
    · simp [Reader.splitTo, enough]
    · simp [Reader.splitTo, enough, Nat.not_le.mp enough]

theorem Yields.getU16 : Yields (Reader.getU16 : Reader ε UInt16)
    (fun value used => used = be16 value) (fun buffer => buffer.length < 2) where
  returns buffer value rest := by
    constructor
    · exact fun read => Consumes.getU16 read
    · rintro ⟨_, rfl, rfl⟩
      exact getU16_be16 value rest
  aborts buffer := by
    match buffer with
    | [] | [_] | _ :: _ :: _ => simp [Reader.getU16]

theorem Yields.getU8 : Yields (Reader.getU8 : Reader ε UInt8) (fun octet used => used = [octet])
    (fun buffer => buffer = []) where
  returns buffer value rest := by simp [getU8_eq_ok]
  aborts buffer := by cases buffer <;> simp

end Values

section Rules

variable {reader : Reader ε α} {field rest : Field}

/-- An octet that what follows depends on. -/
theorem Reads.octet {next : UInt8 → Reader ε α} {layout : UInt8 → Field}
    (reads : ∀ octet, Reads (next octet) (layout octet)) :
    Reads (getU8 >>= next) (.octet layout) :=
  Yields.getU8.bind reads

theorem Reads.pure (value : α) : Reads (Pure.pure value : Reader ε α) .nothing where
  returns buffer rest := by
    simp only [pure_apply, Outcome.ok.injEq, Prod.mk.injEq, Field.nothing]
    constructor
    · rintro ⟨_, _, rfl⟩
      exact ⟨[], rfl, rfl⟩
    · rintro ⟨_, rfl, rfl⟩
      exact ⟨value, rfl, rfl⟩
  aborts buffer := by simp [Field.nothing]

theorem Reads.fail (error : ε) : Reads (Reader.fail error : Reader ε α) .refused where
  returns buffer rest := by simp [Field.refused]
  aborts buffer := by simp [Field.refused]

theorem Reads.consumes (reads : Reads reader field) :
    Consumes reader fun _ used => field.whole used := by
  intro buffer value rest read
  exact (reads.returns buffer rest).mp ⟨value, read⟩

/-- What follows reads the same field after every value. -/
theorem Reads.bind (reads : Reads reader field) {next : α → Reader ε β}
    (continues : ∀ value, Reads (next value) rest) : Reads (reader >>= next) (field.andThen rest) where
  returns buffer left := by
    simp only [bind_eq_ok]
    constructor
    · rintro ⟨result, value, middle, first, second⟩
      obtain ⟨front, rfl, frontWhole⟩ := (reads.returns buffer middle).mp ⟨value, first⟩
      obtain ⟨back, rfl, backWhole⟩ := ((continues value).returns middle left).mp ⟨result, second⟩
      exact ⟨front ++ back, by rw [List.append_assoc], front, back, rfl, frontWhole, backWhole⟩
    · rintro ⟨_, rfl, front, back, rfl, frontWhole, backWhole⟩
      obtain ⟨value, first⟩ := (reads.returns (front ++ back ++ left) (back ++ left)).mpr
        ⟨front, by rw [List.append_assoc], frontWhole⟩
      obtain ⟨result, second⟩ := ((continues value).returns (back ++ left) left).mpr
        ⟨back, rfl, backWhole⟩
      exact ⟨result, value, back ++ left, first, second⟩
  aborts buffer := by
    rw [bind_eq_panic, reads.aborts]
    refine or_congr Iff.rfl ?_
    constructor
    · rintro ⟨value, back, first, second⟩
      obtain ⟨front, split, whole⟩ := (reads.returns buffer back).mp ⟨value, first⟩
      exact ⟨front, back, split, whole, ((continues value).aborts back).mp second⟩
    · rintro ⟨front, back, split, whole, second⟩
      obtain ⟨value, first⟩ := (reads.returns buffer back).mpr ⟨front, split, whole⟩
      exact ⟨value, back, first, ((continues value).aborts back).mpr second⟩

/-- Applying a function to the result reads nothing more. -/
theorem Reads.map (reads : Reads reader field) (f : α → β) :
    Reads (reader >>= fun value => Pure.pure (f value)) field where
  returns buffer left := by
    rw [← reads.returns]
    simp only [bind_eq_ok, pure_apply, Outcome.ok.injEq, Prod.mk.injEq]
    constructor
    · rintro ⟨_, value, _, first, _, rfl⟩
      exact ⟨value, first⟩
    · rintro ⟨value, first⟩
      exact ⟨f value, value, left, first, rfl, rfl⟩
  aborts buffer := by
    rw [bind_eq_panic, reads.aborts]
    simp

/-- A check on what has been read. -/
theorem Reads.ensure {condition : Prop} [Decidable condition] {error : ε}
    {next : Unit → Reader ε α} (reads : Reads (next ()) field) :
    Reads (Reader.ensure condition error >>= next) (.provided condition field) where
  returns buffer left := by
    by_cases holds : condition
    · simpa [Field.provided, holds] using reads.returns buffer left
    · simp [Field.provided, holds]
  aborts buffer := by
    by_cases holds : condition
    · simpa [Field.provided, holds] using reads.aborts buffer
    · simp [Field.provided, holds]

/-- A value that what has been read must have. -/
theorem Reads.ofOption {error : ε} {found : Option α} {next : α → Reader ε β}
    (reads : ∀ value, Reads (next value) field) :
    Reads (Reader.ofOption error found >>= next) (.provided (found.isSome = true) field) := by
  cases found with
  | none => exact ⟨by simp [Field.provided], by simp [Field.provided]⟩
  | some value =>
    exact ⟨by simpa [Field.provided] using (reads value).returns,
      by simpa [Field.provided] using (reads value).aborts⟩

theorem Reads.toVec : Reads (Reader.toVec : Reader ε Bytes) .nothing where
  returns buffer left := by
    simp only [toVec_apply, Outcome.ok.injEq, Prod.mk.injEq, Field.nothing]
    constructor
    · rintro ⟨_, _, rfl⟩
      exact ⟨[], rfl, rfl⟩
    · rintro ⟨_, rfl, rfl⟩
      exact ⟨left, rfl, rfl⟩
  aborts buffer := by simp [Field.nothing]

theorem Reads.ite {condition : Prop} [Decidable condition] {other : Reader ε α}
    {otherwise : Field} (reads : condition → Reads reader field)
    (otherReads : ¬ condition → Reads other otherwise) :
    Reads (if condition then reader else other) (if condition then field else otherwise) := by
  by_cases holds : condition
  · rw [if_pos holds, if_pos holds]
    exact reads holds
  · rw [if_neg holds, if_neg holds]
    exact otherReads holds

theorem Reads.getU8 : Reads (Reader.getU8 : Reader ε UInt8) (.octets 1) := by
  refine Yields.getU8.reads ?_ ?_
  · intro used
    exact List.length_eq_one_iff
  · intro buffer
    simp [Field.octets]

theorem Reads.getU16 : Reads (Reader.getU16 : Reader ε UInt16) (.octets 2) := by
  refine Yields.getU16.reads ?_ fun buffer => Iff.rfl
  intro used
  constructor
  · intro length
    match used, length with
    | [high, low], _ => exact ⟨_, (be16_combine high low).symm⟩
  · rintro ⟨value, rfl⟩
    exact length_be16 value

theorem Reads.getU32 : Reads (Reader.getU32 : Reader ε UInt32) (.octets 4) where
  returns buffer rest := by
    constructor
    · rintro ⟨value, read⟩
      obtain ⟨used, split, rfl⟩ := Consumes.getU32 read
      exact ⟨be32 value, split, rfl⟩
    · rintro ⟨used, rfl, length⟩
      match used with
      | [_, _, _, _] => exact ⟨_, rfl⟩
  aborts buffer := by
    match buffer with
    | [] | [_] | [_, _] | [_, _, _] | _ :: _ :: _ :: _ :: _ => simp [Reader.getU32, Field.octets]

end Rules

section Blocks

variable {reader : Reader ε α} {field rest : Field}

/-- A prefix, and then all that is left. -/
theorem Reads.fills (reads : Reads reader field) {next : α → Reader ε β}
    (continues : ∀ value, Fills (next value) rest) : Fills (reader >>= next) (field.andThen rest) where
  returns buffer := by
    simp only [bind_eq_ok]
    constructor
    · rintro ⟨result, value, back, first, second⟩
      obtain ⟨front, rfl, whole⟩ := (reads.returns buffer back).mp ⟨value, first⟩
      exact ⟨front, back, rfl, whole, ((continues value).returns back).mp ⟨result, second⟩⟩
    · rintro ⟨front, back, rfl, whole, backWhole⟩
      obtain ⟨value, first⟩ := (reads.returns (front ++ back) back).mpr ⟨front, rfl, whole⟩
      obtain ⟨result, second⟩ := ((continues value).returns back).mpr backWhole
      exact ⟨result, value, back, first, second⟩
  aborts buffer := by
    rw [bind_eq_panic, reads.aborts]
    refine or_congr Iff.rfl ?_
    constructor
    · rintro ⟨value, back, first, second⟩
      obtain ⟨front, split, whole⟩ := (reads.returns buffer back).mp ⟨value, first⟩
      exact ⟨front, back, split, whole, ((continues value).aborts back).mp second⟩
    · rintro ⟨front, back, split, whole, second⟩
      obtain ⟨value, first⟩ := (reads.returns buffer back).mpr ⟨front, split, whole⟩
      exact ⟨value, back, first, ((continues value).aborts back).mpr second⟩

theorem Fills.map (fills : Fills reader field) (f : α → β) :
    Fills (reader >>= fun value => Pure.pure (f value)) field where
  returns buffer := by
    rw [← fills.returns]
    simp only [bind_eq_ok, pure_apply, Outcome.ok.injEq]
    constructor
    · rintro ⟨_, value, left, first, _⟩
      exact ⟨(value, left), first⟩
    · rintro ⟨⟨value, left⟩, first⟩
      exact ⟨(f value, left), value, left, first, rfl⟩
  aborts buffer := by
    rw [bind_eq_panic, fills.aborts]
    simp

/-- A block that is split off and read on its own. -/
theorem Fills.block (fills : Fills reader field) (count : Nat) :
    Reads (splitTo count >>= fun own => within own reader) (.block count field) where
  returns buffer left := by
    simp only [bind_eq_ok, within_apply, Outcome.bind_eq_ok, Outcome.ok.injEq, Prod.mk.injEq]
    constructor
    · rintro ⟨value, own, _, split, result, read, _, rfl⟩
      obtain ⟨used, rfl, rfl, length⟩ := Consumes.splitTo count split
      exact ⟨used, rfl, length, (fills.returns used).mp ⟨result, read⟩⟩
    · rintro ⟨used, rfl, length, whole⟩
      obtain ⟨result, read⟩ := (fills.returns used).mpr whole
      exact ⟨result.1, used, left, splitTo_of_length_eq length left, result, read, rfl, rfl⟩
  aborts buffer := by
    rw [bind_eq_panic]
    by_cases enough : count ≤ buffer.length
    · have short : ¬ buffer.length < count := Nat.not_lt.mpr enough
      simp only [splitTo, if_pos enough, reduceCtorEq, false_or, Outcome.ok.injEq, Prod.mk.injEq,
        Field.block, short, ← fills.aborts]
      constructor
      · rintro ⟨_, _, ⟨rfl, rfl⟩, aborted⟩
        exact within_eq_panic.mp aborted
      · intro aborted
        exact ⟨_, _, ⟨rfl, rfl⟩, within_eq_panic.mpr aborted⟩
    · simp [splitTo, enough, Field.block, Nat.not_le.mp enough]

/-- A block that is only split off when the buffer holds it. -/
theorem Fills.checkedBlock (fills : Fills reader field) (count : Nat) (error : ε) :
    Reads (remaining >>= fun available => ensure (count ≤ available) error >>= fun _ =>
      splitTo count >>= fun own => within own reader) (.checkedBlock count field) where
  returns buffer left := by
    have inner := (fills.block count).returns buffer left
    rw [bind_apply, remaining_apply, Outcome.ok_bind, bind_apply, ensure_apply]
    by_cases enough : count ≤ buffer.length
    · rw [if_pos enough, Outcome.ok_bind]
      exact inner
    · rw [if_neg enough]
      simp only [Outcome.err_bind, reduceCtorEq, exists_false, false_iff]
      rintro ⟨used, rfl, rfl, _⟩
      exact enough (by simp)
  aborts buffer := by
    have inner := (fills.block count).aborts buffer
    rw [bind_apply, remaining_apply, Outcome.ok_bind, bind_apply, ensure_apply]
    by_cases enough : count ≤ buffer.length
    · rw [if_pos enough, Outcome.ok_bind, inner]
      simp [Field.block, Field.checkedBlock, enough, Nat.not_lt.mpr enough]
    · simp [Field.checkedBlock, enough]

/-- A body that reads an item of at least one octet shrinks the buffer. -/
theorem shrinks_of_reads {body : α → Reader ε α} {item : Field}
    (reads : ∀ state, Reads (body state) item) (nonempty : ¬ item.whole []) : Shrinks body := by
  intro state buffer next rest _ turn
  obtain ⟨used, rfl, whole⟩ := ((reads state).returns buffer rest).mp ⟨next, turn⟩
  have taken : used ≠ [] := by
    rintro rfl
    exact nonempty whole
  have positive := List.length_pos_iff.mpr taken
  rw [List.length_append]
  omega

section Loops

variable {body : α → Reader ε α} {item : Field} (reads : ∀ state, Reads (body state) item)
  (nonempty : ¬ item.whole [])
include reads nonempty

/-- A loop returns when the buffer is whole items. -/
theorem whileNonempty_returns_iff (state : α) (buffer : Bytes) :
    (∃ result, whileNonempty body state buffer = .ok result) ↔ item.Items buffer := by
  have shrinks : Shrinks body := shrinks_of_reads reads nonempty
  constructor
  · rintro ⟨⟨final, left⟩, result⟩
    refine whileNonempty_induct shrinks (motive := fun _ buffer => Field.Items item buffer)
      .nil ?_ result
    intro state buffer next rest turn items
    obtain ⟨used, rfl, whole⟩ := ((reads state).returns buffer rest).mp ⟨next, turn⟩
    exact .cons whole items
  · intro items
    induction items generalizing state with
    | nil => exact ⟨(state, []), whileNonempty_nil state⟩
    | @cons front back first items inductionHypothesis =>
      obtain ⟨next, turn⟩ := ((reads state).returns (front ++ back) back).mpr ⟨front, rfl, first⟩
      obtain ⟨result, continued⟩ := inductionHypothesis next
      cases whole : front ++ back with
      | nil => exact ⟨(state, []), whileNonempty_nil state⟩
      | cons byte tail =>
        rw [whole] at turn
        refine ⟨result, ?_⟩
        rw [whileNonempty_cons shrinks, turn]
        exact continued

/-- Where a loop aborts, an item is cut behind whole ones. -/
theorem cut_of_whileNonempty {state : α} {buffer : Bytes}
    (aborted : whileNonempty body state buffer = .panic) : (Field.many item).cut buffer := by
  have shrinks : Shrinks body := shrinks_of_reads reads nonempty
  induction size : buffer.length using Nat.strongRecOn generalizing state buffer with
  | ind size inductionHypothesis =>
    match buffer with
    | [] => cases aborted
    | byte :: tail =>
      rw [whileNonempty_cons shrinks] at aborted
      cases turn : body state (byte :: tail) with
      | ok result =>
        rw [turn] at aborted
        have shorter := shrinks (List.cons_ne_nil byte tail) turn
        obtain ⟨used, split, whole⟩ :=
          ((reads state).returns (byte :: tail) result.2).mp ⟨result.1, turn⟩
        obtain ⟨front, left, same, more, items, cut⟩ :=
          inductionHypothesis result.2.length (by omega) aborted rfl
        exact ⟨used ++ front, left, by rw [split, same, List.append_assoc], more,
          .cons whole items, cut⟩
      | err error =>
        rw [turn] at aborted
        cases aborted
      | panic =>
        exact ⟨[], byte :: tail, rfl, List.cons_ne_nil byte tail, .nil,
          ((reads state).aborts _).mp turn⟩

theorem whileNonempty_eq_panic_of_cut {front tail : Bytes} (items : item.Items front)
    (more : tail ≠ []) (cut : item.cut tail) (state : α) :
    whileNonempty body state (front ++ tail) = .panic := by
  have shrinks : Shrinks body := shrinks_of_reads reads nonempty
  induction items generalizing state with
  | nil =>
    obtain ⟨byte, rest, rfl⟩ := List.exists_cons_of_ne_nil more
    rw [List.nil_append, whileNonempty_cons shrinks, ((reads state).aborts _).mpr cut]
    rfl
  | @cons front back first items inductionHypothesis =>
    obtain ⟨next, turn⟩ := ((reads state).returns (front ++ back ++ tail) (back ++ tail)).mpr
      ⟨front, by rw [List.append_assoc], first⟩
    have continued := inductionHypothesis next
    cases whole : front ++ back ++ tail with
    | nil =>
      rw [List.append_eq_nil_iff] at whole
      exact absurd whole.2 more
    | cons byte rest =>
      rw [whole] at turn
      rw [whileNonempty_cons shrinks, turn]
      exact continued

/-- A loop reads items to the end of the buffer. -/
theorem Reads.many (state : α) : Fills (whileNonempty body state) (.many item) where
  returns := whileNonempty_returns_iff reads nonempty state
  aborts buffer := by
    constructor
    · exact cut_of_whileNonempty reads nonempty
    · rintro ⟨front, tail, rfl, more, items, cut⟩
      exact whileNonempty_eq_panic_of_cut reads nonempty items more cut state

end Loops

end Blocks

end Reader
end Sipusu.Foundation
