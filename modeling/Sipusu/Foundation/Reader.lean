import Sipusu.Foundation.Outcome

/-!
# Byte readers

A reader takes values off the front of a byte buffer. Fixed-width getters and
`splitTo` abort on a buffer shorter than they need. `Consumes` says which bytes a
successful read took; its rules follow the way readers are composed.
-/

namespace Sipusu.Foundation

/-- A sequence of octets. -/
abbrev Bytes := List UInt8

/-- The two octets of a big-endian 16-bit number. -/
def be16 (value : UInt16) : Bytes :=
  [UInt8.ofNat (value.toNat / 256), UInt8.ofNat value.toNat]

/-- The four octets of a big-endian 32-bit number. -/
def be32 (value : UInt32) : Bytes :=
  [UInt8.ofNat (value.toNat / 16777216), UInt8.ofNat (value.toNat / 65536),
    UInt8.ofNat (value.toNat / 256), UInt8.ofNat value.toNat]

@[simp] theorem length_be16 (value : UInt16) : (be16 value).length = 2 := rfl
@[simp] theorem length_be32 (value : UInt32) : (be32 value).length = 4 := rfl

/-- Writing a 16-bit number inverts combining its two octets. -/
theorem be16_combine (high low : UInt8) :
    be16 (UInt16.ofNat (high.toNat * 256 + low.toNat)) = [high, low] := by
  have highBound := high.toNat_lt
  have lowBound := low.toNat_lt
  simp only [be16, UInt16.toNat_ofNat', List.cons.injEq, and_true]
  constructor <;> apply UInt8.toNat_inj.mp <;> rw [UInt8.toNat_ofNat'] <;> omega

/-- Writing a 32-bit number inverts combining its four octets. -/
theorem be32_combine (a b c d : UInt8) :
    be32 (UInt32.ofNat (a.toNat * 16777216 + b.toNat * 65536 + c.toNat * 256 + d.toNat)) =
      [a, b, c, d] := by
  have aBound := a.toNat_lt
  have bBound := b.toNat_lt
  have cBound := c.toNat_lt
  have dBound := d.toNat_lt
  simp only [be32, UInt32.toNat_ofNat', List.cons.injEq, and_true]
  refine ⟨?_, ?_, ?_, ?_⟩ <;> apply UInt8.toNat_inj.mp <;> rw [UInt8.toNat_ofNat'] <;> omega

/-- A computation that reads from the front of a buffer. -/
def Reader (ε α : Type) := Bytes → Outcome ε (α × Bytes)

namespace Reader

variable {ε α β : Type}

instance : Monad (Reader ε) where
  pure value := fun buffer => .ok (value, buffer)
  bind reader next := fun buffer => reader buffer >>= fun result => next result.1 result.2

@[simp] theorem pure_apply (value : α) (buffer : Bytes) :
    (pure value : Reader ε α) buffer = .ok (value, buffer) := rfl

@[simp] theorem bind_apply (reader : Reader ε α) (next : α → Reader ε β) (buffer : Bytes) :
    (reader >>= next) buffer = reader buffer >>= fun result => next result.1 result.2 := rfl

/-- Refuse the input. -/
def fail (error : ε) : Reader ε α := fun _ => .err error

/-- Refuse the input unless `condition` holds. -/
def ensure (condition : Prop) [Decidable condition] (error : ε) : Reader ε Unit := fun buffer =>
  if condition then .ok ((), buffer) else .err error

/-- Rename the error of a reader. -/
def mapErr {ε' : Type} (rename : ε → ε') (reader : Reader ε α) : Reader ε' α := fun buffer =>
  (reader buffer).mapErr rename

/-- Turn a missing value into an error. -/
def ofOption (error : ε) (value : Option α) : Reader ε α := fun buffer =>
  match value with
  | some value => .ok (value, buffer)
  | none => .err error

/-- A call that does not read. -/
def lift (outcome : Outcome ε α) : Reader ε α := fun buffer =>
  outcome >>= fun value => .ok (value, buffer)

/-- The number of bytes left. -/
def remaining : Reader ε Nat := fun buffer => .ok (buffer.length, buffer)

/-- Copy what is left without consuming it. -/
def toVec : Reader ε Bytes := fun buffer => .ok (buffer, buffer)

/-- Take one octet. -/
def getU8 : Reader ε UInt8
  | byte :: rest => .ok (byte, rest)
  | [] => .panic

/-- Take a big-endian 16-bit number. -/
def getU16 : Reader ε UInt16
  | high :: low :: rest => .ok (UInt16.ofNat (high.toNat * 256 + low.toNat), rest)
  | _ => .panic

/-- Take a big-endian 32-bit number. -/
def getU32 : Reader ε UInt32
  | a :: b :: c :: d :: rest =>
      .ok (UInt32.ofNat (a.toNat * 16777216 + b.toNat * 65536 + c.toNat * 256 + d.toNat), rest)
  | _ => .panic

/-- Take the first `count` octets. -/
def splitTo (count : Nat) : Reader ε Bytes := fun buffer =>
  if count ≤ buffer.length then .ok (buffer.take count, buffer.drop count) else .panic

/-- Replace the buffer. -/
def replaceBy (own : Bytes) : Reader ε Unit := fun _ => .ok ((), own)

/-- Run a reader on a buffer of its own and drop what it leaves there. -/
def within (own : Bytes) (reader : Reader ε α) : Reader ε α := fun buffer =>
  reader own >>= fun result => .ok (result.1, buffer)

/-- Repeat `body` until the buffer is empty, at most `fuel` times. -/
def drain (body : α → Reader ε α) : Nat → α → Reader ε α
  | _, state, [] => .ok (state, [])
  | 0, _, _ :: _ => .panic
  | fuel + 1, state, buffer@(_ :: _) =>
      body state buffer >>= fun result => drain body fuel result.1 result.2

/-- `while buffer.len() != 0`: repeat `body` until the buffer is empty. -/
def whileNonempty (body : α → Reader ε α) (state : α) : Reader ε α := fun buffer =>
  drain body buffer.length state buffer

section Evaluation

@[simp] theorem ensure_apply (condition : Prop) [Decidable condition] (error : ε) (buffer : Bytes) :
    ensure condition error buffer = if condition then .ok ((), buffer) else .err error := rfl

@[simp] theorem fail_apply (error : ε) (buffer : Bytes) :
    (fail error : Reader ε α) buffer = .err error := rfl

@[simp] theorem mapErr_apply {ε' : Type} (rename : ε → ε') (reader : Reader ε α)
    (buffer : Bytes) : reader.mapErr rename buffer = (reader buffer).mapErr rename := rfl

@[simp] theorem ofOption_some (error : ε) (value : α) (buffer : Bytes) :
    ofOption error (some value) buffer = .ok (value, buffer) := rfl

@[simp] theorem ofOption_none (error : ε) (buffer : Bytes) :
    (ofOption error none : Reader ε α) buffer = .err error := rfl

@[simp] theorem lift_apply (outcome : Outcome ε α) (buffer : Bytes) :
    lift outcome buffer = outcome >>= fun value => .ok (value, buffer) := rfl

@[simp] theorem remaining_apply (buffer : Bytes) :
    (remaining : Reader ε Nat) buffer = .ok (buffer.length, buffer) := rfl

@[simp] theorem toVec_apply (buffer : Bytes) :
    (toVec : Reader ε Bytes) buffer = .ok (buffer, buffer) := rfl

@[simp] theorem getU8_nil : (getU8 : Reader ε UInt8) [] = .panic := rfl

@[simp] theorem getU8_cons (byte : UInt8) (rest : Bytes) :
    (getU8 : Reader ε UInt8) (byte :: rest) = .ok (byte, rest) := rfl

/-- Reading a 16-bit number inverts writing it. -/
@[simp] theorem getU16_be16 (value : UInt16) (rest : Bytes) :
    (getU16 : Reader ε UInt16) (be16 value ++ rest) = .ok (value, rest) := by
  have bound := value.toNat_lt
  have same : UInt16.ofNat ((UInt8.ofNat (value.toNat / 256)).toNat * 256 +
      (UInt8.ofNat value.toNat).toNat) = value := by
    apply UInt16.toNat_inj.mp
    simp only [UInt8.toNat_ofNat', UInt16.toNat_ofNat']
    omega
  simp only [be16, List.cons_append, List.nil_append, getU16, same]

/-- Reading a 32-bit number inverts writing it. -/
@[simp] theorem getU32_be32 (value : UInt32) (rest : Bytes) :
    (getU32 : Reader ε UInt32) (be32 value ++ rest) = .ok (value, rest) := by
  have bound := value.toNat_lt
  have same : UInt32.ofNat ((UInt8.ofNat (value.toNat / 16777216)).toNat * 16777216 +
      (UInt8.ofNat (value.toNat / 65536)).toNat * 65536 +
      (UInt8.ofNat (value.toNat / 256)).toNat * 256 + (UInt8.ofNat value.toNat).toNat) = value := by
    apply UInt32.toNat_inj.mp
    simp only [UInt8.toNat_ofNat', UInt32.toNat_ofNat']
    omega
  simp only [be32, List.cons_append, List.nil_append, getU32, same]

/-- Splitting at the length of a leading block returns the block. -/
@[simp] theorem splitTo_append (block rest : Bytes) :
    (splitTo block.length : Reader ε Bytes) (block ++ rest) = .ok (block, rest) := by
  simp [splitTo]

/-- `splitTo_append` for a count given as a separate number. -/
theorem splitTo_of_length_eq {block : Bytes} {count : Nat} (length : block.length = count)
    (rest : Bytes) : (splitTo count : Reader ε Bytes) (block ++ rest) = .ok (block, rest) := by
  rw [← length]
  exact splitTo_append block rest

/-- Splitting off more octets than there are aborts. -/
theorem splitTo_of_short {buffer : Bytes} {count : Nat} (short : buffer.length < count) :
    (splitTo count : Reader ε Bytes) buffer = .panic := by
  simp [splitTo, Nat.not_le.mpr short]

theorem getU8_eq_ok {buffer rest : Bytes} {byte : UInt8} :
    (getU8 : Reader ε UInt8) buffer = .ok (byte, rest) ↔ buffer = byte :: rest := by
  cases buffer <;> simp [getU8]

theorem ensure_eq_ok {condition : Prop} [Decidable condition] {error : ε} {buffer rest : Bytes}
    {value : Unit} : ensure condition error buffer = .ok (value, rest) ↔ condition ∧ buffer = rest := by
  by_cases holds : condition <;> simp [holds]

theorem ofOption_eq_ok {error : ε} {value : Option α} {result : α} {buffer rest : Bytes} :
    ofOption error value buffer = .ok (result, rest) ↔ value = some result ∧ buffer = rest := by
  cases value <;> simp [ofOption]

/-- A function applied to what a reader returns. -/
theorem map_of_ok {reader : Reader ε α} {buffer rest : Bytes} {value : α}
    (read : reader buffer = .ok (value, rest)) (f : α → β) :
    (reader >>= fun value => pure (f value)) buffer = .ok (f value, rest) := by
  rw [bind_apply, read, Outcome.ok_bind, pure_apply]

@[simp] theorem replaceBy_apply (own buffer : Bytes) :
    (replaceBy own : Reader ε Unit) buffer = .ok ((), own) := rfl

@[simp] theorem within_apply (own : Bytes) (reader : Reader ε α) (buffer : Bytes) :
    within own reader buffer = reader own >>= fun result => .ok (result.1, buffer) := rfl

theorem within_eq_panic {own buffer : Bytes} {reader : Reader ε α} :
    within own reader buffer = .panic ↔ reader own = .panic := by
  rw [within_apply]
  cases reader own <;> simp

end Evaluation

section Loops

variable {body : α → Reader ε α}

/-- A loop body that takes at least one octet of what is left whenever it returns. -/
def Shrinks (body : α → Reader ε α) : Prop :=
  ∀ {state buffer next rest}, buffer ≠ [] → body state buffer = .ok (next, rest) →
    rest.length < buffer.length

@[simp] theorem drain_nil (fuel : Nat) (state : α) : drain body fuel state [] = .ok (state, []) := by
  cases fuel <;> rfl

/-- Any fuel of at least the buffer's length gives the same result. -/
theorem drain_fuel (shrinks : Shrinks body) {fuel : Nat} {state : α} {buffer : Bytes}
    (enough : buffer.length ≤ fuel) :
    drain body fuel state buffer = drain body buffer.length state buffer := by
  induction fuel using Nat.strongRecOn generalizing state buffer with
  | ind fuel inductionHypothesis =>
    match buffer, fuel with
    | [], _ => simp
    | _ :: _, 0 => simp at enough
    | byte :: rest, fuel + 1 =>
      simp only [List.length_cons, drain]
      cases step : body state (byte :: rest) with
      | ok result =>
        have shorter : result.2.length < (byte :: rest).length :=
          shrinks (List.cons_ne_nil byte rest) step
        simp only [List.length_cons] at enough shorter
        simp only [Outcome.ok_bind]
        rw [inductionHypothesis fuel (Nat.lt_succ_self fuel) (by omega)]
        by_cases full : rest.length = fuel
        · rw [full, inductionHypothesis fuel (Nat.lt_succ_self fuel) (by omega)]
        · rw [inductionHypothesis rest.length (by omega) (by omega)]
      | err error => rfl
      | panic => rfl

@[simp] theorem whileNonempty_nil (state : α) : whileNonempty body state [] = .ok (state, []) := rfl

/-- One turn of the loop. With `whileNonempty_nil` this is the loop's own
equation, so the fuel never shows. -/
theorem whileNonempty_cons (shrinks : Shrinks body) (state : α) (byte : UInt8) (rest : Bytes) :
    whileNonempty body state (byte :: rest) =
      body state (byte :: rest) >>= fun result => whileNonempty body result.1 result.2 := by
  simp only [whileNonempty, List.length_cons, drain]
  cases step : body state (byte :: rest) with
  | ok result =>
    have shorter : result.2.length < (byte :: rest).length :=
      shrinks (List.cons_ne_nil byte rest) step
    simp only [List.length_cons] at shorter
    simp only [Outcome.ok_bind]
    exact drain_fuel shrinks (by omega)
  | err error => rfl
  | panic => rfl

/-- What the loop returns satisfies every relation that a turn extends. -/
theorem whileNonempty_induct (shrinks : Shrinks body) {motive : α → Bytes → Prop} {final : α}
    (finished : motive final [])
    (turn : ∀ {state buffer next rest}, body state buffer = .ok (next, rest) →
      motive next rest → motive state buffer)
    {state : α} {buffer rest : Bytes}
    (result : whileNonempty body state buffer = .ok (final, rest)) : motive state buffer := by
  induction size : buffer.length using Nat.strongRecOn generalizing state buffer with
  | ind size inductionHypothesis =>
    match buffer with
    | [] =>
      simp only [whileNonempty_nil, Outcome.ok.injEq, Prod.mk.injEq] at result
      rw [result.1]
      exact finished
    | byte :: tail =>
      rw [whileNonempty_cons shrinks, Outcome.bind_eq_ok] at result
      obtain ⟨⟨next, left⟩, step, continued⟩ := result
      have shorter := shrinks (List.cons_ne_nil byte tail) step
      exact turn step (inductionHypothesis left.length (by omega) continued rfl)

/-- A loop whose turns read back items goes through the items one after another. -/
theorem whileNonempty_flatMap {ι : Type} {write : ι → Bytes} {apply : α → ι → α}
    (shrinks : Shrinks body) (filled : ∀ item, write item ≠ []) {items : List ι}
    (turn : ∀ item ∈ items, ∀ state rest,
      body state (write item ++ rest) = .ok (apply state item, rest)) (state : α) :
    whileNonempty body state (items.flatMap write) = .ok (items.foldl apply state, []) := by
  induction items generalizing state with
  | nil => rfl
  | cons item items inductionHypothesis =>
    obtain ⟨first, others⟩ := List.forall_mem_cons.mp turn
    have step := first state (items.flatMap write)
    obtain ⟨byte, tail, starts⟩ := List.exists_cons_of_ne_nil (filled item)
    rw [starts, List.cons_append] at step
    rw [List.flatMap_cons, starts, List.cons_append, whileNonempty_cons shrinks, step,
      Outcome.ok_bind, List.foldl_cons]
    exact inductionHypothesis others _

end Loops

section Consumption

/-- Whenever `reader` returns a value, the octets it took satisfy `post`. -/
def Consumes (reader : Reader ε α) (post : α → Bytes → Prop) : Prop :=
  ∀ ⦃buffer value rest⦄, reader buffer = .ok (value, rest) →
    ∃ used, buffer = used ++ rest ∧ post value used

theorem Consumes.mono {reader : Reader ε α} {post weaker : α → Bytes → Prop}
    (consumes : Consumes reader post) (weaken : ∀ {value used}, post value used → weaker value used) :
    Consumes reader weaker := by
  intro buffer value rest result
  obtain ⟨used, split, holds⟩ := consumes result
  exact ⟨used, split, weaken holds⟩

theorem Consumes.pure (value : α) :
    Consumes (Pure.pure value : Reader ε α) fun result used => result = value ∧ used = [] := by
  intro buffer result rest equal
  simp only [pure_apply, Outcome.ok.injEq, Prod.mk.injEq] at equal
  exact ⟨[], by simp [equal.2], equal.1.symm, rfl⟩

/-- A sequence takes what its first half took, then what its second half took. -/
theorem Consumes.bind {reader : Reader ε α} {next : α → Reader ε β}
    {first : α → Bytes → Prop} {second : α → β → Bytes → Prop}
    (firstConsumes : Consumes reader first) (secondConsumes : ∀ value, Consumes (next value) (second value)) :
    Consumes (reader >>= next) fun result used =>
      ∃ value front back, used = front ++ back ∧ first value front ∧ second value result back := by
  intro buffer result rest equal
  rw [bind_apply, Outcome.bind_eq_ok] at equal
  obtain ⟨⟨value, middle⟩, started, continued⟩ := equal
  obtain ⟨front, frontSplit, frontHolds⟩ := firstConsumes started
  obtain ⟨back, backSplit, backHolds⟩ := secondConsumes value continued
  refine ⟨front ++ back, ?_, value, front, back, rfl, frontHolds, backHolds⟩
  simp only at backSplit
  rw [frontSplit, backSplit, List.append_assoc]

/-- What holds of the octets of the second half of a sequence holds of all of them, if more
octets in front do no harm. -/
theorem Consumes.before {reader : Reader ε α} {next : α → Reader ε β} {first : α → Bytes → Prop}
    {post : β → Bytes → Prop} (firstConsumes : Consumes reader first)
    (extends_ : ∀ {result front back}, post result back → post result (front ++ back))
    (secondConsumes : ∀ value, Consumes (next value) post) : Consumes (reader >>= next) post := by
  refine (firstConsumes.bind secondConsumes).mono ?_
  rintro result used ⟨value, front, back, rfl, _, holds⟩
  exact extends_ holds

/-- Applying a function to the result takes nothing more. -/
theorem Consumes.map {reader : Reader ε α} {post : α → Bytes → Prop}
    (consumes : Consumes reader post) (f : α → β) :
    Consumes (reader >>= fun value => Pure.pure (f value)) fun result used =>
      ∃ value, result = f value ∧ post value used := by
  refine (consumes.bind fun value => Consumes.pure (f value)).mono ?_
  rintro result used ⟨value, front, back, rfl, holds, rfl, rfl⟩
  exact ⟨value, rfl, by simpa using holds⟩

theorem Consumes.ensure (condition : Prop) [Decidable condition] (error : ε) :
    Consumes (Reader.ensure condition error) fun _ used => condition ∧ used = [] := by
  intro buffer value rest result
  obtain ⟨holds, rfl⟩ := ensure_eq_ok.mp result
  exact ⟨[], rfl, holds, rfl⟩

theorem Consumes.ofOption (error : ε) (value : Option α) :
    Consumes (Reader.ofOption error value) fun result used => value = some result ∧ used = [] := by
  intro buffer result rest equal
  obtain ⟨found, rfl⟩ := ofOption_eq_ok.mp equal
  exact ⟨[], rfl, found, rfl⟩

theorem Consumes.mapErr {ε' : Type} {rename : ε → ε'} {reader : Reader ε α}
    {post : α → Bytes → Prop} (consumes : Consumes reader post) :
    Consumes (reader.mapErr rename) post := by
  intro buffer value rest result
  exact consumes (by simpa using result)

theorem Consumes.remaining :
    Consumes (Reader.remaining : Reader ε Nat) fun _ used => used = [] := by
  intro buffer value rest result
  simp only [remaining_apply, Outcome.ok.injEq, Prod.mk.injEq] at result
  exact ⟨[], by simp [result.2], rfl⟩

theorem Consumes.getU8 :
    Consumes (Reader.getU8 : Reader ε UInt8) fun value used => used = [value] := by
  intro buffer value rest result
  exact ⟨[value], getU8_eq_ok.mp result, rfl⟩

theorem Consumes.getU16 :
    Consumes (Reader.getU16 : Reader ε UInt16) fun value used => used = be16 value := by
  intro buffer value rest result
  match buffer with
  | [] | [_] => cases result
  | high :: low :: tail =>
    simp only [Reader.getU16, Outcome.ok.injEq, Prod.mk.injEq] at result
    obtain ⟨rfl, rfl⟩ := result
    exact ⟨[high, low], rfl, (be16_combine high low).symm⟩

theorem Consumes.getU32 :
    Consumes (Reader.getU32 : Reader ε UInt32) fun value used => used = be32 value := by
  intro buffer value rest result
  match buffer with
  | [] | [_] | [_, _] | [_, _, _] => cases result
  | a :: b :: c :: d :: tail =>
    simp only [Reader.getU32, Outcome.ok.injEq, Prod.mk.injEq] at result
    obtain ⟨rfl, rfl⟩ := result
    exact ⟨[a, b, c, d], rfl, (be32_combine a b c d).symm⟩

theorem Consumes.splitTo (count : Nat) :
    Consumes (Reader.splitTo count : Reader ε Bytes) fun block used =>
      used = block ∧ block.length = count := by
  intro buffer block rest result
  simp only [Reader.splitTo] at result
  split at result
  · simp only [Outcome.ok.injEq, Prod.mk.injEq] at result
    obtain ⟨rfl, rfl⟩ := result
    exact ⟨buffer.take count, by simp, rfl, List.length_take_of_le ‹count ≤ buffer.length›⟩
  · cases result

theorem Consumes.within {own : Bytes} {reader : Reader ε α} :
    Consumes (Reader.within own reader) fun value used =>
      used = [] ∧ ∃ left, reader own = .ok (value, left) := by
  intro buffer value rest result
  rw [within_apply, Outcome.bind_eq_ok] at result
  obtain ⟨⟨inner, left⟩, ran, equal⟩ := result
  simp only [Outcome.ok.injEq, Prod.mk.injEq] at equal
  exact ⟨[], by simp [equal.2], rfl, left, by rw [ran, equal.1]⟩

/-- A body that takes a nonempty block every turn shrinks the buffer. -/
theorem shrinks_of_consumes {body : α → Reader ε α} {post : α → α → Bytes → Prop}
    (consumes : ∀ state, Consumes (body state) (post state))
    (takes : ∀ {state next used}, post state next used → used ≠ []) : Shrinks body := by
  intro state buffer next rest _ result
  obtain ⟨used, rfl, holds⟩ := consumes state result
  have positive := List.length_pos_iff.mpr (takes holds)
  simp only [List.length_append]
  omega

/-- A body that starts by taking an octet shrinks the buffer. -/
theorem shrinks_of_getU8 {body : α → Reader ε α} {next : α → UInt8 → Reader ε α}
    (starts : ∀ state, body state = Reader.getU8 >>= next state)
    (consumes : ∀ state octet, Consumes (next state octet) fun _ _ => True) : Shrinks body := by
  intro state buffer final rest _ result
  rw [starts, bind_apply, Outcome.bind_eq_ok] at result
  obtain ⟨⟨octet, tail⟩, first, continued⟩ := result
  obtain ⟨used, rfl, _⟩ := consumes state octet continued
  rw [getU8_eq_ok.mp first, List.length_cons, List.length_append]
  omega

end Consumption

end Reader
end Sipusu.Foundation
