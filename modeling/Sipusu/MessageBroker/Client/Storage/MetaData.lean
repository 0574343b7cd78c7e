import Sipusu.Foundation.Utf8
import Sipusu.Foundation.Reader

/-!
# The metadata file

`MetaData` of `src/message_broker/client/storage.rs`. The loop over the user
properties asks for the length of a buffer it never reads from, so it ends only in
an abort. The broker writes no user properties, and only metadata without any is read
back.
-/

namespace Sipusu.MessageBroker

open Sipusu.Foundation

/-- `struct MetaData`. -/
structure MetaData where
  protocolLevel : UInt8
  keepAliveInterval : UInt16
  exprInterval : UInt32
  receiveMaximum : UInt16
  maximumPacketSize : UInt16
  topicAliasMaximum : UInt16
  userProperties : List (Str × Str)
deriving DecidableEq

namespace MetaData

/-- `serialize_string`. -/
def serializeString (val : Str) : Bytes := be16 (UInt16.ofNat val.len) ++ val.bytes

/-- `MetaData::est_user_prop`. -/
def estUserProp (mdata : MetaData) : Nat :=
  (mdata.userProperties.map fun property => 2 + property.1.len + 2 + property.2.len + 1).sum

/-- `MetaData::serialize`. -/
def serialize (mdata : MetaData) : Bytes :=
  mdata.protocolLevel :: be16 mdata.keepAliveInterval ++ be32 mdata.exprInterval ++
    be16 mdata.receiveMaximum ++ be16 mdata.maximumPacketSize ++ be16 mdata.topicAliasMaximum ++
    be32 (UInt32.ofNat mdata.estUserProp) ++
    if 1 < mdata.estUserProp then
      mdata.userProperties.flatMap fun property =>
        serializeString property.1 ++ serializeString property.2 ++ [0x0A]
    else []

variable {ε : Type}

/-- `deserialize_string`. -/
def deserializeString : Reader ε Str := do
  let len ← Reader.getU16
  let b ← Reader.splitTo len.toNat
  match Str.fromUtf8? b with
  | some text => return text
  | none => Reader.lift .panic

/-- The loop over the user properties. Every turn takes at least five octets, so the
fuel outlasts the buffer. -/
def deserializeProperties (upropBuf : Bytes) : Nat → List (Str × Str) → Reader ε (List (Str × Str))
  | 0, prop => if upropBuf.length = 0 then pure prop else Reader.lift .panic
  | fuel + 1, prop =>
      if upropBuf.length = 0 then pure prop
      else do
        let key ← deserializeString
        let value ← deserializeString
        let _lf ← Reader.getU8
        deserializeProperties upropBuf fuel (prop ++ [(key, value)])

/-- `MetaData::deserialize`, from the length of the user properties on. -/
def deserializeTail (new : MetaData) : Reader ε MetaData := do
  let left ← Reader.remaining
  if left < 2 then return new
  else
    let upropLen ← Reader.getU32
    let left ← Reader.remaining
    if left < upropLen.toNat then return new
    else
      let upropBuf ← Reader.splitTo upropLen.toNat
      let left ← Reader.remaining
      let userProperties ← deserializeProperties upropBuf left []
      return { new with userProperties }

/-- `MetaData::deserialize`. -/
def deserialize : Reader ε MetaData := do
  let protocolLevel ← Reader.getU8
  let keepAliveInterval ← Reader.getU16
  let exprInterval ← Reader.getU32
  let receiveMaximum ← Reader.getU16
  let maximumPacketSize ← Reader.getU16
  let topicAliasMaximum ← Reader.getU16
  deserializeTail
    { protocolLevel, keepAliveInterval, exprInterval, receiveMaximum, maximumPacketSize,
      topicAliasMaximum, userProperties := [] }

theorem deserializeString_ne_err (buffer : Bytes) (error : ε) :
    deserializeString buffer ≠ .err error := by
  intro failed
  match buffer with
  | [] | [_] => cases failed
  | high :: low :: rest =>
    simp only [deserializeString, Reader.bind_apply, Reader.getU16, Outcome.ok_bind] at failed
    obtain enough | short := Nat.lt_or_ge rest.length
      (UInt16.ofNat (high.toNat * 256 + low.toNat)).toNat
    · rw [Reader.splitTo_of_short enough] at failed
      cases failed
    · simp only [Reader.splitTo, short, if_true, Outcome.ok_bind] at failed
      cases text : Str.fromUtf8? (rest.take (UInt16.ofNat (high.toNat * 256 + low.toNat)).toNat) with
      | none =>
        rw [text] at failed
        cases failed
      | some _ =>
        rw [text] at failed
        cases failed

/-- A file that announces user properties aborts its reader. -/
theorem deserializeProperties_of_nonempty {upropBuf : Bytes} (nonempty : upropBuf.length ≠ 0)
    (fuel : Nat) (prop : List (Str × Str)) (buffer : Bytes) :
    (deserializeProperties upropBuf fuel prop buffer : Outcome ε _) = .panic := by
  induction fuel generalizing prop buffer with
  | zero => simp [deserializeProperties, nonempty]
  | succ fuel inductionHypothesis =>
    simp only [deserializeProperties, nonempty, if_false, Reader.bind_apply]
    cases key : (deserializeString buffer : Outcome ε (Str × Bytes)) with
    | panic => rfl
    | err error => exact absurd key (deserializeString_ne_err buffer error)
    | ok first =>
      rw [Outcome.ok_bind]
      cases value : (deserializeString first.2 : Outcome ε (Str × Bytes)) with
      | panic => rfl
      | err error => exact absurd value (deserializeString_ne_err first.2 error)
      | ok second =>
        rw [Outcome.ok_bind]
        cases second.2 with
        | nil => rfl
        | cons lf rest => exact inductionHypothesis _ rest

/-- Behind the settings: a length that breaks off, or one of user properties that are there. -/
def Aborting (tail : Bytes) : Prop :=
  tail.length = 2 ∨ tail.length = 3 ∨
    ∃ len properties, tail = be32 len ++ properties ∧ len ≠ 0 ∧ len.toNat ≤ properties.length

theorem aborting_be32 {len : UInt32} {properties : Bytes} :
    Aborting (be32 len ++ properties) ↔ len ≠ 0 ∧ len.toNat ≤ properties.length := by
  constructor
  · rintro (two | three | ⟨other, rest, same, holds⟩)
    · simp [be32] at two
    · simp [be32] at three
    · have read := @Reader.getU32_be32 Unit len properties
      rw [same, Reader.getU32_be32] at read
      simp only [Outcome.ok.injEq, Prod.mk.injEq] at read
      rwa [← read.1, ← read.2]
  · intro holds
    exact .inr (.inr ⟨len, properties, rfl, holds⟩)

theorem deserializeTail_be32 (new : MetaData) (len : UInt32) (properties : Bytes) :
    (deserializeTail new (be32 len ++ properties) : Outcome ε (MetaData × Bytes)) =
      if properties.length < len.toNat then .ok (new, properties)
      else deserializeProperties (properties.take len.toNat)
        (properties.drop len.toNat).length [] (properties.drop len.toNat) >>= fun result =>
          .ok ({ new with userProperties := result.1 }, result.2) := by
  have many : ¬ (be32 len ++ properties).length < 2 := by simp [be32]
  rw [deserializeTail, Reader.bind_apply, Reader.remaining_apply, Outcome.ok_bind]
  simp only [if_neg many, Reader.bind_apply, Reader.getU32_be32, Outcome.ok_bind,
    Reader.remaining_apply]
  by_cases short : properties.length < len.toNat
  · simp only [if_pos short, Reader.pure_apply]
  · simp only [if_neg short, Reader.bind_apply, Reader.splitTo, if_pos (Nat.not_lt.mp short),
      Outcome.ok_bind, Reader.remaining_apply, Reader.pure_apply]

/-- The reader of the tail aborts or returns, but refuses nothing. -/
theorem deserializeTail_cases (new : MetaData) (tail : Bytes) :
    ((deserializeTail new tail : Outcome ε (MetaData × Bytes)) = .panic ∧ Aborting tail) ∨
      ((∃ result, (deserializeTail new tail : Outcome ε (MetaData × Bytes)) = .ok result) ∧
        ¬ Aborting tail) := by
  match tail with
  | [] | [_] =>
    refine .inr ⟨⟨_, rfl⟩, ?_⟩
    rintro (two | three | ⟨len, properties, split, _⟩)
    · cases two
    · cases three
    · cases split
  | [_, _] => exact .inl ⟨rfl, .inl rfl⟩
  | [_, _, _] => exact .inl ⟨rfl, .inr (.inl rfl)⟩
  | a :: b :: c :: d :: properties =>
    obtain ⟨len, isLen⟩ : ∃ len, be32 len = [a, b, c, d] := ⟨_, be32_combine a b c d⟩
    have split : a :: b :: c :: d :: properties = be32 len ++ properties := by
      rw [isLen]
      rfl
    rw [split, aborting_be32, deserializeTail_be32]
    by_cases short : properties.length < len.toNat
    · rw [if_pos short]
      exact .inr ⟨⟨_, rfl⟩, fun holds => absurd short (Nat.not_lt.mpr holds.2)⟩
    · rw [if_neg short]
      by_cases zero : len = 0
      · refine .inr ⟨⟨({ new with userProperties := [] }, properties), ?_⟩, fun holds => holds.1 zero⟩
        have none : properties.take len.toNat = [] := by
          rw [zero]
          rfl
        have all : properties.drop len.toNat = properties := by
          rw [zero]
          rfl
        rw [none, all]
        cases properties <;> rfl
      · have positive : 0 < len.toNat := by
          apply Nat.pos_of_ne_zero
          intro none
          exact zero (UInt32.toNat_inj.mp none)
        have announced : (properties.take len.toNat).length ≠ 0 := by
          rw [List.length_take_of_le (Nat.not_lt.mp short)]
          exact Nat.ne_of_gt positive
        rw [deserializeProperties_of_nonempty announced]
        exact .inl ⟨rfl, zero, Nat.not_lt.mp short⟩

/-- What is behind thirteen octets of settings decides how the reader ends. -/
theorem deserialize_cases {settings : Bytes} (length : settings.length = 13) (tail : Bytes) :
    ((deserialize (settings ++ tail) : Outcome ε (MetaData × Bytes)) = .panic ∧ Aborting tail) ∨
      ((∃ result, (deserialize (settings ++ tail) : Outcome ε (MetaData × Bytes)) = .ok result) ∧
        ¬ Aborting tail) := by
  match settings, length with
  | [_, _, _, _, _, _, _, _, _, _, _, _, _], _ => exact deserializeTail_cases _ tail

theorem serialize_of_noProperties {mdata : MetaData} (none : mdata.userProperties = []) :
    mdata.serialize = mdata.protocolLevel :: (be16 mdata.keepAliveInterval ++
      (be32 mdata.exprInterval ++ (be16 mdata.receiveMaximum ++ (be16 mdata.maximumPacketSize ++
        (be16 mdata.topicAliasMaximum ++ be32 0))))) := by
  simp [serialize, estUserProp, none]

/-- Without user properties, reading inverts writing. -/
theorem deserialize_serialize {mdata : MetaData} (none : mdata.userProperties = []) :
    (deserialize mdata.serialize : Outcome ε (MetaData × Bytes)) = .ok (mdata, []) := by
  obtain ⟨protocolLevel, keepAliveInterval, exprInterval, receiveMaximum, maximumPacketSize,
    topicAliasMaximum, userProperties⟩ := mdata
  cases none
  have zero : (Reader.getU32 (be32 0) : Outcome ε (UInt32 × Bytes)) = .ok (0, []) :=
    Reader.getU32_be32 0 []
  simp [deserialize, deserializeTail, deserializeProperties, serialize_of_noProperties, zero,
    Reader.splitTo]

/-- The user properties as they are written. -/
def propertyRecords (mdata : MetaData) : Bytes :=
  mdata.userProperties.flatMap fun property =>
    serializeString property.1 ++ serializeString property.2 ++ [0x0A]

/-- The announced length is the length of what is written, before it is cast. -/
theorem length_propertyRecords (mdata : MetaData) :
    mdata.propertyRecords.length = mdata.estUserProp := by
  rw [propertyRecords, estUserProp]
  induction mdata.userProperties with
  | nil => rfl
  | cons property rest inductionHypothesis =>
    rw [List.flatMap_cons, List.length_append, inductionHypothesis, List.map_cons, List.sum_cons]
    simp only [serializeString, List.length_append, length_be16, List.length_singleton, Str.len]
    omega

/-- One user property takes at least five octets. -/
theorem estUserProp_pos {mdata : MetaData} (some : mdata.userProperties ≠ []) :
    1 < mdata.estUserProp := by
  obtain ⟨first, rest, split⟩ := List.exists_cons_of_ne_nil some
  rw [estUserProp, split, List.map_cons, List.sum_cons]
  omega

/-- The fields in front of the user properties, as they are written. -/
def settings (mdata : MetaData) : Bytes :=
  mdata.protocolLevel :: (be16 mdata.keepAliveInterval ++ (be32 mdata.exprInterval ++
    (be16 mdata.receiveMaximum ++ (be16 mdata.maximumPacketSize ++ be16 mdata.topicAliasMaximum))))

/-- The settings are read back whatever follows them. -/
theorem deserialize_settings (mdata : MetaData) (tail : Bytes) :
    (deserialize (mdata.settings ++ tail) : Outcome ε (MetaData × Bytes)) =
      deserializeTail { mdata with userProperties := [] } tail := by
  simp [deserialize, settings]

theorem serialize_of_properties {mdata : MetaData} (some : mdata.userProperties ≠ []) :
    mdata.serialize =
      mdata.settings ++ (be32 (UInt32.ofNat mdata.estUserProp) ++ mdata.propertyRecords) := by
  rw [serialize, if_pos (estUserProp_pos some), ← propertyRecords]
  simp only [settings, List.cons_append, List.append_assoc]

/-- User properties come back neither complete nor at all: their reader aborts, or it reads
none when their length is cast to zero. -/
theorem deserialize_ne_of_properties {mdata : MetaData} (some : mdata.userProperties ≠ [])
    (left : Bytes) : (deserialize mdata.serialize : Outcome ε (MetaData × Bytes)) ≠ .ok (mdata, left) := by
  have cast : (UInt32.ofNat mdata.estUserProp).toNat ≤ mdata.propertyRecords.length := by
    rw [length_propertyRecords, UInt32.toNat_ofNat']
    exact Nat.mod_le _ _
  rw [serialize_of_properties some, deserialize_settings, deserializeTail_be32,
     if_neg (Nat.not_lt.mpr cast)]
  intro read
  by_cases announced : (mdata.propertyRecords.take
      (UInt32.ofNat mdata.estUserProp).toNat).length = 0
  · rw [List.eq_nil_of_length_eq_zero announced] at read
    obtain ⟨⟨properties, rest⟩, none, same⟩ := Outcome.bind_eq_ok.mp read
    have empty : properties = [] := by
      cases turns : (mdata.propertyRecords.drop (UInt32.ofNat mdata.estUserProp).toNat).length <;>
        rw [turns] at none <;> cases none <;> rfl
    simp only [Outcome.ok.injEq, Prod.mk.injEq] at same
    rw [← same.1] at some
    exact some empty
  · rw [deserializeProperties_of_nonempty announced] at read
    cases read

/-- Reading inverts writing exactly for metadata without user properties. -/
theorem round_trip_iff (mdata : MetaData) :
    (∃ left, (deserialize mdata.serialize : Outcome ε (MetaData × Bytes)) = .ok (mdata, left)) ↔
      mdata.userProperties = [] := by
  constructor
  · rintro ⟨left, read⟩
    by_contra some
    exact deserialize_ne_of_properties some left read
  · intro none
    exact ⟨[], deserialize_serialize none⟩

/-- Metadata with the user property `k = v`, whose reader aborts. -/
theorem user_property_aborts :
    let k : Str := ⟨[0x6B], by decide⟩
    let v : Str := ⟨[0x76], by decide⟩
    let mdata : MetaData :=
      { protocolLevel := 5, keepAliveInterval := 60, exprInterval := 0, receiveMaximum := 0,
        maximumPacketSize := 0, topicAliasMaximum := 0, userProperties := [(k, v)] }
    (deserialize mdata.serialize : Outcome Unit (MetaData × Bytes)) = .panic ∧
      ¬ ∃ left, (deserialize mdata.serialize : Outcome Unit (MetaData × Bytes)) =
        .ok (mdata, left) := by
  intro k v mdata
  refine ⟨by decide, ?_⟩
  rintro ⟨left, read⟩
  exact deserialize_ne_of_properties (List.cons_ne_nil _ _) left read

end MetaData
end Sipusu.MessageBroker
