import Sipusu.Protocol.V5.Publish

/-!
# PUBLISH packets on the wire

A well-formed PUBLISH packet with its properties in any order, each at most once but for
user properties. The decoder returns it from exactly its octets, and returns it from no
fewer octets than its body and the shortest header take.
-/

namespace Sipusu.Protocol.V5

open Sipusu.Foundation

namespace Publish

/-- A property of a PUBLISH packet. -/
inductive Entry where
  | payloadFormatIndicator (indicator : UInt8)
  | messageExpiryInterval (interval : UInt32)
  | topicAlias (number : UInt16)
  | responseTopic (topic : Str)
  | correlationData (data : Bytes)
  | userProperty (key value : Str)
  | subscriptionIdentifier (subscription : Nat)
  | contentType (description : Str)
deriving DecidableEq

namespace Entry

/-- The identifier of a property. -/
def identifier : Entry → UInt8
  | .payloadFormatIndicator _ => 0x01
  | .messageExpiryInterval _ => 0x02
  | .topicAlias _ => 0x23
  | .responseTopic _ => 0x08
  | .correlationData _ => 0x09
  | .userProperty _ _ => 0x26
  | .subscriptionIdentifier _ => 0x0B
  | .contentType _ => 0x03

/-- The octets of a property's value. -/
def value : Entry → Bytes
  | .payloadFormatIndicator indicator => [indicator]
  | .messageExpiryInterval interval => be32 interval
  | .topicAlias number => be16 number
  | .responseTopic topic => lengthPrefixed topic.bytes
  | .correlationData data => lengthPrefixed data
  | .userProperty key value => lengthPrefixed key.bytes ++ lengthPrefixed value.bytes
  | .subscriptionIdentifier subscription => RemainingLength.form subscription
  | .contentType description => lengthPrefixed description.bytes

/-- The octets of a property. -/
def bytes (entry : Entry) : Bytes := entry.identifier :: entry.value

/-- Lengths fit into their fields. -/
def Fits : Entry → Prop
  | .responseTopic text | .contentType text => text.len < 65536
  | .correlationData data => data.length < 65536
  | .userProperty key value => key.len < 65536 ∧ value.len < 65536
  | .subscriptionIdentifier subscription => subscription < RemainingLength.limit
  | _ => True

/-- The properties with one more. -/
def apply (properties : Properties) : Entry → Properties
  | .payloadFormatIndicator indicator =>
      { properties with payloadFormatIndicator := some indicator }
  | .messageExpiryInterval interval => { properties with messageExpiryInterval := some interval }
  | .topicAlias number => { properties with topicAlias := some number }
  | .responseTopic topic => { properties with responseTopic := some topic }
  | .correlationData data => { properties with correlationData := some data }
  | .userProperty key value =>
      { properties with
        userProperties := some (properties.userProperties.getD [] ++ [(key, value)]) }
  | .subscriptionIdentifier subscription =>
      { properties with subscriptionIdentifier := some [subscription] }
  | .contentType description => { properties with contentType := some description }

/-- The property can be added without replacing another. -/
def Fresh (properties : Properties) : Entry → Prop
  | .payloadFormatIndicator _ => properties.payloadFormatIndicator = none
  | .messageExpiryInterval _ => properties.messageExpiryInterval = none
  | .topicAlias _ => properties.topicAlias = none
  | .responseTopic _ => properties.responseTopic = none
  | .correlationData _ => properties.correlationData = none
  | .userProperty _ _ => True
  | .subscriptionIdentifier _ => properties.subscriptionIdentifier = none
  | .contentType _ => properties.contentType = none

end Entry

namespace Properties

/-- The number of octets that properties take. -/
def size (properties : Properties) : Nat :=
  (properties.payloadFormatIndicator.elim 0 fun _ => 2) +
  (properties.messageExpiryInterval.elim 0 fun _ => 5) +
  (properties.topicAlias.elim 0 fun _ => 3) +
  (properties.responseTopic.elim 0 fun topic => 3 + topic.len) +
  (properties.correlationData.elim 0 fun data => 3 + data.length) +
  ((properties.userProperties.getD []).map fun pair => 5 + pair.1.len + pair.2.len).sum +
  (properties.subscriptionIdentifier.elim 0 fun subscriptions =>
    (subscriptions.map fun subscription => 1 + (RemainingLength.form subscription).length).sum) +
  (properties.contentType.elim 0 fun description => 3 + description.len)

/-- The number of octets of a property block. -/
def blockSize : Option Properties → Nat
  | none => 1
  | some properties => (RemainingLength.form properties.size).length + properties.size

theorem blockSize_pos (properties : Option Properties) : 0 < blockSize properties := by
  cases properties with
  | none => exact Nat.one_pos
  | some properties =>
    exact Nat.lt_of_lt_of_le (RemainingLength.length_form_pos properties.size) (Nat.le_add_right _ _)

end Properties

namespace Entry

/-- A new property adds its octets to the size. -/
theorem size_apply_of_fresh {properties : Properties} {entry : Entry}
    (fresh : entry.Fresh properties) :
    (entry.apply properties).size = properties.size + entry.bytes.length := by
  cases entry <;> simp only [Fresh] at fresh <;>
    simp [apply, Properties.size, bytes, value, Str.len, fresh] <;> omega

/-- A property adds at most its octets to the size. -/
theorem size_apply_le (properties : Properties) (entry : Entry) :
    (entry.apply properties).size ≤ properties.size + entry.bytes.length := by
  cases entry <;> simp [apply, Properties.size, bytes, value, Str.len] <;> omega

/-- Another property does not make this one stale. -/
theorem fresh_apply {properties : Properties} {entry other : Entry}
    (fresh : entry.Fresh properties)
    (different : other.identifier ≠ entry.identifier ∨ entry.identifier = 0x26) :
    entry.Fresh (other.apply properties) := by
  cases entry <;> cases other <;> simp_all [Fresh, apply, identifier]

/-- Reading a property inverts writing it. -/
theorem decodeEntry_bytes {entry : Entry} (fits : entry.Fits) (properties : Properties)
    (rest : Bytes) :
    properties.decodeEntry (entry.bytes ++ rest) = .ok (entry.apply properties, rest) := by
  cases entry with
  | payloadFormatIndicator indicator =>
    exact Reader.map_of_ok (Reader.getU8_cons indicator rest) fun indicator =>
      { properties with payloadFormatIndicator := some indicator }
  | messageExpiryInterval interval =>
    exact Reader.map_of_ok (Reader.getU32_be32 interval rest) fun interval =>
      { properties with messageExpiryInterval := some interval }
  | topicAlias number =>
    exact Reader.map_of_ok (Reader.getU16_be16 number rest) fun number =>
      { properties with topicAlias := some number }
  | responseTopic topic =>
    exact Reader.map_of_ok (decodeUtf8String_form fits rest) fun topic =>
      { properties with responseTopic := some topic }
  | correlationData data =>
    exact Reader.map_of_ok (decodeBinaryData_form fits rest) fun data =>
      { properties with correlationData := some data }
  | userProperty key value =>
    obtain ⟨keyFits, valueFits⟩ := fits
    have read := decodeStringPair_form keyFits valueFits rest
    rw [← List.append_assoc] at read
    exact Reader.map_of_ok read fun pair =>
      { properties with userProperties := some (properties.userProperties.getD [] ++ [pair]) }
  | subscriptionIdentifier subscription =>
    exact Reader.map_of_ok (RemainingLength.decode_form fits rest) fun subscription =>
      { properties with subscriptionIdentifier := some [subscription] }
  | contentType description =>
    exact Reader.map_of_ok (decodeUtf8String_form fits rest) fun description =>
      { properties with contentType := some description }

/-- A reader of values that fit, each in no fewer octets than it is written in. -/
theorem consumes_apply {α : Type} {reader : Reader String α} {post : α → Bytes → Prop}
    (properties : Properties) (entryOf : α → Entry) (consumes : Reader.Consumes reader post)
    (short : ∀ value used, post value used →
      (entryOf value).Fits ∧ (entryOf value).value.length ≤ used.length) :
    Reader.Consumes (reader >>= fun value => pure (apply properties (entryOf value)))
      fun next used => ∃ entry, next = apply properties entry ∧ entry.Fits ∧
        entry.bytes.length ≤ used.length + 1 := by
  refine (consumes.map fun value => apply properties (entryOf value)).mono ?_
  rintro next used ⟨value, rfl, holds⟩
  obtain ⟨fits, length⟩ := short value used holds
  exact ⟨entryOf value, rfl, fits, Nat.succ_le_succ length⟩

/-- Whatever is read is a property that fits, in no fewer octets than it is written in. -/
theorem decodeEntry_consumes (properties : Properties) :
    Reader.Consumes properties.decodeEntry fun next used =>
      used ≠ [] ∧ ∃ entry, next = apply properties entry ∧ entry.Fits ∧
        entry.bytes.length ≤ used.length := by
  have behind : ∀ identifier : UInt8,
      Reader.Consumes (fun buffer => properties.decodeEntry (identifier :: buffer))
        fun next used => ∃ entry, next = apply properties entry ∧ entry.Fits ∧
          entry.bytes.length ≤ used.length + 1 := by
    intro identifier
    have text : ∀ (string : Str) (used : Bytes),
        string.len < 65536 ∧ used.length = 2 + string.len →
        string.len < 65536 ∧ (lengthPrefixed string.bytes).length ≤ used.length := by
      rintro string used ⟨fits, length⟩
      exact ⟨fits, Nat.le_of_eq ((length_lengthPrefixed _).trans length.symm)⟩
    unfold Properties.decodeEntry
    simp only [Reader.bind_apply, Reader.getU8_cons, Outcome.ok_bind]
    split
    · refine consumes_apply properties .payloadFormatIndicator Reader.Consumes.getU8 ?_
      rintro value used rfl
      exact ⟨trivial, Nat.le_refl _⟩
    · refine consumes_apply properties .messageExpiryInterval Reader.Consumes.getU32 ?_
      rintro value used rfl
      exact ⟨trivial, Nat.le_refl _⟩
    · refine consumes_apply properties .topicAlias Reader.Consumes.getU16 ?_
      rintro value used rfl
      exact ⟨trivial, Nat.le_refl _⟩
    · exact consumes_apply properties .responseTopic decodeUtf8String_consumes text
    · refine consumes_apply properties .correlationData decodeBinaryData_consumes ?_
      rintro data used ⟨fits, length⟩
      exact ⟨fits, Nat.le_of_eq ((length_lengthPrefixed _).trans length.symm)⟩
    · refine consumes_apply properties (fun pair => .userProperty pair.1 pair.2)
        decodeStringPair_consumes ?_
      rintro pair used ⟨keyFits, valueFits, length⟩
      refine ⟨⟨keyFits, valueFits⟩, ?_⟩
      rw [length, value, List.length_append, length_lengthPrefixed, length_lengthPrefixed, Str.len,
        Str.len]
      omega
    · refine consumes_apply properties .subscriptionIdentifier RemainingLength.decode_consumes ?_
      rintro value used ⟨positive, few, bound⟩
      have power : 128 ^ used.length ≤ RemainingLength.limit :=
        Nat.pow_le_pow_right (by omega) few
      exact ⟨Nat.lt_of_lt_of_le bound power, RemainingLength.length_form_le positive bound⟩
    · exact consumes_apply properties .contentType decodeUtf8String_consumes text
    · intro buffer next rest decoded
      cases decoded
  rintro buffer next rest decoded
  cases buffer with
  | nil => cases decoded
  | cons identifier tail =>
    obtain ⟨used, rfl, entry, isNext, fits, short⟩ := behind identifier decoded
    exact ⟨identifier :: used, rfl, List.cons_ne_nil _ _, entry, isNext, fits, short⟩

end Entry

namespace Properties

theorem decodeEntry_shrinks : Reader.Shrinks decodeEntry :=
  Reader.shrinks_of_consumes Entry.decodeEntry_consumes fun holds => holds.1

/-- Reading properties one after another. -/
theorem whileNonempty_decodeEntry {entries : List Entry} (fit : ∀ entry ∈ entries, entry.Fits)
    (properties : Properties) :
    Reader.whileNonempty decodeEntry properties (entries.flatMap Entry.bytes) =
      .ok (entries.foldl Entry.apply properties, []) :=
  Reader.whileNonempty_flatMap decodeEntry_shrinks (fun entry => List.cons_ne_nil _ entry.value)
    (fun entry member state rest => Entry.decodeEntry_bytes (fit entry member) state rest) properties

/-- Properties that are read take no more octets than were there. -/
theorem size_le_of_whileNonempty {properties final : Properties} {buffer rest : Bytes}
    (result : Reader.whileNonempty decodeEntry properties buffer = .ok (final, rest)) :
    final.size ≤ properties.size + buffer.length := by
  refine Reader.whileNonempty_induct decodeEntry_shrinks
    (motive := fun properties buffer => final.size ≤ properties.size + buffer.length)
    (Nat.le_add_right _ _) ?_ result
  intro properties buffer next rest step bound
  obtain ⟨used, rfl, _, entry, rfl, _, short⟩ := Entry.decodeEntry_consumes properties step
  have grown := Entry.size_apply_le properties entry
  rw [List.length_append]
  omega

end Properties

/-- The property block: its length, and the properties. -/
def block (entries : List Entry) : Bytes :=
  RemainingLength.form (entries.flatMap Entry.bytes).length ++ entries.flatMap Entry.bytes

/-- What the decoder makes of the properties. -/
def collect (entries : List Entry) : Option Properties :=
  if entries = [] then none else some (entries.foldl Entry.apply .empty)

/-- No property but a user property occurs twice. -/
def Distinct (entries : List Entry) : Prop :=
  entries.Pairwise fun earlier later =>
    earlier.identifier ≠ later.identifier ∨ later.identifier = 0x26

namespace Properties

/-- Distinct properties add up. -/
theorem size_foldl {entries : List Entry} (distinct : Distinct entries) {properties : Properties}
    (fresh : ∀ entry ∈ entries, entry.Fresh properties) :
    (entries.foldl Entry.apply properties).size =
      properties.size + (entries.flatMap Entry.bytes).length := by
  induction entries generalizing properties with
  | nil => rfl
  | cons entry rest inductionHypothesis =>
    obtain ⟨apart, restDistinct⟩ := List.pairwise_cons.mp distinct
    have restFresh : ∀ other ∈ rest, other.Fresh (entry.apply properties) := fun other member =>
      Entry.fresh_apply (fresh other (List.mem_cons_of_mem _ member)) (apart other member)
    rw [List.foldl_cons, inductionHypothesis restDistinct restFresh,
      Entry.size_apply_of_fresh (fresh entry List.mem_cons_self), List.flatMap_cons,
      List.length_append, Nat.add_assoc]

theorem fresh_empty (entry : Entry) : entry.Fresh .empty := by
  cases entry with
  | userProperty key value => trivial
  | _ => rfl

/-- Distinct properties take as many octets as their block has. -/
theorem blockSize_collect {entries : List Entry} (distinct : Distinct entries) :
    blockSize (collect entries) = (block entries).length := by
  unfold collect block
  split
  · rename_i none
    rw [none]
    rfl
  · have size := size_foldl distinct fun entry _ => fresh_empty entry
    have nothing : Properties.empty.size = 0 := rfl
    rw [nothing, Nat.zero_add] at size
    rw [blockSize, size, List.length_append]

/-- Reading a property block inverts writing it. -/
theorem decode_block {entries : List Entry} (fit : ∀ entry ∈ entries, entry.Fits)
    (bound : (entries.flatMap Entry.bytes).length < RemainingLength.limit) (rest : Bytes) :
    decode (block entries ++ rest) = .ok (collect entries, rest) := by
  unfold decode decodeOfLength block collect
  rw [List.append_assoc]
  simp only [Reader.bind_apply, Reader.mapErr_apply, RemainingLength.decode_form bound]
  by_cases none : entries = []
  · simp [none, Outcome.mapErr]
  · obtain ⟨first, others, rfl⟩ := List.exists_cons_of_ne_nil none
    have positive : ((first :: others).flatMap Entry.bytes).length ≠ 0 := by
      simp [Entry.bytes]
    simp only [Outcome.mapErr, Outcome.ok_bind, positive, none, if_false, Reader.bind_apply,
      Reader.remaining_apply, Reader.ensure_apply, List.length_append, Nat.le_add_right, if_true,
      Reader.splitTo_append, Reader.within_apply, whileNonempty_decodeEntry fit, Reader.pure_apply]

/-- Properties behind their length take exactly that many octets, and are all that the loop
reads from these. -/
theorem decodeOfLength_consumes (propertiesLength : Nat) :
    Reader.Consumes (decodeOfLength propertiesLength) fun properties used =>
      used.length = propertiesLength ∧ ∀ final ∈ properties, used ≠ [] ∧ ∃ rest,
        Reader.whileNonempty decodeEntry empty used = .ok (final, rest) := by
  unfold decodeOfLength
  split
  · rename_i nothing
    refine (Reader.Consumes.pure none).mono ?_
    rintro properties used ⟨rfl, rfl⟩
    exact ⟨nothing.symm, fun final member => absurd member (Option.not_mem_none final)⟩
  · refine Reader.Consumes.mono (Reader.Consumes.bind Reader.Consumes.remaining fun remaining =>
      Reader.Consumes.bind (Reader.Consumes.ensure _ _) fun _ =>
        Reader.Consumes.bind (Reader.Consumes.splitTo propertiesLength) fun _ =>
          Reader.Consumes.within) ?_
    rintro properties used ⟨_, _, _, rfl, rfl, _, _, _, rfl, ⟨_, rfl⟩, _, bufProp, _, rfl,
      ⟨rfl, length⟩, rfl, left, read⟩
    obtain ⟨⟨final, rest⟩, looped, same⟩ := Outcome.bind_eq_ok.mp read
    simp only [Reader.pure_apply, Outcome.ok.injEq, Prod.mk.injEq] at same
    have filled : bufProp ≠ [] := by
      rintro rfl
      exact ‹¬propertiesLength = 0› length.symm
    refine ⟨by simpa using length, ?_⟩
    rw [← same.1]
    rintro _ ⟨⟩
    exact ⟨by simpa using filled, rest, by simpa using looped⟩

/-- A property block is never read from fewer octets than it takes. -/
theorem decode_consumes : Reader.Consumes decode fun properties used =>
    blockSize properties ≤ used.length := by
  refine Reader.Consumes.mono
    (Reader.Consumes.bind RemainingLength.decode_consumes.mapErr decodeOfLength_consumes) ?_
  rintro properties used ⟨propertiesLength, front, back, rfl, ⟨positive, _, bound⟩, rfl, looped⟩
  rw [List.length_append]
  cases properties with
  | none => exact Nat.le_add_right_of_le positive
  | some properties =>
    obtain ⟨_, rest, result⟩ := looped properties rfl
    have size := size_le_of_whileNonempty result
    have nothing : Properties.empty.size = 0 := rfl
    rw [nothing, Nat.zero_add] at size
    exact Nat.add_le_add (RemainingLength.length_form_le positive (Nat.lt_of_le_of_lt size bound)) size

end Properties
end Publish

/-- The packet identifier on the wire. -/
def identifierBytes (qos : ServiceLevel) (packetId : UInt16) : Bytes :=
  if 0 < qos.code then be16 packetId else []

/-- A well-formed PUBLISH packet. Below level 1 its packet identifier is not sent. -/
structure PublishFrame where
  dup : Bool
  qos : ServiceLevel
  retain : Bool
  topic : Str
  packetId : UInt16
  entries : List Publish.Entry
  payload : Bytes
  topicFits : topic.len < 65536
  entriesFit : ∀ entry ∈ entries, entry.Fits
  distinct : Publish.Distinct entries
  fits : (lengthPrefixed topic.bytes ++ (identifierBytes qos packetId ++
    (Publish.block entries ++ payload))).length < RemainingLength.limit

namespace PublishFrame

/-- The first octet. -/
def header (frame : PublishFrame) : UInt8 :=
  (0x30 : UInt8) ||| (frame.dup.toUInt8 <<< 3) ||| (frame.qos.code <<< 1) ||| frame.retain.toUInt8

/-- What the remaining length counts. -/
def body (frame : PublishFrame) : Bytes :=
  lengthPrefixed frame.topic.bytes ++ (identifierBytes frame.qos frame.packetId ++
    (Publish.block frame.entries ++ frame.payload))

/-- The octets of the packet. -/
def wire (frame : PublishFrame) : Bytes :=
  frame.header :: (RemainingLength.form frame.body.length ++ frame.body)

/-- The contents of the packet. -/
def content (frame : PublishFrame) : PublishPacket :=
  { dup := frame.dup, qos := frame.qos, retain := frame.retain, topic := frame.topic,
    packetId := if 0 < frame.qos.code then some frame.packetId else none,
    payload := frame.payload, properties := Publish.collect frame.entries }

/-- The contents of the packet with more octets at the end of its payload. -/
def contentWith (frame : PublishFrame) (more : Bytes) : PublishPacket :=
  { frame.content with payload := frame.payload ++ more }

@[simp]
theorem contentWith_nil (frame : PublishFrame) : frame.contentWith [] = frame.content := by
  rw [contentWith, List.append_nil]
  rfl

theorem length_body_lt (frame : PublishFrame) : frame.body.length < RemainingLength.limit :=
  frame.fits

theorem header_shiftRight (frame : PublishFrame) : frame.header >>> 4 = 3 := by
  unfold header
  cases frame.dup <;> cases frame.qos <;> cases frame.retain <;> decide

theorem decode_header (frame : PublishFrame) :
    decide (frame.header &&& 0x08 ≠ 0) = frame.dup ∧
      ServiceLevel.tryFrom ((frame.header &&& 0x06) >>> 1) = some frame.qos ∧
      decide (frame.header &&& 0x01 ≠ 0) = frame.retain := by
  unfold header
  cases frame.dup <;> cases frame.qos <;> cases frame.retain <;> decide

theorem decodePacketId_form (qos : ServiceLevel) (packetId : UInt16) (rest : Bytes) :
    PublishPacket.decodePacketId qos (identifierBytes qos packetId ++ rest) =
      .ok (if 0 < qos.code then some packetId else none, rest) := by
  unfold PublishPacket.decodePacketId identifierBytes
  split <;> simp

/-- Whatever follows a packet ends up in its payload. -/
theorem decodeBody_body (frame : PublishFrame) (more : Bytes) :
    PublishPacket.decodeBody frame.dup frame.qos frame.retain (frame.body ++ more) =
      .ok (frame.contentWith more, frame.payload ++ more) := by
  have blockFits : (frame.entries.flatMap Publish.Entry.bytes).length < RemainingLength.limit := by
    have fits := frame.fits
    simp only [Publish.block, List.length_append] at fits
    omega
  simp only [PublishPacket.decodeBody, body, contentWith, content, List.append_assoc,
    Reader.bind_apply, decodeUtf8String_form frame.topicFits, Outcome.ok_bind, decodePacketId_form,
    Publish.Properties.decode_block frame.entriesFit blockFits, Reader.toVec_apply,
    Reader.pure_apply]

/-- The fixed header of a packet, before any octets that are there of its body. -/
theorem decode_header_form {header : UInt8} {qos : ServiceLevel} (isPublish : header >>> 4 = 3)
    (level : ServiceLevel.tryFrom ((header &&& 0x06) >>> 1) = some qos) {n : Nat}
    (bound : n < RemainingLength.limit) (rest : Bytes) :
    PublishPacket.decode (header :: (RemainingLength.form n ++ rest)) =
      if n ≤ rest.length then
        PublishPacket.decodeBody (header &&& 0x08 ≠ 0) qos (header &&& 0x01 ≠ 0) rest
      else .err "Buffer too short for remaining length" := by
  have enough : 2 ≤ (header :: (RemainingLength.form n ++ rest)).length := by
    have positive := RemainingLength.length_form_pos n
    rw [List.length_cons, List.length_append]
    omega
  have length : RemainingLength.decode (RemainingLength.form n ++ rest) = .ok (n, rest) :=
    RemainingLength.decode_form bound rest
  simp only [PublishPacket.decode, Reader.bind_apply, Reader.remaining_apply, Outcome.ok_bind,
    Reader.ensure_apply, enough, if_true, Reader.getU8_cons, isPublish, level,
    Reader.ofOption_some, Reader.mapErr_apply, length, Outcome.mapErr]
  split <;> rfl

/-- Decoding the octets of a packet and more returns its contents with these at the end. -/
theorem decode_wire (frame : PublishFrame) (more : Bytes) :
    PublishPacket.decode (frame.wire ++ more) =
      .ok (frame.contentWith more, frame.payload ++ more) := by
  obtain ⟨dup, level, retain⟩ := frame.decode_header
  have enough : frame.body.length ≤ (frame.body ++ more).length := by
    rw [List.length_append]
    exact Nat.le_add_right _ _
  rw [wire, List.cons_append, List.append_assoc,
    decode_header_form frame.header_shiftRight level frame.length_body_lt, if_pos enough, dup, retain,
    decodeBody_body]

/-- What a successful decoding has checked on its way to the body. -/
theorem decode_eq_ok {buffer rest : Bytes} {packet : PublishPacket}
    (decoded : PublishPacket.decode buffer = .ok (packet, rest)) :
    ∃ header tail n body dup qos retain, buffer = header :: tail ∧ header >>> 4 = 3 ∧
      RemainingLength.decode tail = .ok (n, body) ∧ n ≤ body.length ∧
      PublishPacket.decodeBody dup qos retain body = .ok (packet, rest) := by
  simp only [PublishPacket.decode, Reader.bind_apply, Reader.remaining_apply, Outcome.ok_bind,
    Outcome.bind_eq_ok, Prod.exists, Reader.ensure_eq_ok, Reader.getU8_eq_ok,
    Reader.ofOption_eq_ok, Reader.mapErr_apply, Outcome.mapErr_eq_ok] at decoded
  obtain ⟨_, _, ⟨_, rfl⟩, header, _, rfl, _, _, ⟨isPublish, rfl⟩, qos, tail, ⟨_, rfl⟩, n, body,
    length, _, _, ⟨fits, rfl⟩, bodyRead⟩ := decoded
  exact ⟨header, _, n, body, _, qos, _, rfl, isPublish, length, fits, bodyRead⟩

theorem length_identifierBytes_le {qos : ServiceLevel} {packetId : Option UInt16}
    {buffer rest : Bytes}
    (decoded : PublishPacket.decodePacketId qos buffer = .ok (packetId, rest)) (other : UInt16) :
    buffer.length = (identifierBytes qos other).length + rest.length := by
  unfold PublishPacket.decodePacketId at decoded
  unfold identifierBytes
  split at decoded
  · obtain ⟨⟨id, left⟩, read, same⟩ := Outcome.bind_eq_ok.mp decoded
    obtain ⟨used, rfl, rfl⟩ := Reader.Consumes.getU16 read
    simp only [Reader.pure_apply, Outcome.ok.injEq, Prod.mk.injEq] at same
    rw [if_pos ‹_›, same.2, List.length_append, length_be16, length_be16]
  · simp only [Reader.pure_apply, Outcome.ok.injEq, Prod.mk.injEq] at decoded
    rw [if_neg ‹_›, decoded.2, List.length_nil, Nat.zero_add]

/-- A body is never decoded from fewer octets than it has. -/
theorem length_body_le {frame : PublishFrame} {dup retain : Bool} {qos : ServiceLevel}
    {buffer rest : Bytes}
    (decoded : PublishPacket.decodeBody dup qos retain buffer = .ok (frame.content, rest)) :
    frame.body.length ≤ buffer.length := by
  simp only [PublishPacket.decodeBody, Reader.bind_apply, Outcome.bind_eq_ok, Prod.exists,
    Reader.toVec_apply, Reader.pure_apply, Outcome.ok.injEq, Prod.mk.injEq] at decoded
  obtain ⟨topic, afterTopic, topicRead, packetId, afterId, idRead, properties, afterProperties,
    propertiesRead, payload, _, ⟨rfl, rfl⟩, same, _⟩ := decoded
  obtain ⟨front, rfl, _, topicLength⟩ := decodeUtf8String_consumes topicRead
  have idLength := length_identifierBytes_le idRead frame.packetId
  obtain ⟨block, rfl, blockLength⟩ := Publish.Properties.decode_consumes propertiesRead
  simp only [content, PublishPacket.mk.injEq] at same
  obtain ⟨_, rfl, _, rfl, _, rfl, rfl⟩ := same
  rw [Publish.Properties.blockSize_collect frame.distinct] at blockLength
  simp only [body, List.length_append, length_lengthPrefixed, Str.len] at *
  omega

/-- The contents of a packet are never decoded from fewer octets than its body and two
more. -/
theorem length_le_of_decode {frame : PublishFrame} {buffer rest : Bytes}
    (decoded : PublishPacket.decode buffer = .ok (frame.content, rest)) :
    2 + frame.body.length ≤ buffer.length := by
  obtain ⟨header, tail, n, after, _, _, _, rfl, _, length, _, bodyRead⟩ := decode_eq_ok decoded
  obtain ⟨used, rfl, positive, _⟩ := RemainingLength.decode_consumes length
  have enough := length_body_le bodyRead
  rw [List.length_cons, List.length_append]
  omega

/-- A packet that is cut short is refused. -/
theorem decode_ne_ok_of_short {frame : PublishFrame} {front more : Bytes}
    (split : frame.wire = front ++ more) (cut : more ≠ []) (result : PublishPacket × Bytes) :
    PublishPacket.decode front ≠ .ok result := by
  intro decoded
  obtain ⟨header, tail, n, after, _, _, _, rfl, _, length, enough, _⟩ := decode_eq_ok decoded
  simp only [wire, List.cons_append, List.cons.injEq] at split
  exact cut (RemainingLength.eq_nil_of_decode frame.length_body_lt split.2 length enough)

end PublishFrame
end Sipusu.Protocol.V5
