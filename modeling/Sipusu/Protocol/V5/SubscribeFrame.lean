import Sipusu.Protocol.V5.Subscribe

/-!
# SUBSCRIBE packets on the wire

A well-formed SUBSCRIBE packet. The decoder returns it from its octets, whatever follows
them, when it has no properties, and never when it has some.
-/

namespace Sipusu.Protocol.V5

open Sipusu.Foundation

/-- A property of a SUBSCRIBE packet. -/
inductive SubscribeProperty where
  | subscriptionIdentifier (subscription : Nat)
  | userProperty (key value : Str)
deriving DecidableEq

namespace SubscribeProperty

/-- The octets of a property. -/
def bytes : SubscribeProperty → Bytes
  | .subscriptionIdentifier subscription => 0x0B :: RemainingLength.form subscription
  | .userProperty key value => 0x26 :: (lengthPrefixed key.bytes ++ lengthPrefixed value.bytes)

/-- Lengths fit into their fields. -/
def Fits : SubscribeProperty → Prop
  | .subscriptionIdentifier subscription => subscription < RemainingLength.limit
  | .userProperty key value => key.len < 65536 ∧ value.len < 65536

end SubscribeProperty

/-- A topic filter with its options, whose two low bits are a level. -/
structure TopicFilter where
  topic : Str
  options : UInt8
  maxQos : ServiceLevel
  topicFits : topic.len < 65536
  granted : ServiceLevel.tryFrom (options &&& 0x3) = some maxQos

namespace TopicFilter

/-- The octets of a filter. -/
def bytes (filter : TopicFilter) : Bytes := lengthPrefixed filter.topic.bytes ++ [filter.options]

/-- What the decoder keeps of a filter. -/
def content (filter : TopicFilter) : Subscribe := ⟨filter.topic, filter.maxQos⟩

end TopicFilter

/-- The property block of a SUBSCRIBE packet: its length, and the properties. -/
def subscribeBlock (properties : List SubscribeProperty) : Bytes :=
  RemainingLength.form (properties.flatMap SubscribeProperty.bytes).length ++
    properties.flatMap SubscribeProperty.bytes

theorem subscribeBlock_nil : subscribeBlock [] = [0x00] := rfl

/-- A well-formed SUBSCRIBE packet. -/
structure SubscribeFrame where
  id : UInt16
  properties : List SubscribeProperty
  filters : List TopicFilter
  propertiesFit : ∀ property ∈ properties, property.Fits
  fits : (be16 id ++ (subscribeBlock properties ++ filters.flatMap TopicFilter.bytes)).length <
    RemainingLength.limit

namespace SubscribePacket

/-- The number of octets that filters take. -/
def filtersSize (list : List Subscribe) : Nat := (list.map fun sub => 3 + sub.topic.len).sum

theorem filtersSize_cons (sub : Subscribe) (list : List Subscribe) :
    filtersSize (sub :: list) = 3 + sub.topic.len + filtersSize list := by
  simp [filtersSize]

theorem filtersSize_map (filters : List TopicFilter) :
    filtersSize (filters.map TopicFilter.content) =
      (filters.flatMap TopicFilter.bytes).length := by
  induction filters with
  | nil => rfl
  | cons filter rest inductionHypothesis =>
    have topic : filter.content.topic.len = filter.topic.bytes.length := rfl
    rw [List.map_cons, filtersSize_cons, inductionHypothesis, topic, List.flatMap_cons,
      List.length_append, TopicFilter.bytes, List.length_append, length_lengthPrefixed,
      List.length_singleton]
    omega

theorem decodeFilter_bytes (filter : TopicFilter) (list : List Subscribe) (rest : Bytes) :
    decodeFilter list (filter.bytes ++ rest) = .ok (list ++ [filter.content], rest) := by
  have length : (UInt16.ofNat filter.topic.bytes.length).toNat = filter.topic.bytes.length :=
    UInt16.toNat_ofNat_of_lt' filter.topicFits
  simp [decodeFilter, TopicFilter.bytes, TopicFilter.content, lengthPrefixed, length,
    filter.granted]

theorem decodeFilter_consumes (list : List Subscribe) :
    Reader.Consumes (decodeFilter list) fun next used =>
      ∃ sub, next = list ++ [sub] ∧ used.length = 3 + sub.topic.len := by
  refine Reader.Consumes.mono (Reader.Consumes.bind Reader.Consumes.getU16 fun len =>
    Reader.Consumes.bind (Reader.Consumes.splitTo len.toNat) fun octets =>
      Reader.Consumes.bind (Reader.Consumes.ofOption _ _) fun topic =>
        Reader.Consumes.bind Reader.Consumes.getU8 fun options =>
          Reader.Consumes.map (Reader.Consumes.ofOption _ _) _) ?_
  rintro next used ⟨len, _, _, rfl, rfl, octets, _, _, rfl, ⟨rfl, _⟩, topic, _, _, rfl,
    ⟨valid, rfl⟩, options, _, _, rfl, rfl, maxQos, rfl, _, rfl⟩
  rw [Str.fromUtf8?_eq_some] at valid
  refine ⟨_, rfl, ?_⟩
  simp [valid, Str.len]
  omega

theorem decodeFilter_shrinks : Reader.Shrinks decodeFilter := by
  refine Reader.shrinks_of_consumes decodeFilter_consumes ?_
  rintro list next used ⟨sub, _, length⟩ rfl
  rw [List.length_nil] at length
  omega

theorem whileNonempty_decodeFilter (filters : List TopicFilter) (list : List Subscribe) :
    Reader.whileNonempty decodeFilter list (filters.flatMap TopicFilter.bytes) =
      .ok (list ++ filters.map TopicFilter.content, []) := by
  have collected : filters.foldl (fun list filter => list ++ [filter.content]) list =
      list ++ filters.map TopicFilter.content := by
    induction filters generalizing list with
    | nil => simp
    | cons filter rest inductionHypothesis => simp [inductionHypothesis]
  rw [← collected]
  exact Reader.whileNonempty_flatMap decodeFilter_shrinks (fun filter => by simp [TopicFilter.bytes])
    (fun filter _ list rest => decodeFilter_bytes filter list rest) list

theorem filtersSize_eq {list final : List Subscribe} {buffer rest : Bytes}
    (result : Reader.whileNonempty decodeFilter list buffer = .ok (final, rest)) :
    filtersSize final = filtersSize list + buffer.length := by
  refine Reader.whileNonempty_induct decodeFilter_shrinks
    (motive := fun list buffer => filtersSize final = filtersSize list + buffer.length)
    rfl ?_ result
  intro list buffer next rest step size
  obtain ⟨used, rfl, sub, rfl, length⟩ := decodeFilter_consumes list step
  rw [size, List.length_append, length]
  simp [filtersSize]
  omega

/-- What a successful decoding has checked: the remaining length leaves exactly one octet
for properties. -/
theorem decode_eq_ok {buffer rest : Bytes} {packet : SubscribePacket}
    (decoded : SubscribePacket.decode buffer = .ok (packet, rest)) :
    ∃ header tail n body, buffer = header :: tail ∧ header >>> 4 = 0x08 ∧
      RemainingLength.decode tail = .ok (n, body) ∧ n ≤ body.length ∧
      n = 3 + filtersSize packet.list := by
  simp only [SubscribePacket.decode, skipHeader, Reader.bind_apply, Reader.replaceBy_apply,
    Outcome.bind_eq_ok, Prod.exists, Reader.ensure_eq_ok, Reader.getU8_eq_ok, Reader.mapErr_apply,
    Outcome.mapErr_eq_ok, Reader.pure_apply, Outcome.ok.injEq, Prod.mk.injEq] at decoded
  obtain ⟨header, tail, rfl, _, _, ⟨isSubscribe, rfl⟩, n, body, length, own, _, ownRead, _, _,
    ⟨_, rfl⟩, id, _, idRead, _, _, rfl, list, _, looped, rfl, rfl⟩ := decoded
  obtain ⟨_, rfl, rfl, ownLength⟩ := Reader.Consumes.splitTo n ownRead
  obtain ⟨_, rfl, rfl⟩ := Reader.Consumes.getU16 idRead
  have size := filtersSize_eq looped
  refine ⟨header, tail, n, _, rfl, isSubscribe, length, ?_, ?_⟩
  · rw [List.length_append]
    omega
  · rw [List.length_append, length_be16, List.length_cons] at ownLength
    simp only [filtersSize, List.map_nil, List.sum_nil] at size ⊢
    omega

end SubscribePacket

/-- A SUBSCRIBE packet with any octets in its property block. -/
structure RawSubscribe where
  id : UInt16
  contents : Bytes
  filters : List TopicFilter
  fits : (be16 id ++ (RemainingLength.form contents.length ++ (contents ++
    filters.flatMap TopicFilter.bytes))).length < RemainingLength.limit

namespace RawSubscribe

/-- What the remaining length counts. -/
def body (raw : RawSubscribe) : Bytes :=
  be16 raw.id ++ (RemainingLength.form raw.contents.length ++ (raw.contents ++
    raw.filters.flatMap TopicFilter.bytes))

/-- The octets of the packet. -/
def wire (raw : RawSubscribe) : Bytes :=
  0x82 :: (RemainingLength.form raw.body.length ++ raw.body)

/-- The identifier and the filters of the packet, in order. -/
def content (raw : RawSubscribe) : SubscribePacket :=
  { id := raw.id, list := raw.filters.map TopicFilter.content }

theorem length_body_lt (raw : RawSubscribe) : raw.body.length < RemainingLength.limit :=
  raw.fits

/-- Without properties, decoding the octets of a packet returns its contents and drops
whatever follows. -/
theorem decode_wire {raw : RawSubscribe} (plain : raw.contents = []) (more : Bytes) :
    SubscribePacket.decode (raw.wire ++ more) = .ok (raw.content, []) := by
  have length : RemainingLength.decode (RemainingLength.form raw.body.length ++
      (raw.body ++ more)) = .ok (raw.body.length, raw.body ++ more) :=
    RemainingLength.decode_form raw.length_body_lt _
  have isSubscribe : (0x82 : UInt8) >>> 4 = 0x08 := by decide
  have noProperties : RemainingLength.form ([] : Bytes).length = [0x00] := rfl
  simp only [SubscribePacket.decode, SubscribePacket.skipHeader, wire, List.cons_append,
    List.append_assoc, Reader.bind_apply, Reader.getU8_cons, Outcome.ok_bind, Reader.ensure_apply,
    isSubscribe, if_true, Reader.mapErr_apply, length, Outcome.mapErr, Reader.splitTo_append,
    Reader.replaceBy_apply]
  simp only [body, plain, noProperties, Reader.getU16_be16, Outcome.ok_bind, List.cons_append,
    List.nil_append, Reader.getU8_cons, SubscribePacket.whileNonempty_decodeFilter,
    Reader.pure_apply, content]

/-- A packet whose own octets decode to its contents has no properties: the filters that are
found take all octets but three. -/
theorem contents_eq_nil {raw : RawSubscribe} {rest : Bytes}
    (decoded : SubscribePacket.decode raw.wire = .ok (raw.content, rest)) : raw.contents = [] := by
  obtain ⟨header, tail, n, after, split, _, length, _, size⟩ := SubscribePacket.decode_eq_ok decoded
  simp only [wire, List.cons.injEq] at split
  rw [← split.2, RemainingLength.decode_form raw.length_body_lt] at length
  simp only [Outcome.ok.injEq, Prod.mk.injEq] at length
  have total := length.1.trans size
  have form := RemainingLength.length_form_pos raw.contents.length
  rw [content, SubscribePacket.filtersSize_map, body] at total
  simp only [List.length_append, length_be16] at total
  apply List.eq_nil_of_length_eq_zero
  omega

/-- The identifier and the filters are recovered exactly when the property block is empty. -/
theorem filters_recovered_iff (raw : RawSubscribe) :
    (∃ rest, SubscribePacket.decode raw.wire = .ok (raw.content, rest)) ↔ raw.contents = [] := by
  constructor
  · rintro ⟨rest, decoded⟩
    exact contents_eq_nil decoded
  · intro plain
    refine ⟨[], ?_⟩
    simpa using decode_wire plain []

theorem valid_topic : Utf8.valid [0x74] = true := rfl

/-- A packet with a user property in front of its filter. -/
def tagged : RawSubscribe :=
  { id := 1
    contents := (SubscribeProperty.userProperty ⟨[0x6B], rfl⟩ ⟨[0x76], rfl⟩).bytes
    filters := [⟨⟨[0x74], valid_topic⟩, 0x01, .qos1, by decide, by decide⟩]
    fits := by decide }

/-- The first two octets of the property are taken for the length of a topic. -/
theorem filters_lost_behind_properties :
    SubscribePacket.decode tagged.wire = .panic ∧
      ¬ ∃ rest, SubscribePacket.decode tagged.wire = .ok (tagged.content, rest) := by
  have aborted : SubscribePacket.decode tagged.wire = .panic := by decide
  refine ⟨aborted, ?_⟩
  rw [aborted]
  rintro ⟨rest, decoded⟩
  cases decoded

end RawSubscribe

namespace SubscribeFrame

/-- What the remaining length counts. -/
def body (frame : SubscribeFrame) : Bytes :=
  be16 frame.id ++ (subscribeBlock frame.properties ++ frame.filters.flatMap TopicFilter.bytes)

/-- The octets of the packet. -/
def wire (frame : SubscribeFrame) : Bytes :=
  0x82 :: (RemainingLength.form frame.body.length ++ frame.body)

/-- The contents of the packet; `SubscribePacket` has no field for its properties. -/
def content (frame : SubscribeFrame) : SubscribePacket :=
  { id := frame.id, list := frame.filters.map TopicFilter.content }

theorem length_body_lt (frame : SubscribeFrame) : frame.body.length < RemainingLength.limit :=
  frame.fits

/-- The packet with the octets of its properties. -/
def raw (frame : SubscribeFrame) : RawSubscribe :=
  { id := frame.id
    contents := frame.properties.flatMap SubscribeProperty.bytes
    filters := frame.filters
    fits := by
      have fits := frame.fits
      rwa [subscribeBlock, List.append_assoc] at fits }

theorem wire_raw (frame : SubscribeFrame) : frame.raw.wire = frame.wire := by
  rw [RawSubscribe.wire, wire, RawSubscribe.body, body, raw, subscribeBlock]
  simp only [List.append_assoc]

theorem contents_raw_eq_nil_iff (frame : SubscribeFrame) :
    frame.raw.contents = [] ↔ frame.properties = [] := by
  rw [raw, List.flatMap_eq_nil_iff, List.eq_nil_iff_forall_not_mem]
  refine forall_congr' fun property => forall_congr' fun member => iff_of_false ?_ not_false
  cases property <;> exact List.cons_ne_nil _ _

/-- Without properties, decoding the octets of a packet returns its contents and drops
whatever follows. -/
theorem decode_wire {frame : SubscribeFrame} (plain : frame.properties = []) (more : Bytes) :
    SubscribePacket.decode (frame.wire ++ more) = .ok (frame.content, []) := by
  rw [← wire_raw]
  exact RawSubscribe.decode_wire (frame.contents_raw_eq_nil_iff.mpr plain) more

theorem filtersSize_content (frame : SubscribeFrame) :
    SubscribePacket.filtersSize frame.content.list =
      (frame.filters.flatMap TopicFilter.bytes).length :=
  SubscribePacket.filtersSize_map frame.filters

/-- A packet whose own octets decode to its contents has no properties. -/
theorem properties_eq_nil {frame : SubscribeFrame} {rest : Bytes}
    (decoded : SubscribePacket.decode frame.wire = .ok (frame.content, rest)) :
    frame.properties = [] := by
  rw [← wire_raw] at decoded
  exact frame.contents_raw_eq_nil_iff.mp (RawSubscribe.contents_eq_nil decoded)

/-- The contents of a packet without properties are never decoded from fewer octets than
it has. -/
theorem length_le_of_decode {frame : SubscribeFrame} (plain : frame.properties = [])
    {buffer rest : Bytes}
    (decoded : SubscribePacket.decode buffer = .ok (frame.content, rest)) :
    frame.wire.length ≤ buffer.length := by
  obtain ⟨header, tail, n, after, rfl, _, length, enough, size⟩ :=
    SubscribePacket.decode_eq_ok decoded
  obtain ⟨used, rfl, positive, _, bound⟩ := RemainingLength.decode_consumes length
  have total : frame.body.length = n := by
    rw [size, filtersSize_content, body, plain, subscribeBlock_nil, List.length_append,
      List.length_append, length_be16, List.length_singleton]
    omega
  have form := RemainingLength.length_form_le positive bound
  rw [wire, total, List.length_cons, List.length_append, List.length_cons, List.length_append, total]
  omega

/-- A packet that is cut short is refused. -/
theorem decode_ne_ok_of_short {frame : SubscribeFrame} {front more : Bytes}
    (split : frame.wire = front ++ more) (cut : more ≠ []) (result : SubscribePacket × Bytes) :
    SubscribePacket.decode front ≠ .ok result := by
  intro decoded
  obtain ⟨header, tail, n, after, rfl, _, length, enough, _⟩ := SubscribePacket.decode_eq_ok decoded
  simp only [wire, List.cons_append, List.cons.injEq] at split
  exact cut (RemainingLength.eq_nil_of_decode frame.length_body_lt split.2 length enough)

end SubscribeFrame
end Sipusu.Protocol.V5
