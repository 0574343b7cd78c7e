import Sipusu.Protocol.V5.PublishEncode

/-!
# PUBLISH packets through both coders

A decoded PUBLISH packet survives being encoded and decoded again when it is no duplicate,
has no property of a kind that the encoder leaves out, and is short enough for its length.
-/

namespace Sipusu.Protocol.V5

open Sipusu.Foundation

namespace Publish.Properties

/-- No property is of a kind that the encoder leaves out. -/
structure Carried (properties : Properties) : Prop where
  topicAlias : properties.topicAlias = none
  responseTopic : properties.responseTopic = none
  correlationData : properties.correlationData = none
  subscriptionIdentifier : properties.subscriptionIdentifier = none

/-- What the decoder promises of properties: there are some, a list of user properties is not
empty, and their length fits. -/
structure Decoded (properties : Properties) : Prop where
  nonempty : properties ≠ empty
  listed : properties.userProperties ≠ some []
  short : properties.estLen < RemainingLength.limit

theorem foldl_userProperties (properties : Properties) (pairs : List (Str × Str)) :
    (pairs.map fun pair => Entry.userProperty pair.1 pair.2).foldl Entry.apply properties =
      { properties with
        userProperties :=
          if pairs = [] then properties.userProperties
          else some (properties.userProperties.getD [] ++ pairs) } := by
  induction pairs generalizing properties with
  | nil => rfl
  | cons pair rest inductionHypothesis =>
    rw [List.map_cons, List.foldl_cons, inductionHypothesis]
    by_cases last : rest = []
    · simp [last, Entry.apply]
    · simp [last, Entry.apply]

/-- Reading back what is written gives the properties of the kinds that are written. -/
theorem foldl_written {properties : Properties} (listed : properties.userProperties ≠ some []) :
    properties.written.foldl Entry.apply empty =
      { properties with
        topicAlias := none, responseTopic := none, correlationData := none,
        subscriptionIdentifier := none } := by
  rw [written, List.foldl_append, List.foldl_append, List.foldl_append, foldl_userProperties]
  obtain ⟨indicator, interval, _, _, _, users, _, content⟩ := properties
  have read : (if users.getD [] = [] then none else some ([] ++ users.getD [])) = users := by
    cases users with
    | none => rfl
    | some pairs =>
      have nonempty : pairs ≠ [] := fun none => listed (congrArg some none)
      simp [nonempty]
  cases indicator <;> cases interval <;> cases content <;>
    simpa [Entry.apply, empty] using read

theorem collect_written_eq_iff {properties : Properties}
    (listed : properties.userProperties ≠ some []) (some_ : properties.written ≠ []) :
    collect properties.written = some properties ↔ properties.Carried := by
  rw [collect, if_neg some_, foldl_written listed, Option.some.injEq]
  constructor
  · intro same
    rw [← same]
    exact ⟨rfl, rfl, rfl, rfl⟩
  · rintro ⟨topicAlias, responseTopic, correlationData, subscriptionIdentifier⟩
    cases properties
    simp_all

/-- Properties of which nothing is written and nothing left out are none at all. -/
theorem written_ne_nil {properties : Properties} (carried : properties.Carried)
    (decoded : properties.Decoded) : properties.written ≠ [] := by
  intro nothing
  have read := foldl_written decoded.listed
  rw [nothing, List.foldl_nil] at read
  apply decoded.nonempty
  obtain ⟨topicAlias, responseTopic, correlationData, subscriptionIdentifier⟩ := carried
  rw [read]
  cases properties
  simp_all

theorem listed_apply {properties : Properties} (listed : properties.userProperties ≠ some [])
    (entry : Entry) : (entry.apply properties).userProperties ≠ some [] := by
  cases entry with
  | userProperty key value => simp [Entry.apply]
  | _ => exact listed

theorem apply_ne_empty (properties : Properties) (entry : Entry) :
    entry.apply properties ≠ empty := by
  cases entry <;> simp [Entry.apply, empty]

theorem listed_of_whileNonempty {properties final : Properties} {buffer rest : Bytes}
    (result : Reader.whileNonempty decodeEntry properties buffer = .ok (final, rest)) :
    (properties.userProperties ≠ some [] → final.userProperties ≠ some []) ∧
      (properties ≠ empty → final ≠ empty) ∧ (buffer ≠ [] → final ≠ empty) := by
  refine Reader.whileNonempty_induct decodeEntry_shrinks
    (motive := fun properties buffer =>
      (properties.userProperties ≠ some [] → final.userProperties ≠ some []) ∧
        (properties ≠ empty → final ≠ empty) ∧ (buffer ≠ [] → final ≠ empty))
    ⟨id, id, absurd rfl⟩ ?_ result
  rintro properties buffer next rest step ⟨listed, nonempty, _⟩
  obtain ⟨_, _, _, entry, rfl, _, _⟩ := Entry.decodeEntry_consumes properties step
  have later := nonempty (apply_ne_empty properties entry)
  exact ⟨fun fine => listed (listed_apply fine entry), fun _ => later, fun _ => later⟩

/-- Properties that are decoded keep the decoder's promises. -/
theorem decode_decoded : Reader.Consumes decode fun properties _ =>
    ∀ given ∈ properties, given.Decoded := by
  refine Reader.Consumes.mono
    (Reader.Consumes.bind RemainingLength.decode_consumes.mapErr decodeOfLength_consumes) ?_
  rintro properties used ⟨_, front, back, rfl, ⟨_, few, bound⟩, rfl, looped⟩ given isGiven
  obtain ⟨filled, rest, result⟩ := looped given isGiven
  have size := size_le_of_whileNonempty result
  have nothing : empty.size = 0 := rfl
  have power : 128 ^ front.length ≤ RemainingLength.limit := Nat.pow_le_pow_right (by omega) few
  have estimate := given.estLen_le_size
  obtain ⟨listed, _, nonempty⟩ := listed_of_whileNonempty result
  exact ⟨nonempty filled, listed nofun, by omega⟩

end Publish.Properties

namespace PublishPacket

/-- The number that the encoder writes as the remaining length. -/
def declared (packet : PublishPacket) : UInt32 := UInt32.ofNat packet.encodedBody.length

/-- Encoding a packet and decoding the result gives the packet back. -/
def Survives (packet : PublishPacket) : Prop :=
  ∃ encoded rest, packet.encode = .ok encoded ∧ decode encoded = .ok (packet, rest)

/-- A packet that is no duplicate, has no property that the encoder leaves out, and has a body
whose length, modulo `2 ^ 32`, is positive and within the limit. -/
structure Resendable (packet : PublishPacket) : Prop where
  original : packet.dup = false
  carried : ∀ given ∈ packet.properties, given.Carried
  counted : packet.declared ≠ 0
  short : packet.declared.toNat ≤ 268435455

/-- What a decoded packet has for its properties. -/
theorem decode_properties {buffer rest : Bytes} {packet : PublishPacket}
    (decoded : decode buffer = .ok (packet, rest)) :
    ∀ given ∈ packet.properties, given.Decoded := by
  obtain ⟨_, _, _, body, dup, qos, retain, rfl, _, _, _, bodyRead⟩ :=
    PublishFrame.decode_eq_ok decoded
  simp only [decodeBody, Reader.bind_apply, Outcome.bind_eq_ok, Prod.exists, Reader.toVec_apply,
    Reader.pure_apply, Outcome.ok.injEq, Prod.mk.injEq] at bodyRead
  obtain ⟨_, _, _, _, _, _, properties, _, propertiesRead, _, _, _, rfl, _⟩ := bodyRead
  obtain ⟨_, _, kept⟩ := Publish.Properties.decode_decoded propertiesRead
  exact kept

/-- The decoder behind a length that the body of an encoded packet is long enough for. -/
theorem decode_declared {packet : PublishPacket} (encodable : packet.Encodable) {n : Nat}
    (bound : n < RemainingLength.limit) (enough : n ≤ packet.encodedBody.length) :
    decode (packet.fixedHeader :: (RemainingLength.form n ++ packet.encodedBody)) =
      Publish.Properties.decode (packet.propertyBlock ++ packet.payload) >>= fun result =>
        .ok ({ packet with dup := false, payload := result.2, properties := result.1 }, result.2) := by
  obtain ⟨isPublish, level, dup, retain⟩ := packet.decode_fixedHeader
  rw [PublishFrame.decode_header_form isPublish level bound, if_pos enough, dup, retain,
    decodeBody_encodedBody encodable]

theorem propertyBlock_of_none {packet : PublishPacket} (absent : packet.properties = none) :
    packet.propertyBlock = Publish.block [] := by
  simp [propertyBlock, written, absent]

theorem propertyBlock_of_some {packet : PublishPacket} {given : Publish.Properties}
    (present : packet.properties = some given) :
    packet.propertyBlock = if given.written = [] then [] else Publish.block given.written := by
  simp [propertyBlock, written, present]

/-- The properties and the payload are read back exactly when the encoder leaves out no
property. -/
theorem decode_propertyBlock_iff {packet : PublishPacket} (encodable : packet.Encodable)
    (kept : ∀ given ∈ packet.properties, given.Decoded) :
    Publish.Properties.decode (packet.propertyBlock ++ packet.payload) =
        .ok (packet.properties, packet.payload) ↔
      ∀ given ∈ packet.properties, given.Carried := by
  cases present : packet.properties with
  | none =>
    have none : ∀ entry ∈ ([] : List Publish.Entry), entry.Fits :=
      fun entry member => absurd member List.not_mem_nil
    rw [propertyBlock_of_none present, Publish.Properties.decode_block none (by decide)]
    exact iff_of_true rfl nofun
  | some given =>
    obtain ⟨nonempty, listed, short⟩ := kept given present
    have fit : ∀ entry ∈ given.written, entry.Fits := by
      have fits := encodable.entriesFit
      rwa [written, present] at fits
    rw [Publish.Properties.estLen_eq] at short
    rw [propertyBlock_of_some present]
    simp only [Option.mem_def, Option.some.injEq, forall_eq']
    by_cases nothing : given.written = []
    · rw [if_pos nothing, List.nil_append]
      refine iff_of_false ?_ ?_
      · intro read
        obtain ⟨used, split, size⟩ := Publish.Properties.decode_consumes read
        have positive := Publish.Properties.blockSize_pos (some given)
        have lengths := congrArg List.length split
        rw [List.length_append] at lengths
        omega
      · intro carried
        exact Publish.Properties.written_ne_nil carried (kept given present) nothing
    · rw [if_neg nothing, Publish.Properties.decode_block fit short,
        ← Publish.Properties.collect_written_eq_iff listed nothing]
      simp

/-- Without an octet for the length, the decoder takes the first octets of the body for it,
and what is left is too short for the packet. -/
theorem decode_uncounted_ne {packet : PublishPacket} {header : UInt8} {rest : Bytes} :
    decode (header :: packet.encodedBody) ≠ .ok (packet, rest) := by
  intro decoded
  have length := (decode_encodable decoded).2
  rw [List.length_cons] at length
  omega

/-- With an octet for the length, only the duplicate flag and properties that are left out
are lost. -/
theorem decode_declared_eq_ok_iff {packet : PublishPacket} (encodable : packet.Encodable)
    (kept : ∀ given ∈ packet.properties, given.Decoded) {n : Nat}
    (bound : n < RemainingLength.limit) (enough : n ≤ packet.encodedBody.length) :
    (∃ rest, decode (packet.fixedHeader :: (RemainingLength.form n ++ packet.encodedBody)) =
        .ok (packet, rest)) ↔
      packet.dup = false ∧ ∀ given ∈ packet.properties, given.Carried := by
  rw [decode_declared encodable bound enough, ← decode_propertyBlock_iff encodable kept]
  constructor
  · rintro ⟨rest, read⟩
    obtain ⟨⟨properties, payload⟩, blockRead, same⟩ := Outcome.bind_eq_ok.mp read
    simp only [Outcome.ok.injEq, Prod.mk.injEq] at same
    obtain ⟨same, _⟩ := same
    have original : packet.dup = false := by rw [← same]
    have properties : packet.properties = properties := by rw [← same]
    have payload : packet.payload = payload := by rw [← same]
    exact ⟨original, by rw [blockRead, properties, payload]⟩
  · rintro ⟨original, read⟩
    rw [read, Outcome.ok_bind, ← original]
    exact ⟨packet.payload, rfl⟩

/-- A decoded packet survives being encoded exactly when it is resendable. -/
theorem survives_iff {buffer rest : Bytes} {packet : PublishPacket}
    (decoded : decode buffer = .ok (packet, rest)) : packet.Survives ↔ packet.Resendable := by
  have encodable := (decode_encodable decoded).1
  have kept := decode_properties decoded
  have encoding : packet.encode = RemainingLength.encode packet.declared >>= fun rml =>
      .ok (packet.fixedHeader :: (rml ++ packet.encodedBody)) :=
    encode_eq_counted encodable fun given present => (kept given present).short
  have isLimit := RemainingLength.limit_eq
  have enough : packet.declared.toNat ≤ packet.encodedBody.length := by
    rw [declared, UInt32.toNat_ofNat']
    exact Nat.mod_le _ _
  by_cases zero : packet.declared = 0
  · have uncounted : packet.encode = .ok (packet.fixedHeader :: packet.encodedBody) := by
      rw [encoding, zero]
      rfl
    refine iff_of_false ?_ fun resendable => resendable.counted zero
    rintro ⟨encoded, rest, isEncoded, read⟩
    rw [uncounted, Outcome.ok.injEq] at isEncoded
    rw [← isEncoded] at read
    exact decode_uncounted_ne read
  · have positive : 0 < packet.declared.toNat := by
      apply Nat.pos_of_ne_zero
      intro none
      exact zero (UInt32.toNat_inj.mp none)
    rw [RemainingLength.encode_eq positive] at encoding
    by_cases short : packet.declared.toNat < RemainingLength.limit
    · rw [if_pos short, Outcome.ok_bind] at encoding
      have again := decode_declared_eq_ok_iff encodable kept short enough
      constructor
      · rintro ⟨encoded, rest, isEncoded, read⟩
        rw [encoding, Outcome.ok.injEq] at isEncoded
        rw [← isEncoded] at read
        obtain ⟨original, carried⟩ := again.mp ⟨rest, read⟩
        exact ⟨original, carried, zero, by omega⟩
      · rintro ⟨original, carried, _, _⟩
        obtain ⟨rest, read⟩ := again.mpr ⟨original, carried⟩
        exact ⟨_, rest, encoding, read⟩
    · rw [if_neg short, Outcome.err_bind] at encoding
      refine iff_of_false ?_ fun resendable => short (by have := resendable.short; omega)
      rintro ⟨encoded, rest, isEncoded, _⟩
      rw [encoding] at isEncoded
      cases isEncoded

/-- A packet with a payload and no properties. -/
def plainPacket (dup : Bool) : PublishPacket :=
  { dup, qos := .qos1, retain := false, topic := ⟨[0x74], by decide⟩, packetId := some 7,
    payload := [0x68, 0x69], properties := none }

/-- The first sending of a packet survives. -/
theorem survives_iff_original : (plainPacket false).Survives := by
  have decoded : decode [0x32, 0x08, 0x00, 0x01, 0x74, 0x00, 0x07, 0x00, 0x68, 0x69] =
      .ok (plainPacket false, [0x68, 0x69]) := rfl
  exact (survives_iff decoded).mpr ⟨rfl, nofun, by decide, by decide⟩

/-- A packet that is sent again loses its duplicate flag. -/
theorem duplicate_lost :
    decode [0x3A, 0x08, 0x00, 0x01, 0x74, 0x00, 0x07, 0x00, 0x68, 0x69] =
        .ok (plainPacket true, [0x68, 0x69]) ∧ ¬ (plainPacket true).Survives := by
  refine ⟨rfl, ?_⟩
  rintro ⟨encoded, rest, isEncoded, read⟩
  have octets : (plainPacket true).encode =
      .ok [0x32, 0x08, 0x00, 0x01, 0x74, 0x00, 0x07, 0x00, 0x68, 0x69] := rfl
  have again : decode [0x32, 0x08, 0x00, 0x01, 0x74, 0x00, 0x07, 0x00, 0x68, 0x69] =
      .ok (plainPacket false, [0x68, 0x69]) := rfl
  rw [octets, Outcome.ok.injEq] at isEncoded
  rw [← isEncoded, again] at read
  cases read

end PublishPacket
end Sipusu.Protocol.V5
