import Sipusu.Protocol.V5.Connack
import Sipusu.Protocol.V5.Fields
import Sipusu.Protocol.V5.UserProperties

/-!
# Properties of CONNACK packets

The properties that the encoder writes, one after another, and what the decoder makes of each
of them.
-/

namespace Sipusu.Protocol.V5

open Sipusu.Foundation

namespace Connack

/-- A property of a CONNACK packet. -/
inductive Entry where
  | sessionExpiryInterval (interval : UInt32)
  | receiveMaximum (maximum : UInt16)
  | maximumQos (qos : UInt8)
  | retainAvailable (available : UInt8)
  | maximumPacketSize (size : UInt16)
  | assignedClientIdentifier (identifier : Str)
  | topicAliasMaximum (maximum : UInt16)
  | reasonString (reason : Str)
  | userProperty (pair : Str × Str)
  | wildcardSubscriptionAvailable (available : UInt8)
  | subscriptionIdentifierAvailable (available : UInt8)
  | sharedSubscriptionAvailable (available : UInt8)
  | serverKeepAlive (keepAlive : UInt16)
  | responseInformation (information : Str)
  | serverReference (reference : Str)
  | authenticationMethod (method : Str)
  | authenticationData (data : Bytes)

namespace Entry

/-- The octets of a property. -/
def bytes : Entry → Bytes
  | .sessionExpiryInterval interval => 0x11 :: be32 interval
  | .receiveMaximum maximum => 0x21 :: be16 maximum
  | .maximumQos qos => [0x24, qos]
  | .retainAvailable available => [0x25, available]
  | .maximumPacketSize size => 0x27 :: be16 size
  | .assignedClientIdentifier identifier => 0x12 :: lengthPrefixed identifier.bytes
  | .topicAliasMaximum maximum => 0x22 :: be16 maximum
  | .reasonString reason => 0x1F :: lengthPrefixed reason.bytes
  | .userProperty pair => pairBytes pair
  | .wildcardSubscriptionAvailable available => [0x28, available]
  | .subscriptionIdentifierAvailable available => [0x29, available]
  | .sharedSubscriptionAvailable available => [0x2A, available]
  | .serverKeepAlive keepAlive => 0x13 :: be16 keepAlive
  | .responseInformation information => 0x1A :: lengthPrefixed information.bytes
  | .serverReference reference => 0x1C :: lengthPrefixed reference.bytes
  | .authenticationMethod method => 0x15 :: lengthPrefixed method.bytes
  | .authenticationData data => 0x16 :: lengthPrefixed data

/-- The octets that a property takes. -/
def size : Entry → Nat
  | .maximumQos _ | .retainAvailable _ | .wildcardSubscriptionAvailable _
  | .subscriptionIdentifierAvailable _ | .sharedSubscriptionAvailable _ => 2
  | .receiveMaximum _ | .maximumPacketSize _ | .topicAliasMaximum _ | .serverKeepAlive _ => 3
  | .sessionExpiryInterval _ => 5
  | .assignedClientIdentifier text | .reasonString text | .responseInformation text
  | .serverReference text | .authenticationMethod text => 3 + text.len
  | .userProperty pair => 5 + pair.1.len + pair.2.len
  | .authenticationData data => 3 + data.length

/-- Lengths fit into their fields. -/
def Fits : Entry → Prop
  | .assignedClientIdentifier text | .reasonString text | .responseInformation text
  | .serverReference text | .authenticationMethod text => text.len < 65536
  | .userProperty pair => pair.1.len < 65536 ∧ pair.2.len < 65536
  | .authenticationData data => data.length < 65536
  | _ => True

/-- The properties with one more. -/
def apply (properties : Properties) : Entry → Properties
  | .sessionExpiryInterval interval => { properties with sessionExpiryInterval := some interval }
  | .receiveMaximum maximum => { properties with receiveMaximum := some maximum }
  | .maximumQos qos => { properties with maximumQos := some qos }
  | .retainAvailable available => { properties with retainAvailable := some available }
  | .maximumPacketSize size => { properties with maximumPacketSize := some size }
  | .assignedClientIdentifier identifier =>
      { properties with assignedClientIdentifier := some identifier }
  | .topicAliasMaximum maximum => { properties with topicAliasMaximum := some maximum }
  | .reasonString reason => { properties with reasonString := some reason }
  | .userProperty pair =>
      { properties with userProperties := some (properties.userProperties.getD [] ++ [pair]) }
  | .wildcardSubscriptionAvailable available =>
      { properties with wildcardSubscriptionAvailable := some available }
  | .subscriptionIdentifierAvailable available =>
      { properties with subscriptionIdentifierAvailable := some available }
  | .sharedSubscriptionAvailable available =>
      { properties with sharedSubscriptionAvailable := some available }
  | .serverKeepAlive keepAlive => { properties with serverKeepAlive := some keepAlive }
  | .responseInformation information =>
      { properties with responseInformation := some information }
  | .serverReference reference => { properties with serverReference := some reference }
  | .authenticationMethod method => { properties with authenticationMethod := some method }
  | .authenticationData data => { properties with authenticationData := some data }

theorem bytes_ne_nil (entry : Entry) : entry.bytes ≠ [] := by
  cases entry <;> exact List.cons_ne_nil _ _

theorem length_bytes (entry : Entry) : entry.bytes.length = entry.size := by
  cases entry <;> simp [bytes, size, pairBytes, Str.len] <;> omega

/-- Reading a property adds it. -/
theorem decodeEntry_bytes {entry : Entry} (fits : entry.Fits) (properties : Properties)
    (rest : Bytes) :
    Properties.decodeEntry properties (entry.bytes ++ rest) =
      .ok (entry.apply properties, rest) := by
  cases entry with
  | sessionExpiryInterval interval =>
    exact Reader.map_of_ok (Reader.getU32_be32 interval rest) fun interval =>
      { properties with sessionExpiryInterval := some interval }
  | receiveMaximum value =>
    exact Reader.map_of_ok (Reader.getU16_be16 value rest) fun value =>
      { properties with receiveMaximum := some value }
  | maximumPacketSize value =>
    exact Reader.map_of_ok (Reader.getU16_be16 value rest) fun value =>
      { properties with maximumPacketSize := some value }
  | topicAliasMaximum value =>
    exact Reader.map_of_ok (Reader.getU16_be16 value rest) fun value =>
      { properties with topicAliasMaximum := some value }
  | serverKeepAlive value =>
    exact Reader.map_of_ok (Reader.getU16_be16 value rest) fun value =>
      { properties with serverKeepAlive := some value }
  | maximumQos value =>
    exact Reader.map_of_ok (Reader.getU8_cons value rest) fun value =>
      { properties with maximumQos := some value }
  | retainAvailable value =>
    exact Reader.map_of_ok (Reader.getU8_cons value rest) fun value =>
      { properties with retainAvailable := some value }
  | wildcardSubscriptionAvailable value =>
    exact Reader.map_of_ok (Reader.getU8_cons value rest) fun value =>
      { properties with wildcardSubscriptionAvailable := some value }
  | subscriptionIdentifierAvailable value =>
    exact Reader.map_of_ok (Reader.getU8_cons value rest) fun value =>
      { properties with subscriptionIdentifierAvailable := some value }
  | sharedSubscriptionAvailable value =>
    exact Reader.map_of_ok (Reader.getU8_cons value rest) fun value =>
      { properties with sharedSubscriptionAvailable := some value }
  | assignedClientIdentifier text =>
    exact Reader.map_of_ok (decodeUtf8String_form fits rest) fun text =>
      { properties with assignedClientIdentifier := some text }
  | reasonString text =>
    exact Reader.map_of_ok (decodeUtf8String_form fits rest) fun text =>
      { properties with reasonString := some text }
  | responseInformation text =>
    exact Reader.map_of_ok (decodeUtf8String_form fits rest) fun text =>
      { properties with responseInformation := some text }
  | serverReference text =>
    exact Reader.map_of_ok (decodeUtf8String_form fits rest) fun text =>
      { properties with serverReference := some text }
  | authenticationMethod text =>
    exact Reader.map_of_ok (decodeUtf8String_form fits rest) fun text =>
      { properties with authenticationMethod := some text }
  | authenticationData data =>
    exact Reader.map_of_ok (decodeBinaryData_form fits rest) fun data =>
      { properties with authenticationData := some data }
  | userProperty pair =>
    obtain ⟨keyFits, valueFits⟩ := fits
    have read := decodeStringPair_form keyFits valueFits rest
    rw [← List.append_assoc] at read
    exact Reader.map_of_ok read fun pair =>
      { properties with userProperties := some (properties.userProperties.getD [] ++ [pair]) }

end Entry

namespace Properties

/-- The properties that are present, in the order of the encoder. -/
def written (properties : Properties) : List Entry :=
  (properties.sessionExpiryInterval.map Entry.sessionExpiryInterval).toList ++
  (properties.receiveMaximum.map Entry.receiveMaximum).toList ++
  (properties.maximumQos.map Entry.maximumQos).toList ++
  (properties.retainAvailable.map Entry.retainAvailable).toList ++
  (properties.maximumPacketSize.map Entry.maximumPacketSize).toList ++
  (properties.assignedClientIdentifier.map Entry.assignedClientIdentifier).toList ++
  (properties.topicAliasMaximum.map Entry.topicAliasMaximum).toList ++
  (properties.reasonString.map Entry.reasonString).toList ++
  (properties.userProperties.getD []).map Entry.userProperty ++
  (properties.wildcardSubscriptionAvailable.map Entry.wildcardSubscriptionAvailable).toList ++
  (properties.subscriptionIdentifierAvailable.map Entry.subscriptionIdentifierAvailable).toList ++
  (properties.sharedSubscriptionAvailable.map Entry.sharedSubscriptionAvailable).toList ++
  (properties.serverKeepAlive.map Entry.serverKeepAlive).toList ++
  (properties.responseInformation.map Entry.responseInformation).toList ++
  (properties.serverReference.map Entry.serverReference).toList ++
  (properties.authenticationMethod.map Entry.authenticationMethod).toList ++
  (properties.authenticationData.map Entry.authenticationData).toList

/-- The octets that the properties take. -/
def size (properties : Properties) : Nat := (properties.written.map Entry.size).sum

theorem length_written (properties : Properties) :
    (properties.written.flatMap Entry.bytes).length = properties.size := by
  rw [List.length_flatMap, size]
  exact congrArg List.sum (List.map_congr_left fun entry _ => Entry.length_bytes entry)

section Encoding

variable {α : Type} {construct : α → Entry}

theorem flatMap_present (value : Option α) :
    (value.map construct).toList.flatMap Entry.bytes =
      value.elim [] fun value => (construct value).bytes := by
  cases value <;> simp

theorem forall_present (value : Option α) (property : Entry → Prop) :
    (∀ entry ∈ (value.map construct).toList, property entry) ↔
      ∀ given ∈ value, property (construct given) := by
  cases value <;> simp

/-- A string behind an identifier is written when it fits. -/
theorem text_eq_ok {identifier : UInt8} {value : Option Str} {octets : Bytes} :
    text identifier value = .ok octets ↔ (∀ given ∈ value, given.len < 65536) ∧
      octets = value.elim [] fun value => identifier :: lengthPrefixed value.bytes := by
  cases value with
  | none => simp [text, eq_comm]
  | some value =>
    simp only [text, Outcome.bind_eq_ok, encodeUtf8String_eq_ok, and_assoc, exists_and_left,
      exists_eq_left, Outcome.pure_eq, Outcome.ok.injEq, Option.mem_some_iff, forall_eq',
      Option.elim_some, @eq_comm _ octets]

theorem encodeAuthenticationData_eq_ok {value : Option Bytes} {octets : Bytes} :
    encodeAuthenticationData value = .ok octets ↔ (∀ given ∈ value, given.length < 65536) ∧
      octets = value.elim [] fun data => 0x16 :: lengthPrefixed data := by
  cases value with
  | none => simp [encodeAuthenticationData, eq_comm]
  | some data =>
    simp only [encodeAuthenticationData, Outcome.bind_eq_ok, encodeBinaryData_eq_ok, and_assoc,
      exists_and_left, exists_eq_left, Outcome.pure_eq, Outcome.ok.injEq, Option.mem_some_iff,
      forall_eq', Option.elim_some, @eq_comm _ octets]

/-- The properties are written one after another when all their lengths fit, and not at all
otherwise. -/
theorem encode_eq_ok {properties : Properties} {octets : Bytes} :
    encode properties = .ok octets ↔
      (∀ entry ∈ properties.written, entry.Fits) ∧
        octets = properties.written.flatMap Entry.bytes := by
  have users {octets : Bytes} := @pairsLoop_eq_ok encodeUserProperties rfl
    (fun key value rest => rfl) (properties.userProperties.getD []) octets
  have pairs : (properties.userProperties.getD []).flatMap (fun pair =>
      (Entry.userProperty pair).bytes) = (properties.userProperties.getD []).flatMap pairBytes := rfl
  simp only [encode, written, Outcome.bind_eq_ok, text_eq_ok, encodeAuthenticationData_eq_ok, users,
    List.flatMap_append, flatMap_present, List.flatMap_map, pairs, List.forall_mem_append,
    forall_present, List.forall_mem_map, Entry.Fits, Outcome.pure_eq, Outcome.ok.injEq, and_assoc,
    exists_and_left, exists_eq_left, implies_true, true_and, @eq_comm _ octets]
  exact Iff.rfl

end Encoding

section Decoding

theorem decodeEntry_shrinks : Reader.Shrinks decodeEntry := by
  apply Reader.shrinks_of_getU8 fun _ => rfl
  intro properties identifier
  have number : Reader.Consumes (Reader.getU16 : Reader String UInt16) fun _ _ => True :=
    Reader.Consumes.getU16.mono fun _ => trivial
  have octet : Reader.Consumes (Reader.getU8 : Reader String UInt8) fun _ _ => True :=
    Reader.Consumes.getU8.mono fun _ => trivial
  have text : Reader.Consumes decodeUtf8String fun _ _ => True :=
    decodeUtf8String_consumes.mono fun _ => trivial
  split
  · exact (Reader.Consumes.getU32.map _).mono fun _ => trivial
  · exact (number.map _).mono fun _ => trivial
  · exact (octet.map _).mono fun _ => trivial
  · exact (octet.map _).mono fun _ => trivial
  · exact (number.map _).mono fun _ => trivial
  · exact (text.map _).mono fun _ => trivial
  · exact (number.map _).mono fun _ => trivial
  · exact (text.map _).mono fun _ => trivial
  · exact (decodeStringPair_consumes.map _).mono fun _ => trivial
  · exact (octet.map _).mono fun _ => trivial
  · exact (octet.map _).mono fun _ => trivial
  · exact (octet.map _).mono fun _ => trivial
  · exact (number.map _).mono fun _ => trivial
  · exact (text.map _).mono fun _ => trivial
  · exact (text.map _).mono fun _ => trivial
  · exact (text.map _).mono fun _ => trivial
  · exact (decodeBinaryData_consumes.map _).mono fun _ => trivial
  · intro buffer value rest failed
    cases failed

/-- A property that may be absent sets its own field to what it was. -/
theorem foldl_present {α : Type} (construct : α → Entry)
    (set : Properties → Option α → Properties)
    (present : ∀ properties value,
      (construct value).apply properties = set properties (some value))
    {properties : Properties} (absent : set properties none = properties) (value : Option α) :
    (value.map construct).toList.foldl Entry.apply properties = set properties value := by
  cases value with
  | none => exact absent.symm
  | some value => exact present properties value

theorem foldl_userProperties {properties : Properties} (absent : properties.userProperties = none)
    {pairs : Option (List (Str × Str))} (listed : pairs ≠ some []) :
    ((pairs.getD []).map Entry.userProperty).foldl Entry.apply properties =
      { properties with userProperties := pairs } := by
  have further (more : List (Str × Str)) (start : Properties) (known : List (Str × Str)) :
      (more.map Entry.userProperty).foldl Entry.apply
        { start with userProperties := some known } =
          { start with userProperties := some (known ++ more) } := by
    induction more generalizing known with
    | nil => simp
    | cons pair rest inductionHypothesis => simp [inductionHypothesis, Entry.apply]
  match pairs with
  | none =>
    have same : properties = { properties with userProperties := none } := by rw [← absent]
    exact same
  | some [] => exact absurd rfl listed
  | some (pair :: rest) =>
    have first : (Entry.userProperty pair).apply properties =
        { properties with userProperties := some [pair] } := by
      rw [Entry.apply, absent]
      rfl
    rw [Option.getD_some, List.map_cons, List.foldl_cons, first, further, List.singleton_append]

/-- The written properties, read one after another, are the properties. -/
theorem foldl_written {properties : Properties} (listed : properties.userProperties ≠ some []) :
    properties.written.foldl Entry.apply default = properties := by
  simp only [written, List.foldl_append]
  rw [foldl_present .sessionExpiryInterval
      (fun start value => { start with sessionExpiryInterval := value }) fun _ _ => rfl,
    foldl_present .receiveMaximum
      (fun start value => { start with receiveMaximum := value }) fun _ _ => rfl,
    foldl_present .maximumQos
      (fun start value => { start with maximumQos := value }) fun _ _ => rfl,
    foldl_present .retainAvailable
      (fun start value => { start with retainAvailable := value }) fun _ _ => rfl,
    foldl_present .maximumPacketSize
      (fun start value => { start with maximumPacketSize := value }) fun _ _ => rfl,
    foldl_present .assignedClientIdentifier
      (fun start value => { start with assignedClientIdentifier := value }) fun _ _ => rfl,
    foldl_present .topicAliasMaximum
      (fun start value => { start with topicAliasMaximum := value }) fun _ _ => rfl,
    foldl_present .reasonString
      (fun start value => { start with reasonString := value }) fun _ _ => rfl,
    foldl_userProperties rfl listed,
    foldl_present .wildcardSubscriptionAvailable
      (fun start value => { start with wildcardSubscriptionAvailable := value }) fun _ _ => rfl,
    foldl_present .subscriptionIdentifierAvailable
      (fun start value => { start with subscriptionIdentifierAvailable := value }) fun _ _ => rfl,
    foldl_present .sharedSubscriptionAvailable
      (fun start value => { start with sharedSubscriptionAvailable := value }) fun _ _ => rfl,
    foldl_present .serverKeepAlive
      (fun start value => { start with serverKeepAlive := value }) fun _ _ => rfl,
    foldl_present .responseInformation
      (fun start value => { start with responseInformation := value }) fun _ _ => rfl,
    foldl_present .serverReference
      (fun start value => { start with serverReference := value }) fun _ _ => rfl,
    foldl_present .authenticationMethod
      (fun start value => { start with authenticationMethod := value }) fun _ _ => rfl,
    foldl_present .authenticationData
      (fun start value => { start with authenticationData := value }) fun _ _ => rfl]
  all_goals rfl

/-- Properties of which nothing is written are none at all. -/
theorem written_ne_nil {properties : Properties} (listed : properties.userProperties ≠ some [])
    (given : properties ≠ default) : properties.written ≠ [] := by
  intro nothing
  have read := foldl_written listed
  rw [nothing, List.foldl_nil] at read
  exact given read.symm

/-- The loop of the decoder inverts the encoder. -/
theorem whileNonempty_written {properties : Properties}
    (fit : ∀ entry ∈ properties.written, entry.Fits)
    (listed : properties.userProperties ≠ some []) :
    Reader.whileNonempty decodeEntry default (properties.written.flatMap Entry.bytes) =
      .ok (properties, []) := by
  rw [Reader.whileNonempty_flatMap decodeEntry_shrinks Entry.bytes_ne_nil
    fun entry member state rest => Entry.decodeEntry_bytes (fit entry member) state rest,
    foldl_written listed]

end Decoding

end Properties
end Connack

/-- The octets in front of the properties that say how many follow, of which the encoder
writes none when none follow. -/
def Connack.Properties.sizeOctets (properties : Connack.Properties) : Bytes :=
  if properties.size = 0 then [] else RemainingLength.form properties.size

theorem Connack.Properties.length_sizeOctets_le {properties : Connack.Properties}
    (small : properties.size < RemainingLength.limit) : properties.sizeOctets.length ≤ 4 := by
  rw [sizeOctets]
  split
  · exact Nat.zero_le 4
  · exact RemainingLength.length_form_le_four small

namespace ConnackPacket

/-- The octets of a packet with properties. -/
def withProperties (packet : ConnackPacket) (properties : Connack.Properties) : Bytes :=
  0x20 :: (RemainingLength.form (properties.size + 2 + properties.sizeOctets.length) ++
    (packet.sessionPresent.toUInt8 :: packet.returnCode ::
      (properties.sizeOctets ++ properties.written.flatMap Connack.Entry.bytes)))

/-- Properties that are not too long are encoded when their lengths fit. -/
theorem encode_eq_ok {packet : ConnackPacket} {properties : Connack.Properties}
    (given : packet.properties = some properties) (bound : properties.size ≤ 268435449)
    {octets : Bytes} :
    packet.encode = .ok octets ↔
      (∀ entry ∈ properties.written, entry.Fits) ∧ octets = packet.withProperties properties := by
  have isLimit := RemainingLength.limit_eq
  have small : properties.size < RemainingLength.limit := by omega
  have short := Connack.Properties.length_sizeOctets_le small
  have total : properties.size + 2 + properties.sizeOctets.length < RemainingLength.limit := by
    omega
  have positive : properties.size + 2 + properties.sizeOctets.length ≠ 0 := by omega
  have sizeCounted : RemainingLength.encode
      (UInt32.ofNat (properties.written.flatMap Connack.Entry.bytes).length) =
        .ok properties.sizeOctets := by
    rw [Connack.Properties.length_written, RemainingLength.encode_of_size small]
    rfl
  have counted : RemainingLength.encode
      (UInt32.ofNat ((properties.written.flatMap Connack.Entry.bytes).length + 2 +
        properties.sizeOctets.length)) =
          .ok (RemainingLength.form (properties.size + 2 + properties.sizeOctets.length)) := by
    rw [Connack.Properties.length_written, RemainingLength.encode_of_size total, if_neg positive]
  rw [encode, given, Option.elim_some]
  simp only [Outcome.bind_eq_ok, Connack.Properties.encode_eq_ok, and_assoc, exists_and_left,
    exists_eq_left, sizeCounted, counted, Outcome.ok.injEq, exists_eq_left', Outcome.pure_eq,
    @eq_comm _ octets]
  exact Iff.rfl

end ConnackPacket
end Sipusu.Protocol.V5
