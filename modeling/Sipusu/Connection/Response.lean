import Sipusu.Connection.Collect
import Sipusu.Protocol.CutShort
import Sipusu.Protocol.V5.ConnackEntries

/-!
# Responses always have an encoding

The response to a request repeats its user properties, and these take no more octets than
the request did. So the encoder of CONNACK packets refuses no response.
-/

namespace Sipusu.Protocol.V5

open Sipusu.Foundation

namespace Connect

/-- The octets that the user properties take. -/
def Properties.userSize (properties : Properties) : Nat :=
  pairsSize (properties.userProperties.getD [])

/-- A property that is no user property leaves these alone. -/
theorem consumes_other {α : Type} {reader : Reader String α} {post : α → Bytes → Prop}
    {properties : Properties} (consumes : Reader.Consumes reader post) (next : α → Properties)
    (same : ∀ value, (next value).userProperties = properties.userProperties) :
    Reader.Consumes (reader >>= fun value => pure (next value)) fun result used =>
      result.userSize ≤ properties.userSize + (used.length + 1) := by
  refine (consumes.map next).mono ?_
  rintro result used ⟨value, rfl, _⟩
  rw [Properties.userSize, Properties.userSize, same]
  omega

theorem decodeEntry_userSize (properties : Properties) :
    Reader.Consumes properties.decodeEntry fun next used =>
      next.userSize ≤ properties.userSize + used.length := by
  have behind : ∀ identifier : UInt8,
      Reader.Consumes (fun buffer => properties.decodeEntry (identifier :: buffer))
        fun next used => next.userSize ≤ properties.userSize + (used.length + 1) := by
    intro identifier
    unfold Properties.decodeEntry
    simp only [Reader.bind_apply, Reader.getU8_cons, Outcome.ok_bind]
    split
    · exact consumes_other Reader.Consumes.getU32 _ fun _ => rfl
    · exact consumes_other Reader.Consumes.getU16 _ fun _ => rfl
    · exact consumes_other Reader.Consumes.getU16 _ fun _ => rfl
    · exact consumes_other Reader.Consumes.getU16 _ fun _ => rfl
    · exact consumes_other Reader.Consumes.getU8 _ fun _ => rfl
    · exact consumes_other Reader.Consumes.getU8 _ fun _ => rfl
    · refine (decodeStringPair_consumes.map _).mono ?_
      rintro next used ⟨pair, rfl, _, _, length⟩
      rw [Properties.userSize, Option.getD_some, pairsSize_append, Properties.userSize]
      simp only [pairsSize, List.map_cons, List.map_nil, List.sum_cons, List.sum_nil]
      omega
    · exact consumes_other decodeUtf8String_consumes _ fun _ => rfl
    · exact consumes_other decodeBinaryData_consumes _ fun _ => rfl
    · intro buffer next rest decoded
      cases decoded
  intro buffer next rest decoded
  cases buffer with
  | nil => cases decoded
  | cons identifier tail =>
    obtain ⟨used, rfl, size⟩ := behind identifier decoded
    exact ⟨identifier :: used, rfl, size⟩

/-- The user properties of a block take no more octets than the block. -/
theorem userSize_le_of_whileNonempty {properties final : Properties} {buffer rest : Bytes}
    (result : Reader.whileNonempty Properties.decodeEntry properties buffer = .ok (final, rest)) :
    final.userSize ≤ properties.userSize + buffer.length := by
  refine Reader.whileNonempty_induct decodeEntry_shrinks
    (motive := fun properties buffer => final.userSize ≤ properties.userSize + buffer.length)
    (Nat.le_add_right _ _) ?_ result
  intro properties buffer next rest turn bound
  obtain ⟨used, rfl, size⟩ := decodeEntry_userSize properties turn
  rw [List.length_append]
  omega

theorem decodeProperties_userSize : Reader.Consumes decodeProperties fun properties used =>
    properties.userSize ≤ used.length := by
  refine Reader.Consumes.mono (RemainingLength.decode_consumes.bind fun n =>
    (Reader.Consumes.splitTo n).bind fun own => Reader.Consumes.within) ?_
  rintro properties used ⟨n, front, _, rfl, _, own, _, _, rfl, ⟨rfl, _⟩, rfl, left, read⟩
  have size := userSize_le_of_whileNonempty read
  have start : Properties.empty.userSize = 0 := rfl
  simp only [List.length_append]
  omega

end Connect

namespace ConnectPacket

open Connect

/-- The packet has properties, and its user properties take at most this many octets. -/
def UserBounded (packet : ConnectPacket) (size : Nat) : Prop :=
  ∃ properties, packet.properties = some properties ∧ properties.userSize ≤ size

theorem UserBounded.mono {packet : ConnectPacket} {size larger : Nat}
    (bounded : packet.UserBounded size) (le : size ≤ larger) : packet.UserBounded larger := by
  obtain ⟨properties, present, small⟩ := bounded
  exact ⟨properties, present, Nat.le_trans small le⟩

theorem UserBounded.extend {packet : ConnectPacket} {front back : Bytes}
    (bounded : packet.UserBounded back.length) : packet.UserBounded (front ++ back).length :=
  bounded.mono (by simp)

theorem decodeBody_userBounded (name : Str) (level : UInt8) :
    Reader.Consumes (decodeBody name level) fun packet used => packet.UserBounded used.length := by
  refine Reader.Consumes.getU8.before UserBounded.extend fun connectFlags => ?_
  refine Reader.Consumes.getU16.before UserBounded.extend fun keepAlive => ?_
  -- What follows the properties keeps them in the packet.
  refine Reader.Consumes.mono (decodeProperties_userSize.bind fun properties =>
    show Reader.Consumes _ fun packet _ => packet.properties = some properties from ?_) ?_
  · refine decodeUtf8String_consumes.before id fun clientId => ?_
    refine (decodeWill_reads connectFlags).consumes.before id fun will => ?_
    refine (decodeUsername_reads connectFlags).consumes.before id fun username => ?_
    refine (decodePassword_reads connectFlags).consumes.before id fun password => ?_
    exact (Reader.Consumes.pure _).mono fun same => congrArg ConnectPacket.properties same.1
  · rintro packet _ ⟨properties, front, back, rfl, small, present⟩
    exact ⟨properties, present, Nat.le_trans small (by simp)⟩

/-- The user properties of a packet that is decoded take no more octets than were there. -/
theorem decode_userBounded :
    Reader.Consumes decode fun packet used => packet.UserBounded used.length := by
  refine Reader.Consumes.getU8.before UserBounded.extend fun header => ?_
  refine (Reader.Consumes.ensure _ _).before UserBounded.extend fun _ => ?_
  refine RemainingLength.decode_consumes.before UserBounded.extend fun remainingLength => ?_
  refine Reader.Consumes.remaining.before UserBounded.extend fun available => ?_
  refine (Reader.Consumes.ensure _ _).before UserBounded.extend fun _ => ?_
  refine decodeUtf8String_consumes.before UserBounded.extend fun name => ?_
  refine (Reader.Consumes.ensure _ _).before UserBounded.extend fun _ => ?_
  refine Reader.Consumes.getU8.before UserBounded.extend fun level => ?_
  refine (Reader.Consumes.ensure _ _).before UserBounded.extend fun _ => ?_
  exact decodeBody_userBounded name level

end ConnectPacket

namespace Connack.Properties

theorem sum_present_le {α : Type} {construct : α → Entry} {value : Option α} {bound : Nat}
    (small : ∀ given ∈ value, (construct given).size ≤ bound) :
    ((value.map construct).toList.map Entry.size).sum ≤ bound := by
  cases value with
  | none => exact Nat.zero_le bound
  | some given => simpa using small given rfl

/-- Properties that carry no texts but an identifier and small user properties. -/
structure Modest (properties : Properties) : Prop where
  assigned : ∀ content ∈ properties.assignedClientIdentifier, content.len ≤ 65535
  users : pairsSize (properties.userProperties.getD []) ≤ 65535
  reason : properties.reasonString = none
  information : properties.responseInformation = none
  reference : properties.serverReference = none
  method : properties.authenticationMethod = none
  data : properties.authenticationData = none

theorem Modest.fit {properties : Properties} (modest : properties.Modest) :
    ∀ entry ∈ properties.written, entry.Fits := by
  obtain ⟨assigned, users, reason, information, reference, method, data⟩ := modest
  have pairs : ∀ pair ∈ properties.userProperties.getD [],
      pair.1.len < 65536 ∧ pair.2.len < 65536 := by
    intro pair member
    have within := pair_le_pairsSize member
    omega
  simp only [written, List.forall_mem_append, forall_present, List.forall_mem_map, Entry.Fits,
    reason, information, reference, method, data, implies_true, true_and, and_true,
    Option.not_mem_none, false_imp_iff]
  exact ⟨fun content isAssigned => Nat.lt_succ_of_le (assigned content isAssigned), pairs⟩

theorem Modest.size_le {properties : Properties} (modest : properties.Modest) :
    properties.size ≤ 262143 := by
  obtain ⟨assigned, users, reason, information, reference, method, data⟩ := modest
  have interval := @sum_present_le _ .sessionExpiryInterval properties.sessionExpiryInterval 5
    fun _ _ => Nat.le_refl _
  have receive := @sum_present_le _ .receiveMaximum properties.receiveMaximum 3
    fun _ _ => Nat.le_refl _
  have qos := @sum_present_le _ .maximumQos properties.maximumQos 2 fun _ _ => Nat.le_refl _
  have retain := @sum_present_le _ .retainAvailable properties.retainAvailable 2
    fun _ _ => Nat.le_refl _
  have size := @sum_present_le _ .maximumPacketSize properties.maximumPacketSize 3
    fun _ _ => Nat.le_refl _
  have identifier := @sum_present_le _ .assignedClientIdentifier
    properties.assignedClientIdentifier 65538 fun content isAssigned =>
      Nat.add_le_add_left (assigned content isAssigned) 3
  have aliases := @sum_present_le _ .topicAliasMaximum properties.topicAliasMaximum 3
    fun _ _ => Nat.le_refl _
  have wildcard := @sum_present_le _ .wildcardSubscriptionAvailable
    properties.wildcardSubscriptionAvailable 2 fun _ _ => Nat.le_refl _
  have subscription := @sum_present_le _ .subscriptionIdentifierAvailable
    properties.subscriptionIdentifierAvailable 2 fun _ _ => Nat.le_refl _
  have shared := @sum_present_le _ .sharedSubscriptionAvailable
    properties.sharedSubscriptionAvailable 2 fun _ _ => Nat.le_refl _
  have keepAlive := @sum_present_le _ .serverKeepAlive properties.serverKeepAlive 3
    fun _ _ => Nat.le_refl _
  have pairs : (((properties.userProperties.getD []).map Entry.userProperty).map Entry.size).sum ≤
      65535 := by
    rw [List.map_map]
    exact users
  rw [Properties.size, written, reason, information, reference, method, data]
  simp only [List.map_append, List.sum_append, Option.map_none, Option.toList_none, List.map_nil,
    List.sum_nil]
  omega

end Connack.Properties

end Sipusu.Protocol.V5

namespace Sipusu.Connection

open Sipusu.Foundation Sipusu.Protocol.V5

/-- A response is encoded whenever the user properties that it repeats are small. -/
theorem encode_collect_eq_ok {req : ConnectPacket} (bounded : req.UserBounded 256)
    (sessionPresent : Bool) :
    ∃ bytes, ConnackPacket.encode
      { (collect req .default).2 with sessionPresent } = .ok bytes := by
  obtain ⟨reqProp, present, small⟩ := bounded
  have assigned : ∀ content ∈ (responseProperties req reqProp).assignedClientIdentifier,
      content.len ≤ 65535 := by
    intro content isAssigned
    rw [responseProperties] at isAssigned
    split at isAssigned
    · rename_i unnamed
      obtain rfl : (clientID req).id = content := Option.some.inj isAssigned
      rw [clientID, if_pos unnamed]
      decide
    · cases isAssigned
  have modest : (responseProperties req reqProp).Modest :=
    ⟨assigned, Nat.le_trans small (by omega), rfl, rfl, rfl, rfl, rfl⟩
  have held : ConnackPacket.properties { (collect req .default).2 with sessionPresent } =
      some (responseProperties req reqProp) := by
    rw [collect, present]
  have short : (responseProperties req reqProp).size ≤ 268435449 :=
    Nat.le_trans modest.size_le (by omega)
  exact ⟨_, (ConnackPacket.encode_eq_ok held short).mpr ⟨modest.fit, rfl⟩⟩

end Sipusu.Connection
