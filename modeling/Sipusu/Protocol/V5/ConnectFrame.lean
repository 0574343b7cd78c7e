import Sipusu.Protocol.V5.Layouts

/-!
# CONNECT packets on the wire

A well-formed CONNECT packet with its properties in any order and any number. Of a property
that occurs more than once the last value counts, but user properties add up.
-/

namespace Sipusu.Protocol.V5

open Sipusu.Foundation

namespace Connect

/-- A property of a CONNECT packet or of its will. -/
inductive Entry where
  | sessionExpiryInterval (interval : UInt32)
  | receiveMaximum (limit : UInt16)
  | maximumPacketSize (size : UInt16)
  | topicAliasMaximum (limit : UInt16)
  | requestResponseInformation (request : UInt8)
  | requestProblemInformation (request : UInt8)
  | userProperty (key value : Str)
  | authenticationMethod (method : Str)
  | authenticationData (data : Bytes)
deriving DecidableEq

namespace Entry

/-- The identifier of a property. -/
def identifier : Entry → UInt8
  | .sessionExpiryInterval _ => 0x11
  | .receiveMaximum _ => 0x21
  | .maximumPacketSize _ => 0x27
  | .topicAliasMaximum _ => 0x22
  | .requestResponseInformation _ => 0x19
  | .requestProblemInformation _ => 0x17
  | .userProperty _ _ => 0x26
  | .authenticationMethod _ => 0x15
  | .authenticationData _ => 0x16

/-- The octets of a property's value. A maximum packet size takes two. -/
def value : Entry → Bytes
  | .sessionExpiryInterval interval => be32 interval
  | .receiveMaximum limit => be16 limit
  | .maximumPacketSize size => be16 size
  | .topicAliasMaximum limit => be16 limit
  | .requestResponseInformation request => [request]
  | .requestProblemInformation request => [request]
  | .userProperty key value => lengthPrefixed key.bytes ++ lengthPrefixed value.bytes
  | .authenticationMethod method => lengthPrefixed method.bytes
  | .authenticationData data => lengthPrefixed data

/-- The octets of a property. -/
def bytes (entry : Entry) : Bytes := entry.identifier :: entry.value

/-- Lengths fit into their fields. -/
def Fits : Entry → Prop
  | .userProperty key value => key.len < 65536 ∧ value.len < 65536
  | .authenticationMethod method => method.len < 65536
  | .authenticationData data => data.length < 65536
  | _ => True

/-- The properties with one more. -/
def apply (properties : Properties) : Entry → Properties
  | .sessionExpiryInterval interval =>
      { properties with sessionExpiryInterval := some interval }
  | .receiveMaximum limit => { properties with receiveMaximum := some limit }
  | .maximumPacketSize size => { properties with maximumPacketSize := some size }
  | .topicAliasMaximum limit => { properties with topicAliasMaximum := some limit }
  | .requestResponseInformation request =>
      { properties with requestResponseInformation := some request }
  | .requestProblemInformation request =>
      { properties with requestProblemInformation := some request }
  | .userProperty key value =>
      { properties with
        userProperties := some (properties.userProperties.getD [] ++ [(key, value)]) }
  | .authenticationMethod method => { properties with authenticationMethod := some method }
  | .authenticationData data => { properties with authenticationData := some data }

end Entry

/-- The last of the values that are selected. -/
def lastOf {α : Type} (select : Entry → Option α) (entries : List Entry) : Option α :=
  (entries.filterMap select).getLast?

/-- All the values that are selected, if there are any. -/
def allOf {α : Type} (select : Entry → Option α) (entries : List Entry) : Option (List α) :=
  if entries.filterMap select = [] then none else some (entries.filterMap select)

/-- What a list of properties says. -/
def collect (entries : List Entry) : Properties :=
  { sessionExpiryInterval := lastOf (fun
      | .sessionExpiryInterval interval => some interval
      | _ => none) entries
    receiveMaximum := lastOf (fun
      | .receiveMaximum limit => some limit
      | _ => none) entries
    maximumPacketSize := lastOf (fun
      | .maximumPacketSize size => some size
      | _ => none) entries
    topicAliasMaximum := lastOf (fun
      | .topicAliasMaximum limit => some limit
      | _ => none) entries
    requestResponseInformation := lastOf (fun
      | .requestResponseInformation request => some request
      | _ => none) entries
    requestProblemInformation := lastOf (fun
      | .requestProblemInformation request => some request
      | _ => none) entries
    userProperties := allOf (fun
      | .userProperty key value => some (key, value)
      | _ => none) entries
    authenticationMethod := lastOf (fun
      | .authenticationMethod method => some method
      | _ => none) entries
    authenticationData := lastOf (fun
      | .authenticationData data => some data
      | _ => none) entries }

/-- The property block: its length, and the properties. -/
def block (entries : List Entry) : Bytes :=
  RemainingLength.form (entries.flatMap Entry.bytes).length ++ entries.flatMap Entry.bytes

section Collecting

variable {α : Type} {select : Entry → Option α} {entries : List Entry} {entry : Entry}

@[simp] theorem lastOf_nil : lastOf select [] = none := rfl

@[simp] theorem allOf_nil : allOf select [] = none := rfl

theorem lastOf_append :
    lastOf select (entries ++ [entry]) = (select entry).or (lastOf select entries) := by
  unfold lastOf
  cases selected : select entry with
  | none => simp [selected]
  | some value => simp [selected]

theorem allOf_append :
    allOf select (entries ++ [entry]) =
      match select entry with
      | none => allOf select entries
      | some value => some ((allOf select entries).getD [] ++ [value]) := by
  unfold allOf
  cases selected : select entry with
  | none => simp [selected]
  | some value =>
    by_cases none : entries.filterMap select = []
    · simp [selected, none]
    · simp [selected, none]

/-- One more property at the end. -/
theorem collect_append (entries : List Entry) (entry : Entry) :
    collect (entries ++ [entry]) = entry.apply (collect entries) := by
  cases entry <;> simp [collect, Entry.apply, lastOf_append, allOf_append]

/-- Adding properties one after another gives what the list says. -/
theorem foldl_apply (entries : List Entry) :
    entries.foldl Entry.apply Properties.empty = collect entries := by
  induction entries using List.reverseRecOn with
  | nil => rfl
  | append_singleton entries entry inductionHypothesis =>
    rw [List.foldl_append, inductionHypothesis, collect_append]
    rfl

end Collecting

/-- Reading a property inverts writing it. -/
theorem decodeEntry_bytes {entry : Entry} (fits : entry.Fits) (properties : Properties)
    (rest : Bytes) :
    properties.decodeEntry (entry.bytes ++ rest) = .ok (entry.apply properties, rest) := by
  cases entry with
  | sessionExpiryInterval interval =>
    exact Reader.map_of_ok (Reader.getU32_be32 interval rest) fun interval =>
      { properties with sessionExpiryInterval := some interval }
  | receiveMaximum limit =>
    exact Reader.map_of_ok (Reader.getU16_be16 limit rest) fun limit =>
      { properties with receiveMaximum := some limit }
  | maximumPacketSize size =>
    exact Reader.map_of_ok (Reader.getU16_be16 size rest) fun size =>
      { properties with maximumPacketSize := some size }
  | topicAliasMaximum limit =>
    exact Reader.map_of_ok (Reader.getU16_be16 limit rest) fun limit =>
      { properties with topicAliasMaximum := some limit }
  | requestResponseInformation request =>
    exact Reader.map_of_ok (Reader.getU8_cons request rest) fun request =>
      { properties with requestResponseInformation := some request }
  | requestProblemInformation request =>
    exact Reader.map_of_ok (Reader.getU8_cons request rest) fun request =>
      { properties with requestProblemInformation := some request }
  | userProperty key value =>
    obtain ⟨keyFits, valueFits⟩ := fits
    have read := decodeStringPair_form keyFits valueFits rest
    rw [← List.append_assoc] at read
    exact Reader.map_of_ok read fun pair =>
      { properties with userProperties := some (properties.userProperties.getD [] ++ [pair]) }
  | authenticationMethod method =>
    exact Reader.map_of_ok (decodeUtf8String_form fits rest) fun method =>
      { properties with authenticationMethod := some method }
  | authenticationData data =>
    exact Reader.map_of_ok (decodeBinaryData_form fits rest) fun data =>
      { properties with authenticationData := some data }

/-- Reading a property block inverts writing it. -/
theorem decodeProperties_block {entries : List Entry} (fit : ∀ entry ∈ entries, entry.Fits)
    (bound : (entries.flatMap Entry.bytes).length < RemainingLength.limit) (rest : Bytes) :
    decodeProperties (block entries ++ rest) = .ok (collect entries, rest) := by
  have looped : Reader.whileNonempty Properties.decodeEntry Properties.empty
      (entries.flatMap Entry.bytes) = .ok (entries.foldl Entry.apply Properties.empty, []) :=
    Reader.whileNonempty_flatMap decodeEntry_shrinks (fun entry => List.cons_ne_nil _ entry.value)
      (fun entry member state rest => decodeEntry_bytes (fit entry member) state rest) _
  rw [decodeProperties, block, List.append_assoc, Reader.bind_apply,
    RemainingLength.decode_form bound]
  simp only [Outcome.ok_bind, Reader.bind_apply, Reader.splitTo_append, Reader.within_apply, looped,
    foldl_apply]

end Connect

/-- The will of a client. -/
structure ConnectWill where
  entries : List Connect.Entry
  topic : Str
  payload : Bytes
  entriesFit : ∀ entry ∈ entries, entry.Fits
  topicFits : topic.len < 65536
  payloadFits : payload.length < 65536

/-- The octets of a will. -/
def ConnectWill.bytes (will : ConnectWill) : Bytes :=
  Connect.block will.entries ++ (lengthPrefixed will.topic.bytes ++ lengthPrefixed will.payload)

/-- What stands behind the client identifier. -/
def Connect.optionalBytes (will : Option ConnectWill) (username : Option Str)
    (password : Option Bytes) : Bytes :=
  will.elim [] ConnectWill.bytes ++ (username.elim [] (fun user => lengthPrefixed user.bytes) ++
    password.elim [] lengthPrefixed)

/-- A well-formed CONNECT packet. Its flags say which of the optional fields there are. -/
structure ConnectFrame where
  connectFlags : UInt8
  keepAlive : UInt16
  entries : List Connect.Entry
  clientId : Str
  will : Option ConnectWill
  username : Option Str
  password : Option Bytes
  entriesFit : ∀ entry ∈ entries, entry.Fits
  clientIdFits : clientId.len < 65536
  usernameFits : ∀ user ∈ username, user.len < 65536
  passwordFits : ∀ pass ∈ password, pass.length < 65536
  willFlag : will.isSome = true ↔ connectFlags &&& 0x04 > 0
  usernameFlag : username.isSome = true ↔ connectFlags &&& 0x80 > 0
  passwordFlag : password.isSome = true ↔ connectFlags &&& 0x40 > 0
  fits : (lengthPrefixed Connect.protocolName.bytes ++ (Connect.protocolLevel :: connectFlags ::
    (be16 keepAlive ++ (Connect.block entries ++ (lengthPrefixed clientId.bytes ++
      Connect.optionalBytes will username password))))).length < RemainingLength.limit

namespace ConnectFrame

/-- What the remaining length counts. -/
def body (frame : ConnectFrame) : Bytes :=
  lengthPrefixed Connect.protocolName.bytes ++ (Connect.protocolLevel :: frame.connectFlags ::
    (be16 frame.keepAlive ++ (Connect.block frame.entries ++
      (lengthPrefixed frame.clientId.bytes ++
        Connect.optionalBytes frame.will frame.username frame.password))))

/-- The octets of the packet. -/
def wire (frame : ConnectFrame) : Bytes :=
  0x10 :: (RemainingLength.form frame.body.length ++ frame.body)

/-- The contents of the packet. -/
def content (frame : ConnectFrame) : ConnectPacket :=
  { protocolName := Connect.protocolName
    protocolLevel := Connect.protocolLevel
    connectFlags := frame.connectFlags
    keepAlive := frame.keepAlive
    properties := some (Connect.collect frame.entries)
    clientId := frame.clientId
    willProperties := frame.will.map fun will => Connect.collect will.entries
    willTopic := frame.will.map fun will => will.topic
    willPayload := frame.will.map fun will => will.payload
    username := frame.username
    password := frame.password }

theorem length_body_lt (frame : ConnectFrame) : frame.body.length < RemainingLength.limit :=
  frame.fits

theorem length_entries_lt (frame : ConnectFrame) :
    (frame.entries.flatMap Connect.Entry.bytes).length < RemainingLength.limit := by
  have fits := frame.fits
  simp only [Connect.block, List.length_append, List.length_cons] at fits
  omega

theorem length_willEntries_lt (frame : ConnectFrame) : ∀ will ∈ frame.will,
    (will.entries.flatMap Connect.Entry.bytes).length < RemainingLength.limit := by
  intro will isWill
  have fits := frame.fits
  rw [Option.mem_def] at isWill
  simp only [isWill, Connect.optionalBytes, Option.elim_some, ConnectWill.bytes, Connect.block,
    List.length_append, List.length_cons] at fits
  omega

theorem decodeWill_bytes {connectFlags : UInt8} {will : Option ConnectWill}
    (flag : will.isSome = true ↔ connectFlags &&& 0x04 > 0)
    (bound : ∀ given ∈ will,
      (given.entries.flatMap Connect.Entry.bytes).length < RemainingLength.limit) (rest : Bytes) :
    ConnectPacket.decodeWill connectFlags (will.elim [] ConnectWill.bytes ++ rest) =
      .ok ((will.map fun given => Connect.collect given.entries,
        will.map fun given => given.topic, will.map fun given => given.payload), rest) := by
  unfold ConnectPacket.decodeWill
  cases will with
  | none =>
    rw [if_neg (mt flag.mpr Bool.false_ne_true)]
    rfl
  | some given =>
    rw [if_pos (flag.mp rfl), Option.elim_some, ConnectWill.bytes, List.append_assoc,
      List.append_assoc]
    simp only [Reader.bind_apply, Connect.decodeProperties_block given.entriesFit (bound given rfl),
      decodeUtf8String_form given.topicFits, decodeBinaryData_form given.payloadFits, Outcome.ok_bind,
      Reader.pure_apply, Option.map_some]

theorem decodeUsername_bytes {connectFlags : UInt8} {username : Option Str}
    (flag : username.isSome = true ↔ connectFlags &&& 0x80 > 0)
    (fits : ∀ user ∈ username, user.len < 65536) (rest : Bytes) :
    ConnectPacket.decodeUsername connectFlags
        (username.elim [] (fun user => lengthPrefixed user.bytes) ++ rest) =
      .ok (username, rest) := by
  unfold ConnectPacket.decodeUsername
  cases username with
  | none =>
    rw [if_neg (mt flag.mpr Bool.false_ne_true)]
    rfl
  | some user =>
    rw [if_pos (flag.mp rfl), Option.elim_some, Reader.bind_apply,
      decodeUtf8String_form (fits user rfl), Outcome.ok_bind, Reader.pure_apply]

theorem decodePassword_bytes {connectFlags : UInt8} {password : Option Bytes}
    (flag : password.isSome = true ↔ connectFlags &&& 0x40 > 0)
    (fits : ∀ pass ∈ password, pass.length < 65536) (rest : Bytes) :
    ConnectPacket.decodePassword connectFlags (password.elim [] lengthPrefixed ++ rest) =
      .ok (password, rest) := by
  unfold ConnectPacket.decodePassword
  cases password with
  | none =>
    rw [if_neg (mt flag.mpr Bool.false_ne_true)]
    rfl
  | some pass =>
    rw [if_pos (flag.mp rfl), Option.elim_some, Reader.bind_apply,
      decodeBinaryData_form (fits pass rfl), Outcome.ok_bind, Reader.pure_apply]

/-- The fields behind the remaining length. -/
theorem decodeProtocol_body (frame : ConnectFrame) (more : Bytes) :
    ConnectPacket.decodeProtocol (frame.body ++ more) = .ok (frame.content, more) := by
  have nameFits : Connect.protocolName.len < 65536 := by decide
  simp only [ConnectPacket.decodeProtocol, ConnectPacket.decodeBody, body, Connect.optionalBytes,
    content, List.append_assoc, List.cons_append, Reader.bind_apply, decodeUtf8String_form nameFits,
    Outcome.ok_bind, Reader.ensure_apply, if_true, Reader.getU8_cons, Reader.getU16_be16,
    Connect.decodeProperties_block frame.entriesFit frame.length_entries_lt,
    decodeUtf8String_form frame.clientIdFits,
    decodeWill_bytes frame.willFlag frame.length_willEntries_lt,
    decodeUsername_bytes frame.usernameFlag frame.usernameFits,
    decodePassword_bytes frame.passwordFlag frame.passwordFits, Reader.pure_apply]

/-- Decoding the octets of a packet returns its contents, whatever follows them. -/
theorem decode_inverts_wire (frame : ConnectFrame) (more : Bytes) :
    ConnectPacket.decode (frame.wire ++ more) = .ok (frame.content, more) := by
  have isConnect : (0x10 : UInt8) >>> 4 = 1 := by decide
  have enough : frame.body.length ≤ (frame.body ++ more).length := by
    rw [List.length_append]
    exact Nat.le_add_right _ _
  have length : RemainingLength.decode (RemainingLength.form frame.body.length ++
      (frame.body ++ more)) = .ok (frame.body.length, frame.body ++ more) :=
    RemainingLength.decode_form frame.length_body_lt _
  simp only [ConnectPacket.decode, wire, List.cons_append, List.append_assoc, Reader.bind_apply,
    Reader.getU8_cons, Outcome.ok_bind, Reader.ensure_apply, isConnect, if_true, length,
    Reader.remaining_apply, enough, decodeProtocol_body]

/-- A packet with a will, a user name and a password. Its receive maximum is given twice, with a
user property in between and another one behind. -/
theorem decode_inverts_wire_will :
    let str (octet : UInt8) (valid : Utf8.valid [octet] = true) : Str := ⟨[octet], valid⟩
    let a := str 0x61 (by decide)
    let b := str 0x62 (by decide)
    let entries : List Connect.Entry := [.receiveMaximum 3, .userProperty a b, .receiveMaximum 9,
      .userProperty b a]
    ∃ frame : ConnectFrame, frame.connectFlags = 0xE6 ∧ frame.entries = entries ∧
      frame.content.properties.map (fun given => (given.receiveMaximum, given.userProperties)) =
        some (some 9, some [(a, b), (b, a)]) ∧
      frame.content.willTopic = some b ∧ frame.content.willPayload = some [7, 8] ∧
      frame.content.username = some a ∧ frame.content.password = some [9] ∧
      ConnectPacket.decode (frame.wire ++ [0xC0, 0x00]) = .ok (frame.content, [0xC0, 0x00]) := by
  intro str a b entries
  have short : a.len < 65536 ∧ b.len < 65536 := by decide
  have entriesFit : ∀ entry ∈ entries, entry.Fits := by
    simp [entries, Connect.Entry.Fits, short]
  let will : ConnectWill :=
    { entries := [.topicAliasMaximum 5], topic := b, payload := [7, 8], topicFits := by decide
      entriesFit := by simp [Connect.Entry.Fits], payloadFits := by decide }
  let frame : ConnectFrame :=
    { connectFlags := 0xE6, keepAlive := 60, entries, clientId := a, will := some will
      username := some a, password := some [9], entriesFit, clientIdFits := by decide
      usernameFits := by simp [short], passwordFits := by simp
      willFlag := by decide, usernameFlag := by decide, passwordFlag := by decide
      fits := by decide }
  exact ⟨frame, rfl, rfl, rfl, rfl, rfl, rfl, rfl, decode_inverts_wire frame [0xC0, 0x00]⟩

end ConnectFrame
end Sipusu.Protocol.V5
