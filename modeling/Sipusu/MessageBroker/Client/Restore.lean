import Sipusu.MessageBroker.Client.Client
import Sipusu.MessageBroker.Client.Storage
import Sipusu.MessageBroker.Client.Storage.MetaData

/-!
# Restoring a client

`Client::new` and `Client::restore` of `src/message_broker/client/client.rs` with the
metadata file between them. The restored topic alias limit is read from the field of
the receive limit.
-/

namespace Sipusu.MessageBroker

open Sipusu.Foundation Sipusu.Protocol.V5

/-- The three files of a session directory. -/
structure SessionStore extends SessionDir where
  metadata : Bytes
deriving DecidableEq

/-- `struct Restored`. -/
structure Restored where
  mdata : MetaData
  subs : List Subscribe

namespace SessionStore

/-- `ClientStore::new`. -/
def new (mdata : MetaData) (now : Nat) : SessionStore :=
  { ClientStore.new now with metadata := mdata.serialize }

/-- `ClientStore::log_session`. -/
def logSession (store : SessionStore) (wall : List WALL) : SessionStore :=
  { store with session := store.session ++ writeWall wall }

/-- The length of the buffer that `ClientStore::restore` reads the metadata into. -/
def metadataBuffer : Nat := 512

/-- The metadata part of `ClientStore::restore`. -/
def restoreMetadata (file : Bytes) : Outcome IoError MetaData :=
  let read := file.take metadataBuffer
  if read.length < 13 then .err ⟨.invalidData, "metadata structure is invalid"⟩
  else MetaData.deserialize read >>= fun result => .ok result.1

/-- `ClientStore::restore`. -/
def restore (store : Option SessionStore) (iteration : IterationOrder) (now : Nat) :
    Outcome IoError (Restored × SessionStore) :=
  match store with
  | none => .err ⟨.notFound, "no session for client id"⟩
  | some store => do
      restoreSession store.session now
      let store := store.logSession [⟨UInt64.ofNat now, .clientRestored⟩]
      let mdata ← restoreMetadata store.metadata
      let subs ← ClientStore.restoreSubscribed store.subscribed iteration
      return ({ mdata, subs }, store)

/-- The files after `ClientStore::restore`, whatever way it ended. The log entry is written before
the other files are read. -/
def afterRestore (store : SessionStore) (now : Nat) : SessionStore :=
  match restoreSession store.session now with
  | .ok () => store.logSession [⟨UInt64.ofNat now, .clientRestored⟩]
  | _ => store

/-- The store after a session has ended with the given log entry, whatever became of
its subscriptions. -/
def ended (store : SessionStore) (wall : WALL) (subscribed : Bytes) : SessionStore :=
  { store.logSession [wall] with subscribed }

end SessionStore

namespace Client

/-- The metadata that `Client::new` stores. -/
def metaData (keepAlive : UInt16) (exprInterval : UInt32) (protocolLevel : UInt8)
    (limit : Limiter) : MetaData :=
  { exprInterval
    keepAliveInterval := max keepAlive minKeepAlive
    protocolLevel
    maximumPacketSize := limit.maximumPacketSize.getD 0
    receiveMaximum := limit.receiveMaximum.getD 0
    topicAliasMaximum := limit.topicAliasMaximum.getD 0
    userProperties := [] }

/-- `to_opt`. -/
def toOpt (val : UInt16) : Option UInt16 := if val = 0 then none else some val

/-- The client that `Client::restore` makes of the metadata. -/
def ofMetaData (conid : ConnectionID) (clid : ClientID) (mdata : MetaData) (ttl : Nat) : Client :=
  { conid
    clid
    protocolLevel := mdata.protocolLevel
    session := { ttl, exprInterval := mdata.exprInterval, keepAlive := mdata.keepAliveInterval }
    limit := {
      receiveMaximum := toOpt mdata.receiveMaximum
      maximumPacketSize := toOpt mdata.maximumPacketSize
      topicAliasMaximum := toOpt mdata.receiveMaximum } }

/-- `Client::restore` at the clock reading `now`. -/
def restore (conid : ConnectionID) (clid : ClientID) (store : Option SessionStore)
    (iteration : IterationOrder) (now : Nat) : Outcome IoError (Client × SessionStore) := do
  let (restored, store) ← SessionStore.restore store iteration now
  let allowance ← (Session.allowance restored.mdata.keepAliveInterval).unwrap
  return (ofMetaData conid clid restored.mdata (now + allowance), store)

theorem new_eq_ok {conid : ConnectionID} {clid : ClientID} {keepAlive : UInt16}
    {exprInterval : UInt32} {protocolLevel : UInt8} {limit : Limiter} {now : Nat} {client : Client}
    (made : new conid clid keepAlive exprInterval protocolLevel limit now = .ok client) :
    keepAlive.toNat ≤ 43690 ∧
      client =
        { conid, clid, protocolLevel, limit
          session := {
            ttl := now + (keepAlive.toNat + keepAlive.toNat / 2)
            exprInterval
            keepAlive := max keepAlive minKeepAlive } } := by
  rw [new_eq] at made
  split at made
  · exact ⟨‹_›, (Outcome.ok.inj made).symm⟩
  · cases made

/-- Two clients have the same settings. -/
structure SameSettings (before after : Client) : Prop where
  protocolLevel : after.protocolLevel = before.protocolLevel
  keepAlive : after.session.keepAlive = before.session.keepAlive
  exprInterval : after.session.exprInterval = before.session.exprInterval
  receiveMaximum : after.limit.receiveMaximum = before.limit.receiveMaximum
  maximumPacketSize : after.limit.maximumPacketSize = before.limit.maximumPacketSize
  topicAliasMaximum : after.limit.topicAliasMaximum = before.limit.topicAliasMaximum

end Client

/-- No limit is zero, which is how the metadata file writes that there is none. -/
structure Limiter.Storable (limit : Limiter) : Prop where
  receiveMaximum : limit.receiveMaximum ≠ some 0
  maximumPacketSize : limit.maximumPacketSize ≠ some 0
  topicAliasMaximum : limit.topicAliasMaximum ≠ some 0

section Disconnected

variable {wall : WALL} {subscribed : Bytes} {map : Subscriptions}

/-- A log line takes at most 61 octets. -/
theorem length_serialize_le (wall : WALL) : wall.serialize.length ≤ 61 := by
  have number (u : UInt64) : (Text.decimal u.toNat).length ≤ 20 :=
    Text.length_decimal_le (Nat.lt_trans u.toNat_lt (by decide))
  have time := number wall.time
  rw [WALL.serialize, WALL.body, List.length_append, List.length_append, List.length_cons,
    List.length_singleton]
  cases value : wall.value with
  | clientCreated | clientRestored =>
    simp only [WALL.serializeEvent, Text.ascii, List.length_map, String.length_toList]
    exact Nat.le_trans (Nat.add_le_add_right (Nat.add_le_add_right time _) _) (by decide)
  | clientDisconnected u | disconnectByServer u =>
    have expiration := number u
    simp only [WALL.serializeEvent, Text.ascii, List.length_append, List.length_map,
      List.length_cons, String.length_toList]
    refine Nat.le_trans (Nat.add_le_add_right (Nat.add_le_add time (Nat.succ_le_succ
      (Nat.add_le_add_left (Nat.succ_le_succ expiration) _))) _) (by decide)

theorem toOpt_getD {limit : Option UInt16} (storable : limit ≠ some 0) :
    Client.toOpt (limit.getD 0) = limit := by
  cases limit with
  | none => rfl
  | some val =>
    have positive : val ≠ 0 := fun zero => storable (congrArg some zero)
    rw [Option.getD_some, Client.toOpt, if_neg positive]

theorem restoreMetadata_serialize {mdata : MetaData} (none : mdata.userProperties = []) :
    SessionStore.restoreMetadata mdata.serialize = .ok mdata := by
  have length : mdata.serialize.length = 17 := by
    rw [MetaData.serialize_of_noProperties none]
    rfl
  have whole : mdata.serialize.take SessionStore.metadataBuffer = mdata.serialize :=
    List.take_of_length_le (by rw [length]; decide)
  rw [SessionStore.restoreMetadata, whole, length, if_neg (by decide),
    MetaData.deserialize_serialize none]
  rfl

theorem SessionStore.restore_of_parts {store : SessionStore} {iteration : IterationOrder}
    {now : Nat} {mdata : MetaData} {subs : List Subscribe}
    (session : restoreSession store.session now = .ok ())
    (metadata : restoreMetadata store.metadata = .ok mdata)
    (listed : ClientStore.restoreSubscribed store.subscribed iteration = .ok subs) :
    SessionStore.restore (some store) iteration now =
      .ok ({ mdata, subs }, store.logSession [⟨UInt64.ofNat now, .clientRestored⟩]) := by
  simp only [restore, logSession, session, metadata, listed, Outcome.ok_bind, Outcome.pure_eq]

/-- A session that ended with a disconnection and has not expired can be restored. -/
theorem SessionStore.restore_ended {mdata : MetaData} (noProperties : mdata.userProperties = [])
    {created now : Nat} (unexpired : decideRestore wall.value now = .ok ())
    (readable : getSubscribed subscribed = .ok map) (iteration : IterationOrder) :
    ∃ subs after, SessionStore.restore (some ((new mdata created).ended wall subscribed)) iteration
      now = .ok ({ mdata, subs }, after) := by
  let log : List WALL := [⟨UInt64.ofNat created, .clientCreated⟩, wall]
  have short : (writeWall log).length ≤ wallBuffer := by
    have first := length_serialize_le ⟨UInt64.ofNat created, .clientCreated⟩
    have second := length_serialize_le wall
    have bufferSize : wallBuffer = 512 := rfl
    simp only [log, writeWall_cons, List.length_append]
    simp only [writeWall, List.flatMap_nil, List.length_nil]
    omega
  have session : ((new mdata created).ended wall subscribed).session = writeWall log :=
    (writeWall_append [_] [wall]).symm
  have decides := restoreSession_of_aligned (aligned_of_short short) (List.cons_ne_nil _ _) now
  rw [List.getLast_cons (List.cons_ne_nil _ _), List.getLast_singleton, unexpired] at decides
  have metadata : restoreMetadata ((new mdata created).ended wall subscribed).metadata = .ok mdata :=
    restoreMetadata_serialize noProperties
  have subs : ClientStore.restoreSubscribed ((new mdata created).ended wall subscribed).subscribed
      iteration = .ok ((iteration.order map).map fun entry => ⟨entry.1, entry.2⟩) := by
    rw [ClientStore.restoreSubscribed]
    exact (congrArg (· >>= _) readable).trans rfl
  exact ⟨_, _, restore_of_parts (session ▸ decides) metadata subs⟩

theorem Client.restore_of_files {conid : ConnectionID} {clid : ClientID}
    {store after : SessionStore} {iteration : IterationOrder} {now : Nat} {restored : Restored}
    (files : SessionStore.restore (some store) iteration now = .ok (restored, after))
    (stored : restored.mdata.keepAliveInterval.toNat ≤ 43690) :
    Client.restore conid clid (some store) iteration now =
      .ok (ofMetaData conid clid restored.mdata (now +
        (restored.mdata.keepAliveInterval.toNat + restored.mdata.keepAliveInterval.toNat / 2)),
        after) := by
  rw [Client.restore, files, Outcome.ok_bind]
  simp only [Session.allowance_eq stored, Outcome.unwrap, Outcome.ok_bind, Outcome.pure_eq]

/-- A client that was created, disconnected and restored before its expiry has its settings
back exactly when its topic alias limit was its receive limit. -/
theorem restored_same_iff {conid restoredConid : ConnectionID} {clid : ClientID}
    {keepAlive : UInt16} {exprInterval : UInt32} {protocolLevel : UInt8} {limit : Limiter}
    {created : Nat} {client : Client}
    (made : Client.new conid clid keepAlive exprInterval protocolLevel limit created = .ok client)
    (storable : limit.Storable) {expiration : UInt64} (disconnected : wall.value =
      .clientDisconnected expiration ∨ wall.value = .disconnectByServer expiration) {now : Nat}
    (unexpired : now < expiration.toNat) (readable : getSubscribed subscribed = .ok map)
    (iteration : IterationOrder) :
    let mdata := Client.metaData keepAlive exprInterval protocolLevel limit
    let store := (SessionStore.new mdata created).ended wall subscribed
    ∃ restored after,
      Client.restore restoredConid clid (some store) iteration now = .ok (restored, after) ∧
      (client.SameSettings restored ↔ limit.topicAliasMaximum = limit.receiveMaximum) := by
  intro mdata store
  obtain ⟨bounded, rfl⟩ := Client.new_eq_ok made
  have decides : decideRestore wall.value now = .ok () := by
    rcases disconnected with value | value
    · rw [value, decideRestore, if_neg (Nat.not_le.mpr unexpired)]
    · rw [value, decideRestore, if_neg (Nat.not_le.mpr unexpired)]
  have noProperties : mdata.userProperties = [] := rfl
  obtain ⟨subs, after, files⟩ :
      ∃ subs after, SessionStore.restore (some store) iteration now = .ok ({ mdata, subs }, after) :=
    SessionStore.restore_ended noProperties decides readable iteration
  have stored : mdata.keepAliveInterval.toNat ≤ 43690 := Client.max_minKeepAlive_le bounded
  refine ⟨_, after, Client.restore_of_files files stored, ?_⟩
  obtain ⟨receive, packet, topicAlias⟩ := storable
  constructor
  · intro same
    exact same.topicAliasMaximum.symm.trans (toOpt_getD receive)
  · intro equal
    exact ⟨rfl, rfl, rfl, toOpt_getD receive, toOpt_getD packet,
      (toOpt_getD receive).trans equal.symm⟩

/-- A client with a packet limit and equal receive and topic alias limits, that has subscribed to
a topic, is restored with its settings. -/
theorem restored_same_iff_equalLimits :
    let limit : Limiter := ⟨some 10, some 200, some 10⟩
    let clid : ClientID := .new ⟨[0x61], by decide⟩
    let client : Client := ⟨⟨1⟩, clid, 5, ⟨90, 100, 60⟩, limit⟩
    let store := (SessionStore.new (Client.metaData 60 100 5 limit) 0).ended
      ⟨7, .clientDisconnected 190⟩ [0x01, 0x74, 0x0A]
    ∃ restored after,
      Client.restore ⟨2⟩ clid (some store) .listed 100 = .ok (restored, after) ∧
      client.SameSettings restored := by
  intro limit clid client store
  have made : Client.new ⟨1⟩ clid 60 100 5 limit 0 = .ok client := rfl
  have storable : limit.Storable := ⟨by decide, by decide, by decide⟩
  have readable : getSubscribed [0x01, 0x74, 0x0A] = .ok [(⟨[0x74], by decide⟩, .qos1)] := by
    decide
  have unexpired : 100 < (190 : UInt64).toNat := by decide
  obtain ⟨restored, after, result, settings⟩ :
      ∃ restored after, Client.restore ⟨2⟩ clid (some store) .listed 100 = .ok (restored, after) ∧
        (client.SameSettings restored ↔ limit.topicAliasMaximum = limit.receiveMaximum) :=
    restored_same_iff made storable (.inl rfl) unexpired readable .listed
  exact ⟨restored, after, result, settings.mpr rfl⟩

/-- A client with a receive limit of 10 and a topic alias limit of 20. -/
theorem topicAlias_restored_as_receive :
    let limit : Limiter := ⟨some 10, none, some 20⟩
    let clid : ClientID := .new ⟨[0x61], by decide⟩
    let client : Client := ⟨⟨1⟩, clid, 5, ⟨90, 100, 60⟩, limit⟩
    let store := (SessionStore.new (Client.metaData 60 100 5 limit) 0).ended
      ⟨7, .clientDisconnected 190⟩ []
    Client.new ⟨1⟩ clid 60 100 5 limit 0 = .ok client ∧
      ∃ restored after,
        Client.restore ⟨2⟩ clid (some store) .listed 100 = .ok (restored, after) ∧
        restored.limit.topicAliasMaximum = some 10 ∧ ¬ client.SameSettings restored := by
  intro limit clid client store
  have noProperties : (Client.metaData 60 100 5 limit).userProperties = [] := rfl
  have decides : decideRestore (.clientDisconnected 190) 100 = .ok () := rfl
  have readable : getSubscribed [] = .ok [] := rfl
  obtain ⟨subs, after, files⟩ :
      ∃ subs after, SessionStore.restore (some store) .listed 100 =
        .ok ({ mdata := Client.metaData 60 100 5 limit, subs }, after) :=
    SessionStore.restore_ended noProperties decides readable .listed
  have stored : (Client.metaData 60 100 5 limit).keepAliveInterval.toNat ≤ 43690 := by decide
  refine ⟨rfl, _, after, Client.restore_of_files files stored, rfl, ?_⟩
  intro same
  have aliased : some 10 = some (20 : UInt16) := same.topicAliasMaximum
  cases aliased

end Disconnected

end Sipusu.MessageBroker
