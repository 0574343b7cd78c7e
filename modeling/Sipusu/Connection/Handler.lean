import Sipusu.Connection.Collect
import Sipusu.Foundation.Action
import Sipusu.MessageBroker.Client.Clients
import Sipusu.MessageBroker.Client.Restore
import Sipusu.MessageBroker.Client.Storage.Directory
import Sipusu.MessageBroker.Router

/-!
# Handling a new connection

`Proxy::connect` of `src/connection/handler.rs` with what it calls: the first read of
`src/connection/line.rs`, the registration and the restoring of
`src/message_broker/mediator.rs`. It is awaited inside the accept loop of
`src/server.rs`, so an abort ends that loop.
-/

namespace Sipusu.Connection

open Sipusu.Foundation Sipusu.Protocol.V5 Sipusu.MessageBroker

/-- `enum ErrorKind` of the connection errors. -/
inductive ErrorKind where
  | timedOut
  | invalidData
  | brokenPipe
  | connectionAborted
deriving DecidableEq, Repr

/-- `enum ConnError`. -/
inductive ConnError where
  | kind (kind : ErrorKind)
  | custom (kind : ErrorKind) (msg : String)
deriving DecidableEq, Repr

/-- `ConnError::new`. -/
def ConnError.new (kind : ErrorKind) : Option String → ConnError
  | some msg => .custom kind msg
  | none => .kind kind

/-- The outcome of the first read on a connection. No octets are the end of the stream. -/
inductive FirstRead where
  | timedOut
  | failed (error : IoError)
  | received (octets : Bytes) (fits : octets.length ≤ 256)

/-- `SocketReader::read_timeout`, with the octets read. -/
def FirstRead.result : FirstRead → Outcome IoError Bytes
  | .timedOut => .err ⟨.timedOut, "deadline has elapsed"⟩
  | .failed error => .err error
  | .received octets _ => .ok octets

/-- `MqttConnectRequest::read_request`. The result of the read is unwrapped. -/
def readRequest (read : FirstRead) : Outcome ConnError ConnectPacket := do
  let buffer ← read.result.unwrap
  let decoded ← (ConnectPacket.decode buffer).mapErr fun e => .new .invalidData (some e)
  return decoded.1

/-- How the making of the files of a session ends. When it fails, some of them are left. -/
inductive Creation where
  | made
  | failed (error : IoError) (left : Option SessionStore)

/-- What the operating system answers while a connection is handled: to the opening of a
stored log, to the accesses to the session's files behind the reading of the log, to the
making of new files and to the writing of the response. -/
structure Answers where
  logOpened : Except IoError Unit
  filesOpened : Except IoError Unit
  created : Creation
  written : Except IoError Unit
  iteration : IterationOrder

/-- The operating system opens and makes all files. -/
structure Answers.Work (answers : Answers) : Prop where
  logOpened : answers.logOpened = .ok ()
  filesOpened : answers.filesOpened = .ok ()
  created : answers.created = .made

/-- `MqttConnectedResponse::connack`. -/
def connack (ack : ConnackPacket) (answers : Answers) : Outcome IoError Unit := do
  let _packet ← ack.encode.mapErr fun e => ⟨.invalidData, e⟩
  Outcome.ofExcept answers.written

/-- `Client::restore` behind the opening of the log. -/
def restoreFiles (conid : ConnectionID) (clid : ClientID) (store : Option SessionStore)
    (answers : Answers) (now : Nat) : Outcome IoError (Client × SessionStore) :=
  match answers.filesOpened, store with
  | .error error, some store => do
      restoreSession store.session now
      Outcome.err error
  | _, store => Client.restore conid clid store answers.iteration now

/-- The broker as connections change it: the number of connections so far, whether the
accept loop still runs, the registry, the router and the directories of all sessions. -/
structure Broker where
  accessTotal : UInt32
  accepting : Bool
  clients : List Client
  router : RouterTree
  stores : List Bytes → Option SessionStore

namespace Broker

/-- `Clients::insert`. -/
def insertClient (client : Client) (now : Nat) : Action Broker String Unit := fun s =>
  match Clients.insert s.clients client now with
  | (.ok (), clients) => (.ok (), { s with clients })
  | (.error message, clients) => (.err message, { s with clients })

/-- `Clients::get_client`. -/
def getClient {ε : Type} (clid : ClientID) : Action Broker ε (Option Client) :=
  Action.ask fun s => .ok (Clients.getClient s.clients clid)

/-- `BrokerMediator::is_still_alive`. -/
def isStillAlive {ε : Type} (clid : ClientID) (now : Nat) : Action Broker ε (Option Bool) :=
  Action.ask fun s => .ok ((Clients.searchMutClient s.clients clid fun client =>
    (client.isAlive now, client)).map Prod.fst)

/-- `BrokerMediator::register`, up to the task that it spawns. -/
def register (newCl : Client) (now : Nat) : Action Broker String Unit := do
  insertClient newCl now
  let client ← getClient newCl.clid
  let _client ← Action.ofOutcome (Outcome.ofOption client)
  return ()

variable (currentDir : Bytes)

/-- The files of a session are changed. -/
def setStore (s : Broker) (clid : ClientID) (store : Option SessionStore) : Broker :=
  { s with stores := Function.update s.stores (ClientStore.directory currentDir clid) store }

theorem setStore_stores (s : Broker) (clid : ClientID) (store : Option SessionStore) :
    (s.setStore currentDir clid store).stores =
      Function.update s.stores (ClientStore.directory currentDir clid) store := rfl

/-- The files of a session. -/
def storeOf (s : Broker) (clid : ClientID) : Option SessionStore :=
  s.stores (ClientStore.directory currentDir clid)

/-- `ClientStore::new`. -/
def createStore (clid : ClientID) (mdata : MetaData) (answers : Answers) (now : Nat) :
    Action Broker IoError Unit := fun s =>
  match answers.created with
  | .made => (.ok (), s.setStore currentDir clid (some (SessionStore.new mdata now)))
  | .failed error left => (.err error, s.setStore currentDir clid left)

/-- `Client::new`. The first deadline is computed before the files are made. -/
def newClient {ε : Type} (conid : ConnectionID) (srvVar : ServerVariable) (limit : Limiter)
    (answers : Answers) (now : Nat) : Action Broker ε Client := do
  let client ← Action.ofOutcome (Client.new conid srvVar.clid srvVar.keepAlive srvVar.exprInterval
    srvVar.protocolLevel limit now).unwrap
  let mdata := Client.metaData srvVar.keepAlive srvVar.exprInterval srvVar.protocolLevel limit
  (createStore currentDir srvVar.clid mdata answers now).unwrap
  return client

/-- `Client::restore`. -/
def restoreClient (conid : ConnectionID) (clid : ClientID) (answers : Answers) (now : Nat) :
    Action Broker IoError Client := do
  Action.ofOutcome (Outcome.ofExcept answers.logOpened)
  let restored ← Action.ask fun s =>
    .ok (restoreFiles conid clid (s.storeOf currentDir clid) answers now)
  Action.modify fun s => s.setStore currentDir clid
    ((s.storeOf currentDir clid).map fun store => store.afterRestore now)
  let restored ← Action.ofOutcome restored
  return restored.1

/-- The error of an attempt to restore, and whether the socket is still in the bucket. -/
structure NotRestored where
  error : IoError
  socket : Bool

/-- `BrokerMediator::try_restore_session`, up to the task that it spawns. The client takes the
socket when it is restored. -/
def tryRestoreSession (conid : ConnectionID) (clid : ClientID) (answers : Answers) (now : Nat) :
    Action Broker NotRestored Unit := do
  let restoredClient ← (restoreClient currentDir conid clid answers now).mapErr
    fun error => ⟨error, true⟩
  (insertClient restoredClient now).unwrap
  match ← getClient clid with
  | none => Action.ofOutcome (.err ⟨⟨.other, "unknown error"⟩, false⟩)
  | some _ =>
      let client ← getClient clid
      let _client ← Action.ofOutcome (Outcome.ofOption client)
      return ()

/-- The limits that the response grants. -/
def limitOf (response : ConnackPacket) : Limiter :=
  match response.properties with
  | some v => ⟨v.receiveMaximum, v.maximumPacketSize, v.topicAliasMaximum⟩
  | none => ⟨none, none, none⟩

/-- `Proxy::start_session` behind the attempt to restore. -/
def newSession (response : ConnackPacket) (conid : ConnectionID) (srvVar : ServerVariable)
    (answers : Answers) (now : Nat) : Action Broker String Unit := do
  let client ← newClient currentDir conid srvVar (limitOf response) answers now
  (register client now).unwrap
  Action.ofOutcome (connack response answers).unwrap

/-- `Proxy::start_session`. -/
def startSession (response : ConnackPacket) (conid : ConnectionID) (srvVar : ServerVariable)
    (answers : Answers) (now : Nat) : Action Broker String Unit := do
  let session ← isStillAlive srvVar.clid now
  if session = some true then
    Action.ofOutcome (.err "()")
  else if srvVar.cleanStart then
    newSession currentDir response conid srvVar answers now
  else
    match ← (tryRestoreSession currentDir conid srvVar.clid answers now).attempt with
    | .ok () =>
        Action.ofOutcome (connack { response with sessionPresent := true } answers).unwrap
    | .error failure =>
        Action.ofOutcome (if failure.socket then .ok () else .panic)
        newSession currentDir response conid srvVar answers now

/-- `Proxy::establish_connection`. -/
def establishConnection (conid : ConnectionID) (read : FirstRead) (answers : Answers) (now : Nat) :
    Action Broker ConnError Unit := do
  let reqAck ← Action.ofOutcome (readRequest read)
  let (srvVar, connackPacket) := collect reqAck .default
  (startSession currentDir connackPacket conid srvVar answers now).unwrap

/-- How a connection ends up. -/
inductive Handled where
  | accepted
  | rejected (error : ConnError)
  | aborted

/-- `Proxy::connect`, in the accept loop. -/
def connect (s : Broker) (read : FirstRead) (answers : Answers) (now : Nat) : Handled × Broker :=
  let id : ConnectionID := ⟨s.accessTotal⟩
  let s := { s with accessTotal := s.accessTotal + 1 }
  match establishConnection currentDir id read answers now s with
  | (.ok (), s) => (.accepted, s)
  | (.err error, s) => (.rejected error, s)
  | (.panic, s) => (.aborted, { s with accepting := false })

end Broker
end Sipusu.Connection
