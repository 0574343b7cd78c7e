import Sipusu.Connection.Survival
import Sipusu.Foundation.Simulation
import Sipusu.MessageBroker.Client.SessionLife

/-!
# Sessions across stops and starts

The broker from its start to its end, over and over on the same files. When it is told to stop,
it aborts the tasks of its clients, some of which may be saving subscriptions, then empties the
registry and logs the end of every session in it; or the process just ends. Over all such
histories the files of each directory hold a session as it is meant, but for the subscriptions
that an interrupted save loses, as long as the operating system does its work, subscriptions fit
and logs are read at ends of lines. A connection is handled, and a log line written, in one step.
-/

namespace Sipusu.Connection

open Sipusu.Foundation Sipusu.Protocol.V5 Sipusu.MessageBroker

/-- The clock readings while the registry is cleared, and the clients whose log cannot be
written then. -/
structure Closing where
  times : ClientID → Nat
  failed : ClientID → Bool

namespace Broker

variable (currentDir : Bytes)

/-- The end of a session is logged in `Clients::clear`, which ignores a failure. -/
def endSession (closing : Closing) (client : Client) (stores : List Bytes → Option SessionStore) :
    List Bytes → Option SessionStore :=
  let directory := ClientStore.directory currentDir client.clid
  if closing.failed client.clid then stores
  else
    Function.update stores directory ((stores directory).map fun store =>
      store.logSession [⟨UInt64.ofNat (closing.times client.clid),
        .disconnectByServer (UInt64.ofNat client.expirationTime)⟩])

/-- The loop of `Clients::clear`, for a number of clients. -/
def clearLoop (closing : Closing) : Nat → Broker → Broker
  | 0, s => s
  | count + 1, s =>
      match s.clients.getLast? with
      | none => clearLoop closing count s
      | some client => clearLoop closing count
          { s with
            clients := s.clients.dropLast
            stores := endSession currentDir closing client s.stores }

/-- `subscribe_topics` in a task that does not get to its end. Nothing is done to the file yet,
or it is truncated and some octets of its new content are written. -/
def cutSubscribe (s : Broker) (clid : ClientID) (list : List Subscribe)
    (iteration : IterationOrder) (written : Option Nat) : Option Broker := do
  let (_, router) ← s.router.subscribe clid list
  match written, s.storeOf currentDir clid with
  | some count, some store =>
      match ClientStore.subscribe store.subscribed list iteration with
      | .ok subscribed =>
          some ({ s with router }.setStore currentDir clid
            (some { store with subscribed := subscribed.take count }))
      | _ => some { s with router }
  | _, _ => some { s with router }

/-- `Clients::clear`. -/
def clear (s : Broker) (closing : Closing) : Broker :=
  if s.clients.isEmpty then s else clearLoop currentDir closing s.clients.length s

end Broker

/-- The broker runs, or it is not there and only its files are. -/
inductive Service where
  | stopped (stores : List Bytes → Option SessionStore)
  | running (s : Broker)

/-- What happens to a broker. A task is cut off while it saves a request when the process exits,
or when a signal comes and the observer aborts all tasks with `Tasks::clear`. It then clears
the registry, and the accept loop may handle connections until the process exits. -/
inductive ServiceAction where
  | start
  | operate (operation : Broker.Operation)
  | cut (clid : ClientID) (list : List Subscribe) (iteration : IterationOrder)
      (written : Option Nat)
  | clear (closing : Closing)
  | exit

namespace Service

/-- The files of all sessions. -/
def stores : Service → List Bytes → Option SessionStore
  | .stopped stores => stores
  | .running s => s.stores

variable (currentDir : Bytes)

/-- One step. -/
def step : Service → ServiceAction → Option Service
  | .stopped stores, .start => some (.running (Broker.new stores))
  | .running s, .operate operation => (s.step currentDir operation).map .running
  | .running s, .cut clid list iteration written =>
      (s.cutSubscribe currentDir clid list iteration written).map .running
  | .running s, .clear closing => some (.running (s.clear currentDir closing))
  | .running s, .exit => some (.stopped s.stores)
  | _, _ => none

/-- All histories that begin on an empty disk. -/
def system : System Service ServiceAction :=
  .ofStep (.stopped fun _ => none) (step currentDir)

end Service

/-- The subscriptions of a client still fit with those of a request. -/
def Broker.Fits (currentDir : Bytes) (s : Broker) (clid : ClientID) (list : List Subscribe) :
    Prop :=
  ∀ store, s.storeOf currentDir clid = some store → ∀ map,
    getSubscribed store.subscribed = .ok map → Storable (mergeTopics map list)

/-- The condition on operations: files can be opened and written, the log that a request
without a clean start finds is cut at ends of lines by its reader, and subscriptions fit. -/
def Broker.Guarded (currentDir : Bytes) (s : Broker) : Broker.Operation → Prop
  | .connect (.received octets _) answers _ =>
      ∀ packet rest, ConnectPacket.decode octets = .ok (packet, rest) →
        answers.Work ∧ (packet.cleanStart = false →
          ∀ store, s.storeOf currentDir (clientID packet) = some store → LogReadable store.session)
  | .subscribe clid list _ torn => torn = none ∧ s.Fits currentDir clid list
  | _ => True

/-- The condition on steps. -/
def Service.Guarded (currentDir : Bytes) : Service → ServiceAction → Prop
  | .running s, .operate operation => s.Guarded currentDir operation
  | .running s, .cut clid list _ _ => s.Fits currentDir clid list
  | _, _ => True

/-- The settings that a request asks for. -/
def settingsOf (packet : ConnectPacket) : MetaData :=
  let (srvVar, response) := collect packet .default
  Client.metaData srvVar.keepAlive srvVar.exprInterval srvVar.protocolLevel
    (Broker.limitOf response)

/-- What a request makes of the session in its directory: a new one, unless there is one to
go on with and it is asked for. -/
inductive Opens (cleanStart : Bool) (settings : MetaData) (now : Nat) :
    Option SessionSpec → SessionSpec → Prop where
  | created {before} (fresh : cleanStart = true ∨ ∀ spec ∈ before, ¬ spec.Resumes now) :
      Opens cleanStart settings now before ⟨settings, PartialMap.empty, none⟩
  | resumed {spec} (unclean : cleanStart = false) (resumes : spec.Resumes now) :
      Opens cleanStart settings now (some spec) { spec with offline := none }

/-- What an interrupted save leaves of the subscriptions: those from before the request, or some
of those that it asks for. -/
def CutTo (wanted : PartialMap Str ServiceLevel) (list : List Subscribe)
    (left : PartialMap Str ServiceLevel) : Prop :=
  left = wanted ∨
    ∀ topic level, left topic = some level → SessionSpec.bindTopics wanted list topic = some level

/-- The sessions that are meant, each in its directory. -/
abbrev Sessions := List Bytes → Option SessionSpec

namespace Sessions

variable (currentDir : Bytes)

/-- The session of a client is changed, if there is one. -/
def modify (sessions : Sessions) (clid : ClientID) (change : SessionSpec → SessionSpec) :
    Sessions :=
  Function.update sessions (ClientStore.directory currentDir clid)
    ((sessions (ClientStore.directory currentDir clid)).map change)

/-- The session of a client in the registry is left behind. -/
def leave (closing : Closing) (client : Client) (sessions : Sessions) : Sessions :=
  if closing.failed client.clid then sessions
  else sessions.modify currentDir client.clid fun spec =>
    { spec with offline := some (UInt64.ofNat client.expirationTime) }

/-- What a step of the broker does to the sessions. -/
inductive Step : Sessions → Service × ServiceAction → Sessions → Prop where
  | opened {sessions : Sessions} {s octets fits answers now packet rest spec}
      (request : ConnectPacket.decode octets = .ok (packet, rest))
      (opens : Opens packet.cleanStart (settingsOf packet) now
        (sessions (ClientStore.directory currentDir (clientID packet))) spec) :
      Step sessions (.running s, .operate (.connect (.received octets fits) answers now))
        (Function.update sessions (ClientStore.directory currentDir (clientID packet)) (some spec))
  | notAccepted {sessions s read answers now}
      (refused : (s.connect currentDir read answers now).1 ≠ .accepted) :
      Step sessions (.running s, .operate (.connect read answers now)) sessions
  | subscribed {sessions s clid list iteration torn} :
      Step sessions (.running s, .operate (.subscribe clid list iteration torn))
        (sessions.modify currentDir clid fun spec =>
          { spec with wanted := SessionSpec.bindTopics spec.wanted list })
  | cut {sessions : Sessions} {s clid list iteration written left}
      (cutTo : ∀ spec ∈ sessions (ClientStore.directory currentDir clid),
        CutTo spec.wanted list left) :
      Step sessions (.running s, .cut clid list iteration written)
        (sessions.modify currentDir clid fun spec => { spec with wanted := left })
  | logged {sessions s clid wall} :
      Step sessions (.running s, .operate (.log clid wall))
        (sessions.modify currentDir clid fun spec =>
          { spec with offline := SessionCall.offlineUntil wall.value })
  | kept {sessions s idx session} : Step sessions (.running s, .operate (.session idx session)) sessions
  | cleared {sessions s closing} : Step sessions (.running s, .clear closing)
      (s.clients.foldr (leave currentDir closing) sessions)
  | started {sessions stores} : Step sessions (.stopped stores, .start) sessions
  | exited {sessions s} : Step sessions (.running s, .exit) sessions

/-- All histories of the sessions along what happens to the broker. -/
def system : System Sessions (Service × ServiceAction) where
  Initial sessions := sessions = fun _ => none
  Step := Step currentDir

/-- The files hold the sessions. -/
def Held (stores : List Bytes → Option SessionStore) (sessions : Sessions) : Prop :=
  ∀ directory, SessionCall.Holds (stores directory) (sessions directory)

/-- The files of a session are changed as the session is. -/
theorem Held.update {stores : List Bytes → Option SessionStore} {sessions : Sessions}
    (held : Held stores sessions) (directory : List Bytes) {store : Option SessionStore}
    {spec : Option SessionSpec} (holds : SessionCall.Holds store spec) :
    Held (Function.update stores directory store) (Function.update sessions directory spec) := by
  intro other
  by_cases own : other = directory
  · rw [own, Function.update_self, Function.update_self]
    exact holds
  · rw [Function.update_of_ne own, Function.update_of_ne own]
    exact held other

end Sessions

section Changes

variable {store : Option SessionStore} {spec : Option SessionSpec}

/-- A log line is the session's last. -/
theorem holds_logged (holds : SessionCall.Holds store spec) (wall : WALL) :
    SessionCall.Holds (store.map fun store => store.logSession [wall])
      (spec.map fun spec => { spec with offline := SessionCall.offlineUntil wall.value }) := by
  cases store with
  | none =>
    cases spec with
    | none => trivial
    | some spec => exact holds.elim
  | some store =>
    cases spec with
    | none => exact holds.elim
    | some spec => exact SessionCall.Represents.logged holds wall

/-- New subscriptions are added to those of the session. -/
theorem holds_subscribed {stored : SessionStore} (holds : SessionCall.Holds (some stored) spec)
    (list : List Subscribe) (iteration : IterationOrder)
    (fits : ∀ map, getSubscribed stored.subscribed = .ok map → Storable (mergeTopics map list)) :
    ∃ subscribed, ClientStore.subscribe stored.subscribed list iteration = .ok subscribed ∧
      SessionCall.Holds (some { stored with subscribed }) (spec.map fun spec =>
        { spec with wanted := SessionSpec.bindTopics spec.wanted list }) := by
  cases spec with
  | none => exact holds.elim
  | some spec => exact SessionCall.Represents.subscribe holds list iteration fits

/-- Some of the subscriptions are left when their file is cut short. -/
theorem holds_cut {stored : SessionStore} {own : SessionSpec}
    (holds : SessionCall.Holds (some stored) (some own)) (list : List Subscribe)
    (iteration : IterationOrder)
    (fits : ∀ map, getSubscribed stored.subscribed = .ok map → Storable (mergeTopics map list))
    (count : Nat) :
    ∃ subscribed left, ClientStore.subscribe stored.subscribed list iteration = .ok subscribed ∧
      CutTo own.wanted list left ∧
      SessionCall.Holds (some { stored with subscribed := subscribed.take count })
        (some { own with wanted := left }) := by
  obtain ⟨map, read, same⟩ := holds.subscribed
  have nodup := mergeTopics_nodup (getSubscribed_bounds read).1 list
  have perm := iteration.perm (mergeTopics map list)
  obtain ⟨again, readAgain, part⟩ := getSubscribed_take_write (Assoc.keys_perm_nodup perm nodup)
    ((fits map read).of_perm perm) count
  refine ⟨writeSubscribed (iteration.order (mergeTopics map list)), fun topic =>
    Assoc.get topic again, ?_, .inr fun topic level bound => ?_, holds.log, holds.metadata,
    holds.plain, again, readAgain, fun _ => rfl⟩
  · simp [ClientStore.subscribe, read]
  · rw [← SessionCall.get_mergeTopics same, ← Assoc.get_perm perm nodup]
    exact part topic level bound

/-- What a restore of a session returns. -/
def Restores (store : Option SessionStore) (spec : Option SessionSpec) (iteration : IterationOrder)
    (now : Nat) : Prop :=
  match SessionStore.restore store iteration now with
  | .ok (restored, _) => ∃ own, spec = some own ∧ own.Resumes now ∧
      restored.mdata = own.settings ∧ SessionSpec.Lists restored.subs own.wanted
  | .err _ => ∀ own ∈ spec, ¬ own.Resumes now
  | .panic => False

theorem Restores.stays {iteration : IterationOrder} {now : Nat} {error : IoError}
    (restores : Restores store spec iteration now)
    (failed : SessionStore.restore store iteration now = .err error) :
    ∀ own ∈ spec, ¬ own.Resumes now := by
  rw [Restores, failed] at restores
  exact restores

theorem holds_restores (holds : SessionCall.Holds store spec) (iteration : IterationOrder) (now : Nat)
    (readable : ∀ files, store = some files → LogReadable files.session) :
    Restores store spec iteration now := by
  cases store with
  | none =>
    cases spec with
    | none => exact fun own is => absurd is (Option.not_mem_none own)
    | some own => exact holds.elim
  | some files =>
    cases spec with
    | none => exact holds.elim
    | some own =>
      rw [Restores]
      rcases SessionCall.Represents.restore holds (readable files rfl) iteration now with
        ⟨resumes, subs, after, restored, listed, _⟩ | ⟨stays, ⟨error, failed⟩, _⟩
      · rw [restored]
        exact ⟨own, rfl, resumes, rfl, listed⟩
      · rw [failed]
        exact fun other is => Option.some.inj is ▸ stays

end Changes

section Opening

variable {currentDir : Bytes} {s : Broker} {conid : ConnectionID} {srvVar : ServerVariable}
  {answers : Answers} {now : Nat} {response : ConnackPacket}

/-- The files of a session are new, or the call did not return and nothing is changed. -/
def MadeNew (stores : List Bytes → Option SessionStore) (directory : List Bytes)
    (mdata : MetaData) (now : Nat) {ε α : Type} (outcome : Outcome ε α) (after : Broker) : Prop :=
  after.stores = Function.update stores directory (some (SessionStore.new mdata now)) ∨
    (∀ value, outcome ≠ .ok value) ∧ after.stores = stores

theorem newClient_ends {ε : Type} (limit : Limiter) (made : answers.created = .made) :
    Action.Ends (MadeNew s.stores (ClientStore.directory currentDir srvVar.clid)
        (Client.metaData srvVar.keepAlive srvVar.exprInterval srvVar.protocolLevel limit) now)
      (Broker.newClient currentDir conid srvVar limit answers now : Action Broker ε Client) s := by
  rw [Broker.newClient]
  cases (Client.new conid srvVar.clid srvVar.keepAlive srvVar.exprInterval srvVar.protocolLevel
      limit now).unwrap with
  | ok client =>
    refine Action.Ends.of_eq ?_ (Action.ofOutcome_ok_bind client _ s)
    refine Action.Ends.of_eq ?_ (Action.bind_of_ok (Action.unwrap_of_ok
      (show Broker.createStore currentDir srvVar.clid _ answers now s = _ by
        rw [Broker.createStore, made])))
    exact .inl rfl
  | err error => exact .inr ⟨Outcome.err_ne_ok error, rfl⟩
  | panic => exact .inr ⟨Outcome.panic_ne_ok, rfl⟩

/-- No files are changed. -/
def Unchanged (stores : List Bytes → Option SessionStore) {ε α : Type} (_outcome : Outcome ε α)
    (after : Broker) : Prop := after.stores = stores

/-- No files are changed, and no error is returned. -/
def Quiet (stores : List Bytes → Option SessionStore) {ε α : Type} (outcome : Outcome ε α)
    (after : Broker) : Prop := after.stores = stores ∧ ∀ error, outcome ≠ .err error

section Frame

variable {stores : List Bytes → Option SessionStore} {ε ε' α β : Type}

theorem unchanged_bind {call : Action Broker ε α} {next : α → Action Broker ε β}
    (first : Action.Ends (Unchanged stores) call s)
    (second : ∀ value after, after.stores = stores → Action.Ends (Unchanged stores) (next value) after) :
    Action.Ends (Unchanged stores) (call >>= next) s :=
  first.bind second (fun _ _ same => same) fun _ same => same

theorem quiet_unwrap {call : Action Broker ε α} (ends : Action.Ends (Unchanged stores) call s) :
    Action.Ends (Quiet stores) (call.unwrap : Action Broker ε' α) s :=
  ends.unwrap (fun value _ same => ⟨same, Outcome.ok_ne_err value⟩)
    (fun _ _ same => ⟨same, Outcome.panic_ne_err⟩) fun _ same => ⟨same, Outcome.panic_ne_err⟩

variable (same : s.stores = stores)
include same

/-- The registry is changed, and no files. -/
theorem insertClient_ends (client : Client) :
    Action.Ends (Unchanged stores) (Broker.insertClient client now) s := by
  rw [Action.Ends, Broker.insertClient]
  split <;> exact same

theorem getClient_ends (clid : ClientID) :
    Action.Ends (Quiet stores) (Broker.getClient clid : Action Broker ε (Option Client)) s :=
  ⟨same, Outcome.ok_ne_err _⟩

theorem ofOutcome_ends (outcome : Outcome ε α) :
    Action.Ends (Unchanged stores) (Action.ofOutcome outcome : Action Broker ε α) s := same

theorem register_ends (client : Client) :
    Action.Ends (Unchanged stores) (Broker.register client now) s :=
  unchanged_bind (insertClient_ends same client) fun _ _ same =>
    unchanged_bind (((getClient_ends same client.clid).mono And.left)) fun _ _ same =>
      unchanged_bind (ofOutcome_ends same _) fun _ _ same => same

end Frame

theorem newSession_ends (made : answers.created = .made) :
    Action.Ends (MadeNew s.stores (ClientStore.directory currentDir srvVar.clid)
        (Client.metaData srvVar.keepAlive srvVar.exprInterval srvVar.protocolLevel
          (Broker.limitOf response)) now)
      (Broker.newSession currentDir response conid srvVar answers now) s := by
  rw [Broker.newSession]
  refine (newClient_ends (Broker.limitOf response) made).bind (fun client after new => ?_)
    (fun error after new => ?_) fun after new => ?_
  · rcases new with same | ⟨never, _⟩
    · have registered : Action.Ends (Quiet _) ((Broker.register client now).unwrap :
          Action Broker String Unit) after :=
        quiet_unwrap (register_ends same client)
      exact (unchanged_bind (registered.mono And.left) fun _ _ same => ofOutcome_ends same _).mono .inl
    · exact absurd rfl (never client)
  · exact new.imp id fun same => ⟨Outcome.err_ne_ok error, same.2⟩
  · exact new.imp id fun same => ⟨Outcome.panic_ne_ok, same.2⟩

/-- The session in the files is resumed, or it cannot be and nothing is changed. -/
inductive Restoring (stores : List Bytes → Option SessionStore) (directory : List Bytes)
    (before : Option SessionSpec) (now : Nat) {ε α : Type} (refusal : ε → Prop) :
    Outcome ε α → Broker → Prop where
  | resumed {spec store outcome} {after : Broker} (present : before = some spec)
      (resumes : spec.Resumes now)
      (represents : SessionCall.Represents store { spec with offline := none })
      (changed : after.stores = Function.update stores directory (some store))
      (taken : ∀ error, refusal error → outcome ≠ .err error) :
      Restoring stores directory before now refusal outcome after
  | refused {error : ε} {after : Broker} (stays : ∀ spec ∈ before, ¬ spec.Resumes now)
      (same : after.stores = stores) (counts : refusal error) :
      Restoring stores directory before now refusal (.err error) after

section Restore

variable {clid : ClientID} {before : Option SessionSpec} (work : answers.Work)
  (holds : SessionCall.Holds (s.storeOf currentDir clid) before)
  (readable : ∀ store, s.storeOf currentDir clid = some store → LogReadable store.session)
include work holds readable

theorem restoreClient_ends :
    Action.Ends (Restoring s.stores (ClientStore.directory currentDir clid) before now fun _ => True)
      (Broker.restoreClient currentDir conid clid answers now) s := by
  rw [Action.Ends, Broker.restoreClient_eq work.logOpened s]
  have files : restoreFiles conid clid (s.storeOf currentDir clid) answers now =
      Client.restore conid clid (s.storeOf currentDir clid) answers.iteration now := by
    unfold restoreFiles
    simp only [work.filesOpened]
  rw [files]
  cases present : s.storeOf currentDir clid with
  | none =>
    rw [present] at holds
    cases before with
    | some spec => exact holds.elim
    | none =>
      exact .refused (fun own is => absurd is (Option.not_mem_none own))
        (Function.update_eq_self_iff.mpr present.symm) trivial
  | some store =>
    rw [present] at holds
    cases before with
    | none => exact holds.elim
    | some spec =>
      rcases SessionCall.Represents.restore holds (readable store present) answers.iteration now with
        ⟨resumes, subs, after, restored, _, represents⟩ | ⟨stays, ⟨error, failed⟩, same⟩
      · refine .resumed rfl resumes represents rfl fun error _ => ?_
        rw [Client.restore, restored, Outcome.ok_bind]
        cases paid : Session.allowance spec.settings.keepAliveInterval <;>
          simp [paid, Outcome.unwrap]
      · have refused : Client.restore conid clid (some store) answers.iteration now =
            .err error := by
          rw [Client.restore, failed]
          rfl
        rw [refused]
        exact .refused (fun other is => Option.some.inj is ▸ stays)
          (Function.update_eq_self_iff.mpr ((congrArg some same).trans present.symm)) trivial

/-- Behind the restore no files are touched. -/
theorem tryRestoreSession_ends :
    Action.Ends (Restoring s.stores (ClientStore.directory currentDir clid) before now
        fun failure => failure.socket = true)
      (Broker.tryRestoreSession currentDir conid clid answers now) s := by
  rw [Broker.tryRestoreSession]
  have restored : Action.Ends (Restoring s.stores (ClientStore.directory currentDir clid) before now
      fun _ => True) (Broker.restoreClient currentDir conid clid answers now) s :=
    restoreClient_ends work holds readable
  have renamed : Action.Ends (Restoring s.stores (ClientStore.directory currentDir clid) before now
      fun failure => failure.socket = true) ((Broker.restoreClient currentDir conid clid answers
        now).mapErr fun error => (⟨error, true⟩ : Broker.NotRestored)) s := by
    refine restored.mapErr (fun _ _ attempted => ?_) (fun error _ attempted => ?_)
      fun _ attempted => ?_
    · cases attempted with
      | resumed present resumes represents changed taken =>
        exact .resumed present resumes represents changed fun error _ => Outcome.ok_ne_err _ error
    · cases attempted with
      | resumed present resumes represents changed taken => exact absurd rfl (taken error trivial)
      | refused stays same => exact .refused stays same rfl
    · cases attempted with
      | resumed present resumes represents changed taken =>
        exact .resumed present resumes represents changed fun error _ => Outcome.panic_ne_err error
  refine renamed.bind (fun client after attempted => ?_) (fun _ _ attempted => ?_)
    fun _ attempted => ?_
  · cases attempted with
    | @resumed spec store _ _ present resumes represents changed taken =>
      have final {outcome : Outcome Broker.NotRestored Unit} {last : Broker}
          (quiet : Quiet (Function.update s.stores (ClientStore.directory currentDir clid)
            (some store)) outcome last) :
          Restoring s.stores (ClientStore.directory currentDir clid) before now
            (fun failure => failure.socket = true) outcome last :=
        .resumed present resumes represents quiet.1 fun error _ => quiet.2 error
      refine (quiet_unwrap (insertClient_ends changed client)).bind (fun _ _ quiet => ?_)
        (fun error _ quiet => absurd rfl (quiet.2 error))
        fun _ quiet => final ⟨quiet.1, Outcome.panic_ne_err⟩
      refine (getClient_ends quiet.1 clid).bind (fun found _ quiet => ?_)
        (fun error _ quiet => absurd rfl (quiet.2 error))
        fun _ quiet => final ⟨quiet.1, Outcome.panic_ne_err⟩
      cases found with
      | none =>
        refine .resumed present resumes represents quiet.1 fun error socket same => ?_
        rw [← Outcome.err.inj same] at socket
        cases socket
      | some _ =>
        refine (getClient_ends quiet.1 clid).bind (fun again _ quiet => ?_)
          (fun error _ quiet => absurd rfl (quiet.2 error))
          fun _ quiet => final ⟨quiet.1, Outcome.panic_ne_err⟩
        cases again with
        | none => exact final ⟨quiet.1, Outcome.panic_ne_err⟩
        | some _ => exact final ⟨quiet.1, Outcome.ok_ne_err ()⟩
  · cases attempted with
    | resumed present resumes represents changed taken =>
      exact .resumed present resumes represents changed fun error socket same =>
        taken error socket (by rw [Outcome.err.inj same])
    | refused stays same socket => exact .refused stays same socket
  · cases attempted with
    | resumed present resumes represents changed taken =>
      exact .resumed present resumes represents changed fun error _ => Outcome.panic_ne_err error

end Restore

/-- A session is opened, or the call did not return and nothing is changed. -/
inductive Opened (stores : List Bytes → Option SessionStore) (directory : List Bytes)
    (before : Option SessionSpec) (cleanStart : Bool) (settings : MetaData) (now : Nat)
    {ε α : Type} : Outcome ε α → Broker → Prop where
  | opened {spec store outcome} {after : Broker} (opens : Opens cleanStart settings now before spec)
      (represents : SessionCall.Represents store spec)
      (changed : after.stores = Function.update stores directory (some store)) :
      Opened stores directory before cleanStart settings now outcome after
  | unchanged {outcome} {after : Broker} (never : ∀ value, outcome ≠ .ok value)
      (same : after.stores = stores) :
      Opened stores directory before cleanStart settings now outcome after

section Start

variable {before : Option SessionSpec}

theorem newSession_opens (made : answers.created = .made) {cleanStart : Bool}
    (fresh : cleanStart = true ∨ ∀ spec ∈ before, ¬ spec.Resumes now) :
    Action.Ends (Opened s.stores (ClientStore.directory currentDir srvVar.clid) before
        cleanStart (Client.metaData srvVar.keepAlive srvVar.exprInterval srvVar.protocolLevel
          (Broker.limitOf response)) now)
      (Broker.newSession currentDir response conid srvVar answers now) s :=
  (newSession_ends made).mono fun new => by
    rcases new with changed | ⟨never, same⟩
    · exact .opened (.created fresh) (SessionCall.represents_new _ rfl now) changed
    · exact .unchanged never same

theorem startSession_ends (s : Broker) (conid : ConnectionID) (srvVar : ServerVariable)
    (response : ConnackPacket) (now : Nat) (work : answers.Work)
    (holds : SessionCall.Holds (s.storeOf currentDir srvVar.clid) before)
    (readable : srvVar.cleanStart = false →
      ∀ store, s.storeOf currentDir srvVar.clid = some store → LogReadable store.session) :
    Action.Ends (Opened s.stores (ClientStore.directory currentDir srvVar.clid) before
        srvVar.cleanStart (Client.metaData srvVar.keepAlive srvVar.exprInterval srvVar.protocolLevel
          (Broker.limitOf response)) now)
      (Broker.startSession currentDir response conid srvVar answers now) s := by
  rw [Broker.startSession, Broker.isStillAlive]
  refine Action.Ends.of_eq ?_ (Action.ask_bind _ _ s)
  split
  · exact .unchanged (Outcome.err_ne_ok _) rfl
  cases clean : srvVar.cleanStart with
  | true =>
    rw [if_pos rfl]
    exact newSession_opens work.created (.inl rfl)
  | false =>
    rw [if_neg Bool.false_ne_true]
    refine (tryRestoreSession_ends work holds (readable clean)).attempt_bind
      (fun _ after tried => ?_) (fun failure after tried => ?_) fun after tried => ?_
    · cases tried with
      | resumed present resumes represents changed taken =>
        exact .opened (present ▸ .resumed rfl resumes) represents changed
    · dsimp only
      cases tried with
      | resumed present resumes represents changed taken =>
        have lost : failure.socket = false :=
          Bool.eq_false_of_not_eq_true fun socket => taken failure socket rfl
        rw [lost, if_neg Bool.false_ne_true]
        exact .opened (present ▸ .resumed rfl resumes) represents changed
      | refused stays same socket =>
        rw [if_pos socket]
        refine Action.Ends.of_eq ?_ (Action.ofOutcome_ok_bind () _ after)
        rw [← same]
        exact newSession_opens work.created (.inr stays)
    · cases tried with
      | resumed present resumes represents changed taken =>
        exact .opened (present ▸ .resumed rfl resumes) represents changed

end Start

@[simp] theorem collect_cleanStart (req : ConnectPacket) (res : ConnackPacket) :
    (collect req res).1.cleanStart = req.cleanStart := by
  rw [collect]
  split <;> rfl

/-- A request is handled. -/
theorem establishConnection_ends (s : Broker) (conid : ConnectionID) (now : Nat)
    {before : Option SessionSpec} {octets rest : Bytes} (fits : octets.length ≤ 256)
    {packet : ConnectPacket}
    (decoded : ConnectPacket.decode octets = .ok (packet, rest)) (work : answers.Work)
    (holds : SessionCall.Holds (s.storeOf currentDir (clientID packet)) before)
    (readable : packet.cleanStart = false →
      ∀ store, s.storeOf currentDir (clientID packet) = some store → LogReadable store.session) :
    Action.Ends (Opened s.stores (ClientStore.directory currentDir (clientID packet)) before
        packet.cleanStart (settingsOf packet) now)
      (Broker.establishConnection currentDir conid (.received octets fits) answers now) s := by
  have request : readRequest (.received octets fits) = .ok packet := by
    rw [Broker.readRequest_received, decoded]
    rfl
  have started := startSession_ends s conid (collect packet .default).1
    (collect packet .default).2 now work (by simpa using holds) (by simpa using readable)
  simp only [collect_clid, collect_cleanStart] at started
  rw [Broker.establishConnection, request]
  refine Action.Ends.of_eq ?_ (Action.ofOutcome_ok_bind packet _ s)
  refine started.unwrap (fun _ _ opened => ?_) (fun _ _ opened => ?_) fun _ opened => ?_
  · cases opened with
    | opened opens represents changed => exact .opened opens represents changed
    | unchanged never same => exact absurd rfl (never _)
  · cases opened with
    | opened opens represents changed => exact .opened opens represents changed
    | unchanged never same => exact .unchanged (Outcome.panic_ne_ok) same
  · cases opened with
    | opened opens represents changed => exact .opened opens represents changed
    | unchanged never same => exact .unchanged (Outcome.panic_ne_ok) same

/-- How a connection ends up is how its handling ends. -/
theorem connect_handled (currentDir : Bytes) (s : Broker) (read : FirstRead) (answers : Answers)
    (now : Nat) :
    let handled := Broker.establishConnection currentDir ⟨s.accessTotal⟩ read answers now
      { s with accessTotal := s.accessTotal + 1 }
    (s.connect currentDir read answers now).2.stores = handled.2.stores ∧
      ((∀ value, handled.1 ≠ .ok value) →
        (s.connect currentDir read answers now).1 ≠ .accepted) := by
  intro handled
  rcases went : handled with ⟨outcome, after⟩
  rw [Broker.connect, show Broker.establishConnection currentDir _ read answers now _ = _ from went]
  cases outcome with
  | ok value => exact ⟨rfl, fun never => absurd rfl (never value)⟩
  | err error =>
    refine ⟨rfl, fun _ same => ?_⟩
    cases same
  | panic =>
    refine ⟨rfl, fun _ same => ?_⟩
    cases same

/-- What a connection does to the sessions. -/
theorem Sessions.Held.connect {sessions : Sessions} (held : Sessions.Held s.stores sessions)
    {read : FirstRead} (guarded : s.Guarded currentDir (.connect read answers now)) :
    ∃ onward, Sessions.Step currentDir sessions
        (.running s, .operate (.connect read answers now)) onward ∧
      Sessions.Held (s.connect currentDir read answers now).2.stores onward := by
  obtain ⟨stores, notAccepted⟩ := connect_handled currentDir s read answers now
  rw [stores]
  by_cases request : ∃ packet, readRequest read = .ok packet
  · cases read with
    | timedOut | failed error =>
      obtain ⟨_, request⟩ := request
      cases request
    | received octets fits =>
      obtain ⟨packet, request⟩ := request
      rw [Broker.readRequest_received] at request
      cases decoded : ConnectPacket.decode octets with
      | err error | panic =>
        rw [decoded] at request
        cases request
      | ok result =>
        obtain ⟨other, rest⟩ := result
        rw [decoded] at request
        obtain rfl : other = packet := Outcome.ok.inj request
        obtain ⟨work, readable⟩ := guarded other rest decoded
        have handled := establishConnection_ends { s with accessTotal := s.accessTotal + 1 }
          ⟨s.accessTotal⟩ now fits decoded work (held _) readable
        rw [Action.Ends] at handled
        cases handled with
        | opened opens represents changed =>
          exact ⟨_, .opened decoded opens, changed ▸ held.update _ represents⟩
        | unchanged never same =>
          refine ⟨sessions, .notAccepted (notAccepted never), ?_⟩
          rw [same]
          exact held
  · obtain ⟨never, same⟩ := Broker.establishConnection_of_none currentDir
      { s with accessTotal := s.accessTotal + 1 } ⟨s.accessTotal⟩ answers now
      fun packet is => request ⟨packet, is⟩
    refine ⟨sessions, .notAccepted (notAccepted never), ?_⟩
    rw [same]
    exact held

end Opening

section Clearing

variable {currentDir : Bytes} {closing : Closing}

theorem clearLoop_eq {count : Nat} {s : Broker} (all : count = s.clients.length) :
    Broker.clearLoop currentDir closing count s =
      { s with
        clients := []
        stores := s.clients.foldr (Broker.endSession currentDir closing) s.stores } := by
  induction count generalizing s with
  | zero =>
    have none : s.clients = [] := List.length_eq_zero_iff.mp all.symm
    rw [Broker.clearLoop, none, List.foldr_nil]
    exact congrArg (fun clients => { s with clients }) none
  | succ count inductionHypothesis =>
    have nonempty : s.clients ≠ [] := List.ne_nil_of_length_eq_add_one all.symm
    have split := List.dropLast_append_getLast nonempty
    rw [Broker.clearLoop, List.getLast?_eq_some_getLast nonempty]
    refine (inductionHypothesis ?_).trans ?_
    · rw [List.length_dropLast]
      omega
    · conv_rhs => rw [← split, List.foldr_append, List.foldr_cons, List.foldr_nil]

/-- The registry is empty afterwards, and the clients have been taken from its end. -/
theorem clear_eq (s : Broker) :
    s.clear currentDir closing =
      { s with
        clients := []
        stores := s.clients.foldr (Broker.endSession currentDir closing) s.stores } := by
  rw [Broker.clear]
  split
  · have none : s.clients = [] := List.isEmpty_iff.mp ‹_›
    rw [none, List.foldr_nil]
    exact congrArg (fun clients => { s with clients }) none
  · exact clearLoop_eq rfl

theorem Sessions.Held.leave {stores : List Bytes → Option SessionStore} {sessions : Sessions}
    (held : Sessions.Held stores sessions) (clients : List Client) :
    Sessions.Held (clients.foldr (Broker.endSession currentDir closing) stores)
      (clients.foldr (Sessions.leave currentDir closing) sessions) := by
  induction clients with
  | nil => exact held
  | cons client clients inductionHypothesis =>
    rw [List.foldr_cons, List.foldr_cons, Broker.endSession, Sessions.leave]
    split
    · exact inductionHypothesis
    · exact inductionHypothesis.update _ (holds_logged (inductionHypothesis _) _)

end Clearing

section Histories

variable {currentDir : Bytes} {service next : Service} {action : ServiceAction}
  {sessions : Sessions}

/-- A guarded operation of the running broker. -/
theorem Sessions.Held.operate {s after : Broker} (held : Sessions.Held s.stores sessions)
    {operation : Broker.Operation} (guarded : s.Guarded currentDir operation)
    (stepped : s.step currentDir operation = some after) :
    ∃ onward, Sessions.Step currentDir sessions (.running s, .operate operation) onward ∧
      Sessions.Held after.stores onward := by
  cases operation with
  | connect read answers now =>
    obtain ⟨_, rfl⟩ := Broker.step_connect stepped
    exact held.connect guarded
  | subscribe clid list iteration torn =>
    obtain ⟨rfl, fits⟩ := guarded
    obtain ⟨⟨_, router⟩, _, saved⟩ := Option.bind_eq_some_iff.mp stepped
    refine ⟨_, .subscribed, ?_⟩
    have holds := held (ClientStore.directory currentDir clid)
    cases present : s.stores (ClientStore.directory currentDir clid) with
    | none =>
      simp only [Broker.storeOf, present] at saved
      rw [← Option.some.inj saved]
      rw [present] at holds
      cases own : sessions (ClientStore.directory currentDir clid) with
      | none =>
        rw [Sessions.modify, own]
        rwa [Option.map_none, Function.update_eq_self_iff.mpr own.symm]
      | some spec =>
        rw [own] at holds
        exact holds.elim
    | some store =>
      rw [present] at holds
      obtain ⟨subscribed, written, still⟩ :=
        holds_subscribed holds list iteration (fits store present)
      simp only [Broker.storeOf, present, written] at saved
      rw [← Option.some.inj saved]
      exact held.update _ still
  | log clid wall =>
    obtain ⟨store, present, rfl⟩ := Option.map_eq_some_iff.mp stepped
    have logged := holds_logged (held (ClientStore.directory currentDir clid)) wall
    rw [show s.stores (ClientStore.directory currentDir clid) = some store from present] at logged
    exact ⟨_, .logged, held.update _ logged⟩
  | session idx session =>
    rw [← Option.some.inj stepped]
    exact ⟨_, .kept, held⟩

/-- A session is changed to what it is. -/
theorem modify_of_same {clid : ClientID} {change : SessionSpec → SessionSpec}
    (same : ∀ spec ∈ sessions (ClientStore.directory currentDir clid), change spec = spec) :
    sessions.modify currentDir clid change = sessions := by
  rw [Sessions.modify, Function.update_eq_self_iff]
  cases present : sessions (ClientStore.directory currentDir clid) with
  | none => rfl
  | some spec => rw [Option.map_some, same spec present]

/-- A save is interrupted. -/
theorem Sessions.Held.cut {s after : Broker} (held : Sessions.Held s.stores sessions)
    {clid : ClientID} {list : List Subscribe} {iteration : IterationOrder} {written : Option Nat}
    (fits : s.Fits currentDir clid list)
    (stepped : s.cutSubscribe currentDir clid list iteration written = some after) :
    ∃ onward, Sessions.Step currentDir sessions
        (.running s, .cut clid list iteration written) onward ∧
      Sessions.Held after.stores onward := by
  obtain ⟨⟨_, router⟩, _, saved⟩ := Option.bind_eq_some_iff.mp stepped
  -- Where the file is as it was, the session keeps its subscriptions.
  have untouched (same : after.stores = s.stores) : ∃ onward, Sessions.Step currentDir sessions
      (.running s, .cut clid list iteration written) onward ∧ Sessions.Held after.stores onward := by
    refine ⟨_, .cut (?_ : ∀ spec ∈ sessions (ClientStore.directory currentDir clid),
      CutTo spec.wanted list (((sessions (ClientStore.directory currentDir clid)).map
        SessionSpec.wanted).getD PartialMap.empty)), ?_⟩
    · rintro spec present
      rw [Option.mem_def.mp present]
      exact .inl rfl
    · rw [modify_of_same, same]
      · exact held
      · rintro spec present
        rw [Option.mem_def.mp present]
        rfl
  cases written with
  | none =>
    rw [← Option.some.inj saved] at untouched ⊢
    exact untouched rfl
  | some count =>
    cases present : s.storeOf currentDir clid with
    | none =>
      simp only [present] at saved
      rw [← Option.some.inj saved] at untouched ⊢
      exact untouched rfl
    | some store =>
      have holds := held (ClientStore.directory currentDir clid)
      rw [show s.stores (ClientStore.directory currentDir clid) = some store from present] at holds
      cases own : sessions (ClientStore.directory currentDir clid) with
      | none =>
        rw [own] at holds
        exact holds.elim
      | some spec =>
        rw [own] at holds
        obtain ⟨subscribed, left, written, cutTo, still⟩ :=
          holds_cut holds list iteration (fits store present) count
        simp only [present, written] at saved
        rw [← Option.some.inj saved]
        have cutAll : ∀ other ∈ sessions (ClientStore.directory currentDir clid),
            CutTo other.wanted list left := by
          rintro other is
          rw [own] at is
          exact Option.some.inj is ▸ cutTo
        refine ⟨_, .cut cutAll, ?_⟩
        · rw [Sessions.modify, own]
          exact held.update _ still

/-- A guarded step of the broker does to the sessions what is meant. -/
theorem Sessions.Held.step (held : Sessions.Held service.stores sessions)
    (guarded : service.Guarded currentDir action)
    (stepped : service.step currentDir action = some next) :
    ∃ onward, Sessions.Step currentDir sessions (service, action) onward ∧
      Sessions.Held next.stores onward := by
  cases service with
  | stopped stores =>
    cases action with
    | start =>
      rw [← Option.some.inj stepped]
      exact ⟨_, .started, held⟩
    | operate | cut | clear | exit => cases stepped
  | running s =>
    cases action with
    | start => cases stepped
    | operate operation =>
      obtain ⟨after, operated, rfl⟩ := Option.map_eq_some_iff.mp stepped
      exact held.operate guarded operated
    | cut clid list iteration written =>
      obtain ⟨after, interrupted, rfl⟩ := Option.map_eq_some_iff.mp stepped
      exact held.cut guarded interrupted
    | clear closing =>
      rw [← Option.some.inj stepped]
      refine ⟨_, .cleared, ?_⟩
      rw [clear_eq]
      exact held.leave s.clients
    | exit =>
      rw [← Option.some.inj stepped]
      exact ⟨_, .exited, held⟩

theorem Sessions.simulation (currentDir : Bytes) :
    System.Simulation (Service.system currentDir) (Sessions.system currentDir)
      (Service.Guarded currentDir) (fun service action => some (service, action))
      (fun service sessions => Sessions.Held service.stores sessions) where
  initial valid := by
    rw [valid]
    exact ⟨fun _ => none, rfl, fun _ => trivial⟩
  step := by
    intro service action next sessions held guarded stepped
    obtain ⟨onward, transition, still⟩ := held.step guarded stepped
    exact .inr ⟨_, onward, rfl, transition, still⟩

/-- In every guarded history of the broker, with any number of clients, stops and starts, the
files of each directory hold the session that is meant there, and a restore returns just that
or is refused. -/
theorem sessions_kept {trail : List (Service × ServiceAction)}
    (run : (Service.system currentDir).Run trail service)
    (guarded : System.Run.AllSteps (Service.Guarded currentDir) trail) :
    ∃ history sessions, (Sessions.system currentDir).Run history sessions ∧
      history.map Prod.snd = trail ∧ Sessions.Held service.stores sessions ∧
      ∀ directory iteration now,
        (∀ files, service.stores directory = some files → LogReadable files.session) →
        Restores (service.stores directory) (sessions directory) iteration now := by
  obtain ⟨history, sessions, abstract, labels, held⟩ :=
    (Sessions.simulation currentDir).of_run run guarded
  refine ⟨history, sessions, abstract, labels.trans ?_, held, fun directory iteration now =>
    holds_restores (held directory) iteration now⟩
  rw [System.emitted, List.filterMap_some]

theorem valid_clientA : Utf8.valid [0x61] = true := rfl

theorem valid_topicT : Utf8.valid [0x74] = true := rfl

theorem valid_topicU : Utf8.valid [0x75] = true := rfl

/-- A client, and topics that it subscribes to. -/
def clientA : ClientID := .new ⟨[0x61], valid_clientA⟩

def topicT : Str := ⟨[0x74], valid_topicT⟩

def topicU : Str := ⟨[0x75], valid_topicU⟩

/-- The registry is cleared at one time, and every log can be written. -/
def closingAt (now : Nat) : Closing := ⟨fun _ => now, fun _ => false⟩

/-- The client asks for a connection, without a clean start. -/
def connectsAgain (now : Nat) : Broker.Operation :=
  .connect (.received [0x10, 0x0E, 0x00, 0x04, 0x4D, 0x51, 0x54, 0x54, 0x05, 0x00, 0x00, 0x3C,
    0x00, 0x00, 0x01, 0x61] (Nat.le_of_ble_eq_true rfl))
    ⟨.ok (), .ok (), .made, .ok (), .listed⟩ now

theorem connectsAgain_guarded {s : Broker} {now : Nat}
    (readable : ∀ store, s.storeOf currentDir clientA = some store → LogReadable store.session) :
    s.Guarded currentDir (connectsAgain now) := by
  intro packet rest decoded
  cases decoded
  exact ⟨⟨rfl, rfl, rfl⟩, fun _ => readable⟩

/-- The subscriptions of a session are those that its file reads as. -/
theorem Sessions.Held.wanted {stores : List Bytes → Option SessionStore}
    (held : Sessions.Held stores sessions) (directory : List Bytes) (map : Subscriptions)
    (read : (stores directory).map (fun store => getSubscribed store.subscribed) =
      some (.ok map)) :
    ∃ spec, sessions directory = some spec ∧
      ∀ topic, spec.wanted topic = Assoc.get topic map := by
  obtain ⟨store, stored, read⟩ := Option.map_eq_some_iff.mp read
  have holds := held directory
  rw [stored] at holds
  cases present : sessions directory with
  | none =>
    rw [present] at holds
    exact holds.elim
  | some spec =>
    rw [present] at holds
    obtain ⟨other, again, same⟩ := holds.subscribed
    obtain rfl : map = other := Outcome.ok.inj (read.symm.trans again)
    exact ⟨spec, rfl, fun topic => (same topic).symm⟩

/-- A guarded run. -/
abbrev GuardedRun (currentDir : Bytes) (trail : List (Service × ServiceAction))
    (service : Service) : Prop :=
  (Service.system currentDir).Run trail service ∧
    System.Run.AllSteps (Service.Guarded currentDir) trail

theorem GuardedRun.then {trail : List (Service × ServiceAction)}
    (run : GuardedRun currentDir trail service) (action : ServiceAction)
    (guarded : service.Guarded currentDir action)
    (stepped : service.step currentDir action = some next) :
    GuardedRun currentDir (trail ++ [(service, action)]) next :=
  ⟨.step run.1 stepped, System.Run.allSteps_append.mpr ⟨run.2, guarded⟩⟩

/-- The broker is started on an empty disk. -/
theorem GuardedRun.started : GuardedRun currentDir [(.stopped fun _ => none, .start)]
    (.running (.new fun _ => none)) :=
  .then ⟨.initial rfl, fun _ impossible => absurd impossible List.not_mem_nil⟩ .start trivial rfl

theorem GuardedRun.operate {trail : List (Service × ServiceAction)} {s after : Broker}
    (run : GuardedRun currentDir trail (.running s)) (operation : Broker.Operation)
    (guarded : s.Guarded currentDir operation)
    (stepped : s.step currentDir operation = some after) :
    GuardedRun currentDir (trail ++ [(.running s, .operate operation)]) (.running after) :=
  run.then _ guarded (congrArg (Option.map Service.running) stepped)

theorem GuardedRun.cut {trail : List (Service × ServiceAction)} {s after : Broker}
    (run : GuardedRun currentDir trail (.running s)) (clid : ClientID) (list : List Subscribe)
    (iteration : IterationOrder) (written : Option Nat) (fits : s.Fits currentDir clid list)
    (stepped : s.cutSubscribe currentDir clid list iteration written = some after) :
    GuardedRun currentDir (trail ++ [(.running s, .cut clid list iteration written)])
      (.running after) :=
  run.then _ fits (congrArg (Option.map Service.running) stepped)

/-- The broker is told to stop, and started again on its files. -/
theorem GuardedRun.restart {trail : List (Service × ServiceAction)} {s : Broker}
    (run : GuardedRun currentDir trail (.running s)) (closing : Closing) :
    ∃ stop, stop.map Prod.snd = [.clear closing, .exit, .start] ∧
      GuardedRun currentDir (trail ++ stop)
        (.running (.new (s.clear currentDir closing).stores)) := by
  have stopped := (run.then (.clear closing) trivial rfl).then .exit trivial rfl
  have again := stopped.then .start trivial rfl
  rw [List.append_assoc, List.append_assoc] at again
  exact ⟨_, rfl, again⟩

/-- A client connects, subscribes to a topic and is saving a second one when the broker is told
to stop. After the restart the session is resumed, with the first topic. -/
theorem sessions_kept_restart :
    ∃ trail service history sessions spec, (Service.system [0x2F]).Run trail service ∧
      trail.map Prod.snd = [.start, .operate (connectsAgain 5),
        .operate (.subscribe clientA [⟨topicT, .qos1⟩] .listed none),
        .cut clientA [⟨topicU, .qos2⟩] ⟨List.reverse, List.reverse_perm⟩ (some 4),
        .clear (closingAt 7), .exit, .start,
        .operate (connectsAgain 80)] ∧
      (Sessions.system [0x2F]).Run history sessions ∧ history.map Prod.snd = trail ∧
      sessions (ClientStore.directory [0x2F] clientA) = some spec ∧
      spec.wanted topicT = some .qos1 ∧ spec.wanted topicU = none ∧ ¬ spec.Resumes 90 := by
  have started : GuardedRun [0x2F] _ _ := .started
  have connected := started.operate (connectsAgain 5) (connectsAgain_guarded nofun) rfl
  have subscribed := connected.operate (.subscribe clientA [⟨topicT, .qos1⟩] .listed none)
    ⟨rfl, fun store stored map read => by
      cases stored
      cases read
      exact ⟨by decide, by decide⟩⟩ rfl
  have interrupted := subscribed.cut clientA [⟨topicU, .qos2⟩] ⟨List.reverse, List.reverse_perm⟩
    (some 4) (fun store stored map read => by
      cases stored
      cases read
      exact ⟨by decide, by decide⟩) rfl
  obtain ⟨stop, stopped, again⟩ := interrupted.restart (closingAt 7)
  have resumed := again.operate (connectsAgain 80) (connectsAgain_guarded fun store stored => by
    cases stored
    exact ⟨[⟨5, .clientCreated⟩, ⟨7, .disconnectByServer 95⟩], List.cons_ne_nil _ _, rfl,
      aligned_of_short (by decide)⟩) rfl
  obtain ⟨history, sessions, abstract, labels, held, restores⟩ :=
    sessions_kept resumed.1 resumed.2
  obtain ⟨spec, present, same⟩ := held.wanted (ClientStore.directory [0x2F] clientA)
    [(topicT, .qos1)] rfl
  have refused := restores (ClientStore.directory [0x2F] clientA) .listed 90 fun files isFiles => by
    cases isFiles
    exact ⟨[⟨5, .clientCreated⟩, ⟨7, .disconnectByServer 95⟩, ⟨80, .clientRestored⟩],
      List.cons_ne_nil _ _, rfl, aligned_of_short (by decide)⟩
  refine ⟨_, _, history, sessions, spec, resumed.1, ?_, abstract, labels, present, same topicT,
    same topicU, refused.stays rfl spec present⟩
  rw [List.map_append, List.map_append, stopped]
  rfl

/-- The session of clients that are not in the registry. -/
theorem foldr_leave_of_ne {closing : Closing} {directory : List Bytes} {clients : List Client}
    (absent : ∀ client ∈ clients, ClientStore.directory currentDir client.clid ≠ directory) :
    clients.foldr (Sessions.leave currentDir closing) sessions directory = sessions directory := by
  induction clients with
  | nil => rfl
  | cons client clients inductionHypothesis =>
    obtain ⟨first, rest⟩ := List.forall_mem_cons.mp absent
    rw [List.foldr_cons, Sessions.leave]
    split
    · exact inductionHypothesis rest
    · rw [Sessions.modify, Function.update_of_ne first.symm]
      exact inductionHypothesis rest

/-- The session of a client in the registry is left until its expiration, when the clients of
its directory agree on that. -/
theorem foldr_leave_of_mem {closing : Closing} {directory : List Bytes} {clients : List Client}
    {expiration : UInt64}
    (agreed : ∀ client ∈ clients, ClientStore.directory currentDir client.clid = directory →
      closing.failed client.clid = false ∧ UInt64.ofNat client.expirationTime = expiration)
    (present : ∃ client ∈ clients, ClientStore.directory currentDir client.clid = directory) :
    clients.foldr (Sessions.leave currentDir closing) sessions directory =
      (sessions directory).map fun spec => { spec with offline := some expiration } := by
  induction clients with
  | nil =>
    obtain ⟨_, member, _⟩ := present
    cases member
  | cons client clients inductionHypothesis =>
    obtain ⟨first, rest⟩ := List.forall_mem_cons.mp agreed
    by_cases own : ClientStore.directory currentDir client.clid = directory
    · obtain ⟨written, same⟩ := first own
      rw [List.foldr_cons, Sessions.leave, if_neg (Bool.not_eq_true _ ▸ written), Sessions.modify,
        own, Function.update_self, same]
      by_cases further : ∃ client ∈ clients,
          ClientStore.directory currentDir client.clid = directory
      · rw [inductionHypothesis rest further, Option.map_map]
        rfl
      · rw [foldr_leave_of_ne fun other member is => further ⟨other, member, is⟩]
    · have further : ∃ client ∈ clients,
          ClientStore.directory currentDir client.clid = directory := by
        obtain ⟨other, member, is⟩ := present
        rcases List.mem_cons.mp member with rfl | member
        · exact absurd is own
        · exact ⟨other, member, is⟩
      rw [List.foldr_cons, Sessions.leave]
      split
      · exact inductionHypothesis rest further
      · rw [Sessions.modify, Function.update_of_ne (Ne.symm own)]
        exact inductionHypothesis rest further

section Stop

variable {s : Broker} (held : Sessions.Held s.stores sessions) {client : Client}
  {spec : SessionSpec}
  (present : sessions (ClientStore.directory currentDir client.clid) = some spec)
include held present

/-- The session of a client that is alone in its directory is left until its expiration. -/
theorem restores_of_clear {closing : Closing} (member : client ∈ s.clients)
    (written : closing.failed client.clid = false)
    (alone : ∀ other ∈ s.clients, ClientStore.directory currentDir other.clid =
      ClientStore.directory currentDir client.clid → other = client)
    (iteration : IterationOrder) (later : Nat)
    (readable : ∀ files, (s.clear currentDir closing).stores
      (ClientStore.directory currentDir client.clid) = some files → LogReadable files.session) :
    Restores ((s.clear currentDir closing).stores (ClientStore.directory currentDir client.clid))
      (some { spec with offline := some (UInt64.ofNat client.expirationTime) })
      iteration later := by
  have cleared : Sessions.Held (s.clear currentDir closing).stores
      (s.clients.foldr (Sessions.leave currentDir closing) sessions) := by
    rw [clear_eq]
    exact held.leave s.clients
  have left : s.clients.foldr (Sessions.leave currentDir closing) sessions
      (ClientStore.directory currentDir client.clid) =
      (sessions (ClientStore.directory currentDir client.clid)).map fun spec =>
        { spec with offline := some (UInt64.ofNat client.expirationTime) } :=
    foldr_leave_of_mem (fun other registered same => by
      rw [alone other registered same]
      exact ⟨written, rfl⟩) ⟨client, member, rfl⟩
  have holds := cleared (ClientStore.directory currentDir client.clid)
  rw [left, present, Option.map_some] at holds
  exact holds_restores holds iteration later readable

/-- A save that is cut off when the file is truncated leaves no subscription. -/
theorem Sessions.Held.emptied {list : List Subscribe} {iteration : IterationOrder} {after : Broker}
    (stepped : s.cutSubscribe currentDir client.clid list iteration (some 0) = some after) :
    after.clients = s.clients ∧ Sessions.Held after.stores (Function.update sessions
      (ClientStore.directory currentDir client.clid)
        (some { spec with wanted := PartialMap.empty })) := by
  obtain ⟨⟨_, router⟩, _, saved⟩ := Option.bind_eq_some_iff.mp stepped
  have holds := held (ClientStore.directory currentDir client.clid)
  rw [present] at holds
  cases stored : s.stores (ClientStore.directory currentDir client.clid) with
  | none =>
    rw [stored] at holds
    exact holds.elim
  | some store =>
    rw [stored] at holds
    obtain ⟨map, read, _⟩ := holds.subscribed
    simp only [Broker.storeOf, stored, ClientStore.subscribe, read, Outcome.ok_bind,
      Outcome.pure_eq, List.take_zero] at saved
    rw [← Option.some.inj saved]
    exact ⟨rfl, held.update _ ⟨holds.log, holds.metadata, holds.plain, [], rfl, fun _ => rfl⟩⟩

/-- A session in use is refused. -/
theorem refused_of_inUse (inUse : spec.offline = none) (iteration : IterationOrder) (later : Nat)
    (readable : ∀ files, s.stores (ClientStore.directory currentDir client.clid) = some files →
      LogReadable files.session) :
    ∃ error, SessionStore.restore (s.stores (ClientStore.directory currentDir client.clid))
      iteration later = .err error := by
  have restores := holds_restores (held _) iteration later readable
  rw [Restores, present] at restores
  split at restores
  · obtain ⟨own, same, ⟨expiration, offline, _⟩, _⟩ := restores
    rw [← Option.some.inj same, inUse] at offline
    cases offline
  · exact ⟨_, ‹_›⟩
  · exact restores.elim

end Stop

/-- A stop on a signal leaves behind every session that is in the registry: after the restart,
until its expiration and no longer, a restore returns the settings that it was created with and
its subscriptions. When the process ends without it, a session that was in use is refused for
good. When a client's task is aborted as it has truncated its subscription file, the restore
succeeds as well, and returns no subscription. -/
theorem stop_keeps_sessions {s : Broker} {trail : List (Service × ServiceAction)}
    (run : (Service.system currentDir).Run trail (.running s))
    (guarded : System.Run.AllSteps (Service.Guarded currentDir) trail) (closing : Closing) :
    ∃ history sessions, (Sessions.system currentDir).Run history sessions ∧
      history.map Prod.snd = trail ∧ Sessions.Held s.stores sessions ∧
      (s.clear currentDir closing).clients = [] ∧
      System.execute (Service.step currentDir) (.running s) [.clear closing, .exit, .start] =
        some (.running (.new (s.clear currentDir closing).stores)) ∧
      ∀ client ∈ s.clients, closing.failed client.clid = false →
        let directory := ClientStore.directory currentDir client.clid
        (∀ other ∈ s.clients, ClientStore.directory currentDir other.clid = directory →
          other = client) →
        ∀ spec, sessions directory = some spec → ∀ iteration later,
          ((∀ files, (s.clear currentDir closing).stores directory = some files →
              LogReadable files.session) →
            Restores ((s.clear currentDir closing).stores directory)
              (some { spec with offline := some (UInt64.ofNat client.expirationTime) })
              iteration later) ∧
          ((∀ files, s.stores directory = some files → LogReadable files.session) →
            spec.offline = none →
            ∃ error, SessionStore.restore (s.stores directory) iteration later = .err error) ∧
          ∀ list order cut,
            s.cutSubscribe currentDir client.clid list order (some 0) = some cut →
            (∀ files, (cut.clear currentDir closing).stores directory = some files →
              LogReadable files.session) →
            Restores ((cut.clear currentDir closing).stores directory)
              (some ⟨spec.settings, PartialMap.empty,
                some (UInt64.ofNat client.expirationTime)⟩) iteration later := by
  obtain ⟨history, sessions, abstract, labels, held⟩ :=
    (Sessions.simulation currentDir).of_run run guarded
  rw [System.emitted, List.filterMap_some] at labels
  refine ⟨history, sessions, abstract, labels, held, by rw [clear_eq], rfl, ?_⟩
  intro client member written directory alone spec present iteration later
  refine ⟨restores_of_clear held present member written alone iteration later,
    fun readable inUse => refused_of_inUse held present inUse iteration later readable, ?_⟩
  intro list order cut stepped
  obtain ⟨clients, emptied⟩ := held.emptied present stepped
  rw [← clients] at member alone
  exact restores_of_clear emptied (Function.update_self ..) member written alone iteration later

/-- A client connects and subscribes to a topic. The broker is told to stop, and the topic is
restored after it; it is lost when the client was saving a second one then. -/
theorem stop_keeps_sessions_restart :
    ∃ s spec cut, (Service.system [0x2F]).Reachable (.running s) ∧
      spec.wanted topicT = some .qos1 ∧ spec.Resumes 80 ∧
      Restores ((s.clear [0x2F] (closingAt 7)).stores (ClientStore.directory [0x2F] clientA))
        (some spec) .listed 80 ∧
      s.cutSubscribe [0x2F] clientA [⟨topicU, .qos2⟩] .listed (some 0) = some cut ∧
      Restores ((cut.clear [0x2F] (closingAt 7)).stores (ClientStore.directory [0x2F] clientA))
        (some { spec with wanted := PartialMap.empty }) .listed 80 := by
  have started : GuardedRun [0x2F] _ _ := .started
  have connected := started.operate (connectsAgain 5) (connectsAgain_guarded nofun) rfl
  have subscribed := connected.operate (.subscribe clientA [⟨topicT, .qos1⟩] .listed none)
    ⟨rfl, fun store stored map read => by
      cases stored
      cases read
      exact ⟨by decide, by decide⟩⟩ rfl
  obtain ⟨history, sessions, _, _, held, _, _, kept⟩ :=
    stop_keeps_sessions subscribed.1 subscribed.2 (closingAt 7)
  obtain ⟨spec, present, same⟩ := held.wanted (ClientStore.directory [0x2F] clientA)
    [(topicT, .qos1)] rfl
  obtain ⟨keeps, _, loses⟩ := kept _ (List.mem_singleton.mpr rfl) rfl
    (fun _ other _ => List.mem_singleton.mp other) spec present .listed 80
  have readable : LogReadable (writeWall [⟨5, .clientCreated⟩, ⟨7, .disconnectByServer 95⟩]) :=
    ⟨_, List.cons_ne_nil _ _, rfl, aligned_of_short (by decide)⟩
  refine ⟨_, { spec with offline := some 95 }, _, ⟨_, subscribed.1⟩, same topicT,
    ⟨95, rfl, by decide⟩, keeps fun files isFiles => ?_, rfl,
    loses [⟨topicU, .qos2⟩] .listed _ rfl fun files isFiles => ?_⟩
  · cases isFiles
    exact readable
  · cases isFiles
    exact readable

end Histories
end Sipusu.Connection
