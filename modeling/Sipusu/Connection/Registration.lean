import Sipusu.Connection.Handler
import Sipusu.MessageBroker.Client.RestoreAbort

/-!
# When a session can be started

What the calls of `Proxy::start_session` come to at a broker whose registry is in order
and whose files are as the broker writes them. Each returns under a condition on the
request, on the stored files and on the answers of the operating system, and aborts
otherwise.
-/

namespace Sipusu.Connection.Broker

open Sipusu.Foundation Sipusu.Protocol.V5 Sipusu.MessageBroker

/-- The accept loop runs, the registry is in order, and the files of all sessions are as the
broker writes them. -/
structure Sound (s : Broker) : Prop where
  accepting : s.accepting = true
  ascending : Clients.Ascending s.clients
  stored : ∀ {directory store}, s.stores directory = some store → Stored store

/-- No living client has the identifier. -/
def Vacant (s : Broker) (clid : ClientID) (now : Nat) : Prop :=
  ∀ client ∈ s.clients, client.clid = clid → client.isAlive now = false

/-- No file is changed but a log. -/
structure Logs (s next : Broker) : Prop where
  sound : next.Sound
  clients : next.clients = s.clients
  router : next.router = s.router
  subscribed : ∀ directory, (next.stores directory).map (fun store => store.subscribed) =
    (s.stores directory).map fun store => store.subscribed

/-- The client's entry is in the registry, alive or not. -/
def Registered (s : Broker) (clid : ClientID) : Prop := ∃ client ∈ s.clients, client.clid = clid

/-- The client is in the registry afterwards, beside those that were, and nothing else is
changed. -/
structure Enrolls (s : Broker) (clid : ClientID) (next : Broker) : Prop where
  sound : next.Sound
  router : next.router = s.router
  stores : next.stores = s.stores
  registered : ∀ other, next.Registered other ↔ other = clid ∨ s.Registered other

section Registry

variable {s : Broker} {clid : ClientID} {now : Nat}

/-- The first check of `start_session` finds the living clients. -/
theorem isStillAlive_eq {ε : Type} (sound : s.Sound) :
    ∃ answer, (isStillAlive clid now : Action Broker ε (Option Bool)) s = (.ok answer, s) ∧
      (answer = some true ↔ ¬ s.Vacant clid now) := by
  refine ⟨_, rfl, ?_⟩
  obtain ⟨found, missing⟩ := Clients.searchMutClient_spec sound.ascending clid fun client =>
    (client.isAlive now, client)
  by_cases present : ∃ client ∈ s.clients, client.clid.id = clid.id
  · obtain ⟨client, member, same⟩ := present
    obtain ⟨idx, _, answer⟩ := found client member same
    rw [answer, Option.map_some, Option.some.injEq]
    constructor
    · intro alive vacant
      rw [vacant client member (ClientID.ext same)] at alive
      cases alive
    · intro occupied
      by_contra dead
      refine occupied fun other otherMember otherClid => ?_
      have isClient : other = client := sound.ascending.eq_of_id otherMember member
        ((congrArg ClientID.id otherClid).trans same.symm)
      rw [isClient]
      exact eq_false_of_ne_true dead
  · have absent : ∀ client ∈ s.clients, client.clid.id ≠ clid.id :=
      fun client member same => present ⟨client, member, same⟩
    rw [missing absent]
    refine iff_of_false nofun (not_not.mpr fun client member same => ?_)
    exact absurd (congrArg ClientID.id same) (absent client member)

/-- A client whose identifier is vacant is registered, and can be looked up. -/
theorem insertClient_of_vacant {client : Client} (sound : s.Sound)
    (vacant : s.Vacant client.clid now) :
    ∃ next, insertClient client now s = (.ok (), next) ∧ s.Enrolls client.clid next ∧
      Clients.getClient next.clients client.clid = some client := by
  have inserted := Clients.insert_inserted sound.ascending client now
  have accepted : (Clients.insert s.clients client now).1 = .ok () := by
    rcases inserted.answered with refused | accepted
    · obtain ⟨other, member, same, alive⟩ := inserted.refused_iff.mp refused
      rw [vacant other member (ClientID.ext same)] at alive
      cases alive
    · exact accepted
  have ascending := inserted.ascending sound.ascending
  have members := inserted.members accepted
  rcases result : Clients.insert s.clients client now with ⟨outcome, clients⟩
  rw [result] at accepted ascending members
  obtain rfl : outcome = .ok () := accepted
  have own : client ∈ clients := (members client).mpr (.inl rfl)
  refine ⟨{ s with clients }, by rw [insertClient, result],
    ⟨⟨sound.accepting, ascending, sound.stored⟩, rfl, rfl, fun other => ⟨?_, ?_⟩⟩,
    (Clients.getClient_eq_some ascending).mpr ⟨own, rfl⟩⟩
  · rintro ⟨holder, member, rfl⟩
    rcases (members holder).mp member with rfl | ⟨kept, _⟩
    · exact .inl rfl
    · exact .inr ⟨holder, kept, rfl⟩
  · rintro (rfl | ⟨holder, member, rfl⟩)
    · exact ⟨client, own, rfl⟩
    · by_cases same : holder.clid.id = client.clid.id
      · exact ⟨client, own, (ClientID.ext same).symm⟩
      · exact ⟨holder, (members holder).mpr (.inr ⟨member, same⟩), rfl⟩

/-- So is the one that `register` is given. -/
theorem register_of_vacant {client : Client} (sound : s.Sound) (vacant : s.Vacant client.clid now) :
    ∃ next, register client now s = (.ok (), next) ∧ s.Enrolls client.clid next := by
  obtain ⟨next, inserted, enrolls, found⟩ := insertClient_of_vacant sound vacant
  refine ⟨next, ?_, enrolls⟩
  rw [register, Action.bind_of_ok inserted]
  exact Action.bind_of_ok (show getClient client.clid _ = (.ok (some client), _) by
    rw [getClient, Action.ask_apply, found])

theorem register_returns {client : Client} (sound : s.Sound)
    (vacant : s.Vacant client.clid now) :
    Action.Returns True (fun _ next => next.Sound) (register client now) s := by
  obtain ⟨next, registered, enrolls⟩ := register_of_vacant sound vacant
  exact .of_ok registered enrolls.sound

end Registry

section NewSession

variable {currentDir : Bytes} {s : Broker} {conid : ConnectionID} {srvVar : ServerVariable}
  {answers : Answers} {now : Nat}

theorem Sound.setStore {store : Option SessionStore} (sound : s.Sound) (clid : ClientID)
    (isStored : ∀ files, store = some files → Stored files) :
    (s.setStore currentDir clid store).Sound := by
  refine ⟨sound.accepting, sound.ascending, fun {directory files} found => ?_⟩
  rw [setStore_stores] at found
  by_cases same : directory = ClientStore.directory currentDir clid
  · rw [same, Function.update_self] at found
    exact isStored files found
  · rw [Function.update_of_ne same] at found
    exact sound.stored found

/-- The files of a session that `ClientStore::new` makes. -/
theorem stored_new {mdata : MetaData} (noProperties : mdata.userProperties = [])
    (bounded : mdata.keepAliveInterval.toNat ≤ 43690) : Stored (SessionStore.new mdata now) where
  log := ⟨[⟨UInt64.ofNat now, .clientCreated⟩], List.cons_ne_nil _ _, rfl⟩
  settings := ⟨mdata, noProperties, bounded, rfl⟩

theorem newClient_returns {ε : Type} (sound : s.Sound) (limit : Limiter) :
    Action.Returns (srvVar.keepAlive.toNat ≤ 43690 ∧ answers.created = .made)
      (fun client next => next.Sound ∧ next.clients = s.clients ∧ client.clid = srvVar.clid)
      (newClient currentDir conid srvVar limit answers now : Action Broker ε Client) s := by
  rw [newClient]
  have first : Action.Returns (srvVar.keepAlive.toNat ≤ 43690)
      (fun client after => after = s ∧ srvVar.keepAlive.toNat ≤ 43690 ∧ client.clid = srvVar.clid)
      (Action.ofOutcome (Client.new conid srvVar.clid srvVar.keepAlive srvVar.exprInterval
        srvVar.protocolLevel limit now).unwrap : Action Broker ε Client) s := by
    rw [Client.new_eq]
    refine Action.Returns.ofOutcome (fun bounded => ?_) fun large => ?_
    · rw [if_pos bounded]
      exact ⟨_, rfl, rfl, bounded, rfl⟩
    · rw [if_neg large]
      rfl
  refine first.bind fun client after ends => ?_
  obtain ⟨rfl, bounded, named⟩ := ends
  let mdata := Client.metaData srvVar.keepAlive srvVar.exprInterval srvVar.protocolLevel limit
  have second : Action.Returns (answers.created = .made)
      (fun _ next => next.Sound ∧ next.clients = after.clients)
      ((createStore currentDir srvVar.clid mdata answers now).unwrap : Action Broker ε Unit)
      after := by
    refine Action.Returns.of_unwrap (fun made => ?_) fun failed value => ?_
    · refine ⟨(), after.setStore currentDir srvVar.clid (some (SessionStore.new mdata now)),
        by rw [createStore, made], ?_, rfl⟩
      refine sound.setStore srvVar.clid fun files isNew => ?_
      cases isNew
      exact stored_new rfl (Client.max_minKeepAlive_le bounded)
    · rw [createStore]
      cases created : answers.created with
      | made => exact absurd created failed
      | failed error left => exact nofun
  refine (second.bind fun _ next ends => ?_).congr (iff_of_eq (and_true _))
  exact .pure ⟨ends.1, ends.2, named⟩

/-- The response is sent when it has an encoding and the socket takes it. -/
theorem connack_returns {ε : Type} {response : ConnackPacket} {post : Unit → Broker → Prop}
    (encodes : ∃ bytes, response.encode = .ok bytes) (holds : post () s) :
    Action.Returns (answers.written = .ok ()) post
      (Action.ofOutcome (connack response answers).unwrap : Action Broker ε Unit) s := by
  obtain ⟨bytes, encoded⟩ := encodes
  have sent : connack response answers = Outcome.ofExcept answers.written := by
    rw [connack, encoded]
    rfl
  rw [sent]
  refine Action.Returns.ofOutcome (fun written => ?_) fun failed => ?_
  · rw [written]
    exact ⟨(), rfl, holds⟩
  · cases written : answers.written with
    | ok value => exact absurd written failed
    | error error => rfl

theorem newSession_returns {response : ConnackPacket}
    (encodes : ∃ bytes, response.encode = .ok bytes) (sound : s.Sound)
    (vacant : s.Vacant srvVar.clid now) :
    Action.Returns ((srvVar.keepAlive.toNat ≤ 43690 ∧ answers.created = .made) ∧
        answers.written = .ok ())
      (fun _ next => next.Sound) (newSession currentDir response conid srvVar answers now) s := by
  rw [newSession]
  refine (newClient_returns sound (limitOf response)).bind fun client after ends => ?_
  obtain ⟨soundAfter, clients, named⟩ := ends
  have vacantAfter : after.Vacant client.clid now := by
    rw [named, Vacant, clients]
    exact vacant
  refine ((register_returns soundAfter vacantAfter).unwrap.bind fun _ next sound => ?_).congr
    (iff_of_eq (true_and _))
  exact connack_returns encodes sound

end NewSession

section Restoring

variable {currentDir : Bytes} {s : Broker} {conid : ConnectionID} {clid : ClientID}
  {answers : Answers} {now : Nat} {store : SessionStore}

/-- The stored files of a session are read without an abort. -/
def Readable (currentDir : Bytes) (s : Broker) (clid : ClientID) (answers : Answers) (now : Nat) :
    Prop :=
  answers.logOpened = .ok () → ∀ store, s.storeOf currentDir clid = some store →
    LogReadable store.session ∧ (answers.filesOpened = .ok () → Resumable store.session now →
      ¬ BlankRecord store.subscribed)

/-- There are stored files, and all of them are read. -/
def Resumes (currentDir : Bytes) (s : Broker) (clid : ClientID) (answers : Answers) (now : Nat) :
    Prop :=
  ∃ store, s.storeOf currentDir clid = some store ∧ answers.logOpened = .ok () ∧
    answers.filesOpened = .ok () ∧ Resumable store.session now ∧ WholeRecords store.subscribed

theorem restoreFiles_eq_panic_iff (stored : Stored store) :
    restoreFiles conid clid (some store) answers now = .panic ↔
      ¬ (LogReadable store.session ∧ (answers.filesOpened = .ok () →
        Resumable store.session now → ¬ BlankRecord store.subscribed)) := by
  cases opened : answers.filesOpened with
  | ok value =>
    simp only [restoreFiles, opened, stored.restore_eq_panic_iff]
    tauto
  | error error =>
    obtain ⟨wall, nonempty, isLog⟩ := stored.log
    have aborts := restoreSession_eq_panic_iff nonempty now
    rw [← isLog] at aborts
    simp only [restoreFiles, opened, reduceCtorEq, false_implies, and_true]
    rw [← aborts]
    cases restoreSession store.session now <;> simp

theorem restoreFiles_eq_ok_iff (stored : Stored store) :
    (∃ result, restoreFiles conid clid (some store) answers now = .ok result) ↔
      answers.filesOpened = .ok () ∧ Resumable store.session now ∧
        WholeRecords store.subscribed := by
  cases opened : answers.filesOpened with
  | ok value => simp only [restoreFiles, opened, stored.restore_eq_ok_iff, true_and]
  | error error =>
    simp only [restoreFiles, opened, reduceCtorEq, false_and, iff_false]
    cases restoreSession store.session now <;> simp

/-- Files that are all read are read without an abort. -/
theorem readable_of_resumes (sound : s.Sound) (resumes : s.Resumes currentDir clid answers now) :
    s.Readable currentDir clid answers now := by
  obtain ⟨store, present, _, opened, resumable, whole⟩ := resumes
  intro _ other again
  rw [present, Option.some.injEq] at again
  subst again
  have stored : Stored store := sound.stored present
  obtain ⟨result, restored⟩ := (@restoreFiles_eq_ok_iff ⟨0⟩ clid answers now store stored).mpr
    ⟨opened, resumable, whole⟩
  by_contra unreadable
  have aborts := (@restoreFiles_eq_panic_iff ⟨0⟩ clid answers now store stored).mpr unreadable
  rw [restored] at aborts
  cases aborts

/-- The client that is restored keeps its identifier. -/
theorem restoreFiles_clid {files : Option SessionStore} {restored : Client × SessionStore}
    (went : restoreFiles conid clid files answers now = .ok restored) : restored.1.clid = clid := by
  unfold restoreFiles at went
  split at went
  · obtain ⟨_, _, failed⟩ := Outcome.bind_eq_ok.mp went
    cases failed
  · exact restore_clid went

theorem stored_afterRestore (stored : Stored store) (now : Nat) :
    Stored (store.afterRestore now) := by
  rw [SessionStore.afterRestore]
  split
  · exact stored.logSession _
  · exact stored

/-- What restoring the client comes to once the log is opened. -/
theorem restoreClient_eq (opened : answers.logOpened = .ok ()) (s : Broker) :
    restoreClient currentDir conid clid answers now s =
      ((do let restored ← restoreFiles conid clid (s.storeOf currentDir clid) answers now
           return restored.1),
        s.setStore currentDir clid
          ((s.storeOf currentDir clid).map fun store => store.afterRestore now)) := by
  rw [restoreClient, opened, Outcome.ofExcept_ok, Action.ofOutcome_ok_bind, Action.ask_bind,
    Action.modify_bind, Action.ofOutcome_bind_pure]

section Attempt

variable {ε : Type} {after : Broker}

theorem attempt_of_err {error : IoError}
    (went : restoreClient currentDir conid clid answers now s = (.err error, after)) :
    ((tryRestoreSession currentDir conid clid answers now).attempt : Action Broker ε _) s =
      (.ok (.error ⟨error, true⟩), after) := by
  rw [Action.attempt, tryRestoreSession, Action.bind_of_err (Action.mapErr_of_err went _)]

theorem attempt_of_panic
    (went : restoreClient currentDir conid clid answers now s = (.panic, after)) :
    ((tryRestoreSession currentDir conid clid answers now).attempt : Action Broker ε _) s =
      (.panic, after) :=
  Action.attempt_of_panic (Action.bind_of_abort (Action.mapErr_of_panic went _))

/-- A client that is restored is registered. -/
theorem attempt_of_ok {client : Client}
    (went : restoreClient currentDir conid clid answers now s = (.ok client, after))
    (named : client.clid = clid) (sound : after.Sound) (vacant : after.Vacant clid now) :
    ∃ next, after.Enrolls clid next ∧
      ((tryRestoreSession currentDir conid clid answers now).attempt : Action Broker ε _) s =
        (.ok (.ok ()), next) := by
  obtain ⟨next, inserted, enrolls, found⟩ := insertClient_of_vacant sound (named ▸ vacant)
  rw [named] at found enrolls
  have lookup : (getClient clid : Action Broker NotRestored _) next = (.ok (some client), next) := by
    rw [getClient, Action.ask_apply, found]
  refine ⟨next, enrolls, ?_⟩
  have whole : tryRestoreSession currentDir conid clid answers now s = (.ok (), next) := by
    rw [tryRestoreSession, Action.bind_of_ok (Action.mapErr_of_ok went _),
      Action.bind_of_ok (Action.unwrap_of_ok inserted), Action.bind_of_ok lookup]
    exact Action.bind_of_ok lookup
  rw [Action.attempt, whole]

end Attempt

/-- How an attempt to restore ends. -/
inductive Attempted (currentDir : Bytes) (s : Broker) (clid : ClientID) (answers : Answers)
    (now : Nat) {ε : Type} : Outcome ε (Except NotRestored Unit) → Broker → Prop where
  | restored {between next} (logs : s.Logs between) (enrolls : between.Enrolls clid next)
      (readable : s.Readable currentDir clid answers now)
      (resumes : s.Resumes currentDir clid answers now) :
      Attempted currentDir s clid answers now (.ok (.ok ())) next
  | refused {next error} (logs : s.Logs next) (readable : s.Readable currentDir clid answers now)
      (resumesNot : ¬ s.Resumes currentDir clid answers now) :
      Attempted currentDir s clid answers now (.ok (.error ⟨error, true⟩)) next
  | aborted {next} (logs : s.Logs next)
      (readableNot : ¬ s.Readable currentDir clid answers now) :
      Attempted currentDir s clid answers now .panic next

/-- The log that a restore reads is at most longer afterwards. -/
theorem Sound.logs_afterRestore (sound : s.Sound) :
    s.Logs (s.setStore currentDir clid
      ((s.storeOf currentDir clid).map fun store => store.afterRestore now)) := by
  refine ⟨sound.setStore clid fun files isAfter => ?_, rfl, rfl, fun directory => ?_⟩
  · obtain ⟨before, present, rfl⟩ := Option.map_eq_some_iff.mp isAfter
    exact stored_afterRestore (sound.stored present) now
  · rw [setStore_stores]
    by_cases own : directory = ClientStore.directory currentDir clid
    · rw [own, Function.update_self, storeOf, Option.map_map]
      congr 1
      funext store
      rw [Function.comp_apply, SessionStore.afterRestore]
      split <;> rfl
    · rw [Function.update_of_ne own]

section Spec

variable {ε : Type}

/-- An attempt on stored files whose log is opened. -/
theorem tryRestoreSession_ends_of_stored (sound : s.Sound) (vacant : s.Vacant clid now)
    (opened : answers.logOpened = .ok ()) (present : s.storeOf currentDir clid = some store) :
    Action.Ends (Attempted currentDir s clid answers now)
      ((tryRestoreSession currentDir conid clid answers now).attempt : Action Broker ε _) s := by
  have stored : Stored store := sound.stored present
  have logs := @Sound.logs_afterRestore currentDir s clid now sound
  have readable : s.Readable currentDir clid answers now ↔
      restoreFiles conid clid (some store) answers now ≠ .panic := by
    rw [ne_eq, restoreFiles_eq_panic_iff stored, not_not, Readable, present, opened]
    simp
  have resumes : s.Resumes currentDir clid answers now ↔
      ∃ result, restoreFiles conid clid (some store) answers now = .ok result := by
    rw [restoreFiles_eq_ok_iff stored, Resumes, present, opened]
    simp
  have went := @restoreClient_eq currentDir conid clid answers now opened s
  rw [present] at went logs
  cases outcome : restoreFiles conid clid (some store) answers now with
  | ok result =>
    rw [outcome] at went readable resumes
    obtain ⟨next, enrolls, whole⟩ := @attempt_of_ok currentDir s conid clid answers now ε _ _ went
      (restoreFiles_clid outcome) logs.sound vacant
    rw [Action.Ends, whole]
    exact .restored logs enrolls (readable.mpr (Outcome.ok_ne_panic _)) (resumes.mpr ⟨result, rfl⟩)
  | err error =>
    rw [outcome] at went readable resumes
    rw [Action.Ends, attempt_of_err went]
    refine .refused logs (readable.mpr (Outcome.err_ne_panic _)) fun again => ?_
    obtain ⟨result, impossible⟩ := resumes.mp again
    exact Outcome.err_ne_ok _ _ impossible
  | panic =>
    rw [outcome] at went readable
    rw [Action.Ends, attempt_of_panic went]
    exact .aborted logs fun isReadable => readable.mp isReadable rfl

theorem tryRestoreSession_ends (sound : s.Sound) (vacant : s.Vacant clid now) :
    Action.Ends (Attempted currentDir s clid answers now)
      ((tryRestoreSession currentDir conid clid answers now).attempt : Action Broker ε _) s := by
  cases opened : answers.logOpened with
  | error error =>
    have went : restoreClient currentDir conid clid answers now s = (.err error, s) := by
      rw [restoreClient, opened]
      rfl
    rw [Action.Ends, attempt_of_err went]
    refine .refused ⟨sound, rfl, rfl, fun _ => rfl⟩ ?_ ?_
    · rintro again
      rw [opened] at again
      cases again
    · rintro ⟨_, _, again, _⟩
      rw [opened] at again
      cases again
  | ok value =>
    cases present : s.storeOf currentDir clid with
    | none =>
      have missing : ∃ error, restoreFiles conid clid none answers now = .err error := by
        unfold restoreFiles
        cases answers.filesOpened <;> exact ⟨_, rfl⟩
      obtain ⟨error, isMissing⟩ := missing
      have went := @restoreClient_eq currentDir conid clid answers now opened s
      have logs := @Sound.logs_afterRestore currentDir s clid now sound
      rw [present, isMissing] at went
      rw [present] at logs
      rw [Action.Ends, attempt_of_err went]
      refine .refused logs ?_ ?_
      · rintro _ store again
        rw [present] at again
        cases again
      · rintro ⟨_, again, _⟩
        rw [present] at again
        cases again
    | some store => exact tryRestoreSession_ends_of_stored sound vacant opened present

end Spec

end Restoring

section Starting

variable {currentDir : Bytes} {s : Broker} {conid : ConnectionID} {srvVar : ServerVariable}
  {answers : Answers} {now : Nat} {response : ConnackPacket}

/-- A session can be started: no living client has the identifier, stored files that are
tried can be read, a session that is not restored can be made, and the response can be
written. -/
structure Startable (currentDir : Bytes) (s : Broker) (srvVar : ServerVariable)
    (answers : Answers) (now : Nat) : Prop where
  vacant : s.Vacant srvVar.clid now
  readable : srvVar.cleanStart = false → s.Readable currentDir srvVar.clid answers now
  fresh : ¬ (srvVar.cleanStart = false ∧ s.Resumes currentDir srvVar.clid answers now) →
    srvVar.keepAlive.toNat ≤ 43690 ∧ answers.created = .made
  answered : answers.written = .ok ()

section Vacant

variable (sound : s.Sound) (vacant : s.Vacant srvVar.clid now)
include sound vacant

theorem startSession_of_clean (clean : srvVar.cleanStart = true) :
    startSession currentDir response conid srvVar answers now s =
      newSession currentDir response conid srvVar answers now s := by
  obtain ⟨answer, asked, isAlive⟩ := @isStillAlive_eq s srvVar.clid now String sound
  rw [startSession, Action.bind_of_ok asked, if_neg fun alive => isAlive.mp alive vacant, if_pos clean]

/-- Without a clean start, the session goes on by what the attempt to restore comes to. -/
theorem startSession_of_unclean (unclean : srvVar.cleanStart = false) :
    ∃ next : Except NotRestored Unit → Action Broker String Unit,
      startSession currentDir response conid srvVar answers now s =
        ((tryRestoreSession currentDir conid srvVar.clid answers now).attempt >>= next) s ∧
      next (.ok ()) =
        Action.ofOutcome (connack { response with sessionPresent := true } answers).unwrap ∧
      ∀ error, next (.error ⟨error, true⟩) =
        newSession currentDir response conid srvVar answers now := by
  obtain ⟨answer, asked, isAlive⟩ := @isStillAlive_eq s srvVar.clid now String sound
  rw [startSession, Action.bind_of_ok asked, if_neg fun alive => isAlive.mp alive vacant,
    if_neg (Bool.eq_false_iff.mp unclean)]
  exact ⟨_, rfl, rfl, fun _ => rfl⟩

end Vacant

/-- Unless the request asks for a clean start, stored files are tried first. -/
theorem startSession_returns_of_unclean (sound : s.Sound) (vacant : s.Vacant srvVar.clid now)
    (unclean : srvVar.cleanStart = false)
    (encodes : ∀ sessionPresent, ∃ bytes,
      ConnackPacket.encode { response with sessionPresent } = .ok bytes) :
    Action.Returns (Startable currentDir s srvVar answers now) (fun _ next => next.Sound)
      (startSession currentDir response conid srvVar answers now) s := by
  obtain ⟨next, began, onOk, onError⟩ :=
    @startSession_of_unclean currentDir s conid srvVar answers now response sound vacant unclean
  have attempt := @tryRestoreSession_ends currentDir s conid srvVar.clid answers now String
    sound vacant
  rw [Action.Ends] at attempt
  rcases went : ((tryRestoreSession currentDir conid srvVar.clid answers now).attempt :
    Action Broker String _) s with ⟨outcome, after⟩
  rw [went] at attempt
  cases attempt with
  | restored logs enrolls readable resumes =>
    rw [Action.bind_of_ok went, onOk] at began
    have sends : Action.Returns (answers.written = .ok ()) (fun _ next => next.Sound)
        (Action.ofOutcome (connack { response with sessionPresent := true } answers).unwrap :
          Action Broker String Unit) after := connack_returns (encodes true) enrolls.sound
    refine (sends.of_eq began).congr ⟨fun written => ?_, Startable.answered⟩
    exact ⟨vacant, fun _ => readable, fun unrestored => absurd ⟨unclean, resumes⟩ unrestored,
      written⟩
  | refused logs readable resumesNot =>
    rw [Action.bind_of_ok went, onError] at began
    have vacantAfter : after.Vacant srvVar.clid now := by
      rw [Vacant, logs.clients]
      exact vacant
    have makes := @newSession_returns currentDir after conid srvVar answers now response
      (encodes response.sessionPresent) logs.sound vacantAfter
    refine (makes.of_eq began).congr ⟨fun answered => ?_, fun startable => ?_⟩
    · exact ⟨vacant, fun _ => readable, fun _ => answered.1, answered.2⟩
    · exact ⟨startable.fresh fun restored => resumesNot restored.2, startable.answered⟩
  | aborted logs readableNot =>
    rw [Action.bind_of_abort went] at began
    refine Action.Returns.congr (Action.Returns.of_panic ?_)
      (iff_of_false id fun startable => readableNot (startable.readable unclean))
    rw [began]

/-- A session is started when it can be, and an unwrapped attempt aborts otherwise. -/
theorem startSession_returns {ε : Type} (sound : s.Sound)
    (encodes : ∀ sessionPresent, ∃ bytes,
      ConnackPacket.encode { response with sessionPresent } = .ok bytes) :
    Action.Returns (Startable currentDir s srvVar answers now) (fun _ next => next.Sound)
      ((startSession currentDir response conid srvVar answers now).unwrap : Action Broker ε Unit)
      s := by
  by_cases vacant : s.Vacant srvVar.clid now
  · refine Action.Returns.unwrap ?_
    cases clean : srvVar.cleanStart with
    | true =>
      have makes := @newSession_returns currentDir s conid srvVar answers now response
        (encodes response.sessionPresent) sound vacant
      refine (makes.of_eq (startSession_of_clean sound vacant clean)).congr
        ⟨fun ⟨made, written⟩ => ?_, fun startable => ?_⟩
      · refine ⟨vacant, fun tried => ?_, fun _ => made, written⟩
        exact absurd (clean.symm.trans tried) nofun
      · refine ⟨startable.fresh fun tried => ?_, startable.answered⟩
        exact absurd (clean.symm.trans tried.1) nofun
    | false => exact startSession_returns_of_unclean sound vacant clean encodes
  · obtain ⟨answer, asked, isAlive⟩ := @isStillAlive_eq s srvVar.clid now String sound
    refine Action.Returns.congr (Action.Returns.of_panic ?_)
      (iff_of_false id fun startable => vacant startable.vacant)
    rw [Action.unwrap, startSession, Action.bind_of_ok asked, if_pos (isAlive.mpr vacant)]
    rfl

end Starting

end Sipusu.Connection.Broker
