import Sipusu.Connection.Survival
import Sipusu.MessageBroker.Asked

/-!
# The router against the subscription files

The router and a client's subscription file are updated by different rules: a topic
keeps its first level in the router and its last one in the file, a new session
empties the file only, and a restored session leaves the router as it is. The file is the
one that the client's identifier leads to, so that two clients may share one. Router and files
agree on a run exactly as long as no step makes any of these differences.
-/

namespace Sipusu.Connection.Broker

open Sipusu.Foundation Sipusu.Ds Sipusu.Protocol.V5 Sipusu.MessageBroker

variable (currentDir : Bytes)

/-- The subscriptions that a client's file reads as. -/
def stored (s : Broker) (clid : ClientID) : Option Subscriptions :=
  (s.storeOf currentDir clid).bind fun store => (getSubscribed store.subscribed).toOption

/-- A client's file holds what is routed to it. -/
def Agrees (s : Broker) (clid : ClientID) : Prop :=
  ∃ map, s.stored currentDir clid = some map ∧
    ∀ topic level, Assoc.get topic map = some level ↔
      s.router.route topic = some { clid, maxQos := level }

/-- Every registered client's file holds what is routed to it. -/
def Agree (s : Broker) : Prop := ∀ clid, s.Registered clid → s.Agrees currentDir clid

/-- What happens at the broker, over its restarts. -/
inductive Event where
  | operate (operation : Operation)
  /-- The broker stops and starts again on the same files. -/
  | restart

/-- One event. -/
def happen (s : Broker) : Event → Option Broker
  | .operate operation => s.step currentDir operation
  | .restart => some (new s.stores)

/-- What is given of events: the operating system opens, makes and writes all files, the tasks
that subscribe and log are those of registered clients, and no two clients use one topic:
`owner` names the client that may subscribe to it. -/
def Given (owner : Str → ClientID) (s : Broker) : Event → Prop
  | .operate (.connect _ answers _) => answers.Work
  | .operate (.subscribe clid list _ torn) =>
      torn = none ∧ s.Registered clid ∧ ∀ sub ∈ list, owner sub.topic = clid
  | .operate (.log clid _) => s.Registered clid
  | .operate (.session _ _) | .restart => True

/-- All histories of a broker that starts on the files that earlier ones left. -/
def histories (owner : Str → ClientID) : System Broker Event where
  Initial s := ∃ stores, s = new stores ∧
    ∀ directory store, stores directory = some store → Stored store
  Step s event next := s.Given owner event ∧ s.happen currentDir event = some next

/-- A new session is made for the request. -/
structure Makes (s : Broker) (srvVar : ServerVariable) (answers : Answers) (now : Nat) : Prop where
  vacant : s.Vacant srvVar.clid now
  bounded : srvVar.keepAlive.toNat ≤ 43690
  fresh : srvVar.cleanStart = false →
    s.Readable currentDir srvVar.clid answers now ∧ ¬ s.Resumes currentDir srvVar.clid answers now

/-- The stored session is restored for the request. -/
structure Takes (s : Broker) (srvVar : ServerVariable) (answers : Answers) (now : Nat) : Prop where
  vacant : s.Vacant srvVar.clid now
  unclean : srvVar.cleanStart = false
  resumes : s.Resumes currentDir srvVar.clid answers now

/-- The client's file can hold the topics that a request leaves, and each topic is asked for last
with the level that it is or becomes bound with. -/
def Follows (s : Broker) (clid : ClientID) (list : List Subscribe) : Prop :=
  (∀ map, s.stored currentDir clid = some map → Storable (bindTopics map list)) ∧
    ∀ topic ∈ list.map Subscribe.topic,
      ((s.router.route topic).map SubscriberInstance.maxQos).or (asked topic list).head? =
        (asked topic list).getLast?

/-- The condition on events. A session is made new in a directory whose clients have nothing
routed to them, and is restored while the registry still has the client, or with an empty file.
The file follows a SUBSCRIBE, and no other client of the registry has the directory. -/
def InStep (s : Broker) : Event → Prop
  | .operate (.connect (.received octets _) answers now) =>
      ∀ packet rest, ConnectPacket.decode octets = .ok (packet, rest) →
        let srvVar := (collect packet .default).1
        (s.Makes currentDir srvVar answers now →
          ∀ topic subscriber, s.router.route topic = some subscriber →
            ClientStore.directory currentDir subscriber.clid ≠
              ClientStore.directory currentDir srvVar.clid) ∧
        (s.Takes currentDir srvVar answers now →
          s.Registered srvVar.clid ∨ s.stored currentDir srvVar.clid = some [])
  | .operate (.subscribe clid list _ _) =>
      s.Follows currentDir clid list ∧
      (list ≠ [] → ∀ other, s.Registered other → other ≠ clid →
        ClientStore.directory currentDir other ≠ ClientStore.directory currentDir clid)
  | _ => True

section Sessions

variable {currentDir : Bytes} {s : Broker} {conid : ConnectionID} {srvVar : ServerVariable}
  {answers : Answers} {now : Nat} {response : ConnackPacket}

/-- What `Proxy::start_session` leaves, whatever way it ends. -/
inductive Leaves (currentDir : Bytes) (s : Broker) (srvVar : ServerVariable) (answers : Answers)
    (now : Nat) : Broker → Prop where
  | made {between next mdata} (makes : s.Makes currentDir srvVar answers now)
      (logs : s.Logs between)
      (enrolls : (between.setStore currentDir srvVar.clid
        (some (SessionStore.new mdata now))).Enrolls srvVar.clid next) :
      Leaves currentDir s srvVar answers now next
  | taken {between next} (takes : s.Takes currentDir srvVar answers now)
      (logs : s.Logs between) (enrolls : between.Enrolls srvVar.clid next) :
      Leaves currentDir s srvVar answers now next
  | neither {next} (makesNot : ¬ s.Makes currentDir srvVar answers now)
      (takesNot : ¬ s.Takes currentDir srvVar answers now) (logs : s.Logs next) :
      Leaves currentDir s srvVar answers now next

theorem Sound.logs_self (sound : s.Sound) : s.Logs s := ⟨sound, rfl, rfl, fun _ => rfl⟩

/-- A new session is made and registered, unless its deadline overflows. -/
theorem newSession_leaves (sound : s.Sound) (vacant : s.Vacant srvVar.clid now)
    (made : answers.created = .made) :
    if srvVar.keepAlive.toNat ≤ 43690 then
      ∃ mdata, (s.setStore currentDir srvVar.clid (some (SessionStore.new mdata now))).Enrolls
        srvVar.clid (newSession currentDir response conid srvVar answers now s).2
    else (newSession currentDir response conid srvVar answers now s).2 = s := by
  split
  · rename_i bounded
    let mdata := Client.metaData srvVar.keepAlive srvVar.exprInterval srvVar.protocolLevel
      (limitOf response)
    have soundAfter : (s.setStore currentDir srvVar.clid
        (some (SessionStore.new mdata now))).Sound := by
      refine sound.setStore srvVar.clid fun files isNew => ?_
      cases isNew
      exact stored_new rfl (Client.max_minKeepAlive_le bounded)
    obtain ⟨client, isNew⟩ : ∃ client, Client.new conid srvVar.clid srvVar.keepAlive
        srvVar.exprInterval srvVar.protocolLevel (limitOf response) now = .ok client :=
      ⟨_, by rw [Client.new_eq, if_pos bounded]⟩
    have named : client.clid = srvVar.clid := by rw [(Client.new_eq_ok isNew).2]
    have created : (newClient currentDir conid srvVar (limitOf response) answers now :
        Action Broker String Client) s =
          (.ok client, s.setStore currentDir srvVar.clid (some (SessionStore.new mdata now))) := by
      have stored : createStore currentDir srvVar.clid mdata answers now s =
          (.ok (), s.setStore currentDir srvVar.clid (some (SessionStore.new mdata now))) := by
        rw [createStore, made]
      rw [newClient, isNew]
      exact Action.bind_of_ok (Action.unwrap_of_ok stored)
    obtain ⟨next, registered, enrolls⟩ := register_of_vacant soundAfter
      (show (s.setStore currentDir srvVar.clid _).Vacant client.clid now from named ▸ vacant)
    rw [newSession, Action.bind_of_ok created, Action.bind_of_ok (Action.unwrap_of_ok registered)]
    exact ⟨mdata, named ▸ enrolls⟩
  · rename_i large
    have aborted : (newClient currentDir conid srvVar (limitOf response) answers now :
        Action Broker String Client) s = (.panic, s) := by
      rw [newClient, Client.new_eq, if_neg large]
      rfl
    rw [newSession, Action.bind_of_abort aborted]

/-- What is left when a new session is made behind an attempt to restore the stored one. -/
theorem leaves_of_newSession {between : Broker} (logs : s.Logs between)
    (vacant : s.Vacant srvVar.clid now) (made : answers.created = .made)
    (fresh : srvVar.cleanStart = false →
      s.Readable currentDir srvVar.clid answers now ∧
        ¬ s.Resumes currentDir srvVar.clid answers now) :
    s.Leaves currentDir srvVar answers now
      (newSession currentDir response conid srvVar answers now between).2 := by
  have vacantBetween : between.Vacant srvVar.clid now := by
    rw [Vacant, logs.clients]
    exact vacant
  have leaves := @newSession_leaves currentDir between conid srvVar answers now response
    logs.sound vacantBetween made
  split at leaves
  · obtain ⟨mdata, enrolls⟩ := leaves
    exact .made ⟨vacant, ‹_›, fresh⟩ logs enrolls
  · rename_i large
    rw [leaves]
    exact .neither (fun makes => large makes.bounded)
      (fun takes => (fresh takes.unclean).2 takes.resumes) logs

theorem startSession_leaves (sound : s.Sound) (work : answers.Work) :
    s.Leaves currentDir srvVar answers now
      (startSession currentDir response conid srvVar answers now s).2 := by
  by_cases vacant : s.Vacant srvVar.clid now
  · cases clean : srvVar.cleanStart with
    | true =>
      rw [startSession_of_clean sound vacant clean]
      exact leaves_of_newSession sound.logs_self vacant work.created fun unclean =>
        absurd (clean.symm.trans unclean) nofun
    | false =>
      obtain ⟨next, began, onOk, onError⟩ :=
        @startSession_of_unclean currentDir s conid srvVar answers now response sound vacant clean
      have attempt := @tryRestoreSession_ends currentDir s conid srvVar.clid answers now String
        sound vacant
      rw [Action.Ends] at attempt
      rcases went : ((tryRestoreSession currentDir conid srvVar.clid answers now).attempt :
        Action Broker String _) s with ⟨outcome, after⟩
      rw [went] at attempt
      cases attempt with
      | restored logs enrolls readable resumes =>
        rw [began, Action.bind_of_ok went, onOk]
        exact .taken ⟨vacant, clean, resumes⟩ logs enrolls
      | refused logs readable resumesNot =>
        rw [began, Action.bind_of_ok went, onError]
        exact leaves_of_newSession logs vacant work.created fun _ => ⟨readable, resumesNot⟩
      | aborted logs readableNot =>
        rw [began, Action.bind_of_abort went]
        refine .neither (fun makes => readableNot (makes.fresh clean).1) (fun takes => ?_) logs
        exact readableNot (readable_of_resumes sound takes.resumes)
  · obtain ⟨answer, asked, isAlive⟩ := @isStillAlive_eq s srvVar.clid now String sound
    rw [startSession, Action.bind_of_ok asked, if_pos (isAlive.mpr vacant)]
    exact .neither (fun makes => vacant makes.vacant) (fun takes => vacant takes.vacant)
      sound.logs_self

end Sessions

section Files

variable {currentDir : Bytes} {s next : Broker} {clid : ClientID}

/-- What a client's file reads as, by the file alone. -/
theorem stored_eq (s : Broker) (clid : ClientID) :
    s.stored currentDir clid =
      ((s.stores (ClientStore.directory currentDir clid)).map fun store => store.subscribed).bind
        fun file => (getSubscribed file).toOption := by
  rw [stored, storeOf]
  cases s.stores (ClientStore.directory currentDir clid) <;> rfl

theorem stored_setStore_of_eq {other : ClientID} (store : SessionStore)
    (same : ClientStore.directory currentDir other = ClientStore.directory currentDir clid) :
    (s.setStore currentDir clid (some store)).stored currentDir other =
      (getSubscribed store.subscribed).toOption := by
  rw [stored, storeOf, setStore_stores, same, Function.update_self, Option.bind_some]

theorem stored_setStore_of_ne {other : ClientID} (store : Option SessionStore)
    (different : ClientStore.directory currentDir other ≠ ClientStore.directory currentDir clid) :
    (s.setStore currentDir clid store).stored currentDir other = s.stored currentDir other := by
  rw [stored, storeOf, setStore_stores, Function.update_of_ne different]
  rfl

theorem Logs.stored (logs : s.Logs next) (clid : ClientID) :
    next.stored currentDir clid = s.stored currentDir clid := by
  rw [stored_eq, stored_eq, logs.subscribed]

/-- A client agrees as before when its file and its routes are as before. -/
theorem Agrees.frame (agrees : s.Agrees currentDir clid)
    (sameFile : next.stored currentDir clid = s.stored currentDir clid)
    (sameRoutes : ∀ topic level, next.router.route topic = some ⟨clid, level⟩ ↔
      s.router.route topic = some ⟨clid, level⟩) : next.Agrees currentDir clid := by
  obtain ⟨map, read, same⟩ := agrees
  exact ⟨map, sameFile.trans read, fun topic level =>
    (same topic level).trans (sameRoutes topic level).symm⟩

/-- With an empty file a client agrees when nothing is routed to it. -/
theorem agrees_iff_of_empty (empty : s.stored currentDir clid = some []) :
    s.Agrees currentDir clid ↔
      ∀ topic subscriber, s.router.route topic = some subscriber → subscriber.clid ≠ clid := by
  constructor
  · rintro ⟨map, read, same⟩ topic ⟨holder, level⟩ routed rfl
    obtain rfl : [] = map := by simpa [empty] using read
    exact absurd ((same topic level).mpr routed) (by simp)
  · intro unrouted
    refine ⟨[], empty, fun topic level => iff_of_false (by simp) fun routed => ?_⟩
    exact unrouted topic _ routed rfl

/-- A client that nothing is routed to agrees when its file is empty. -/
theorem agrees_iff_of_unrouted
    (unrouted : ∀ topic level, s.router.route topic ≠ some { clid, maxQos := level }) :
    s.Agrees currentDir clid ↔ s.stored currentDir clid = some [] := by
  constructor
  · rintro ⟨map, read, same⟩
    cases map with
    | nil => exact read
    | cons entry rest =>
      have first : Assoc.get entry.1 (entry :: rest) = some entry.2 := by simp [Assoc.get]
      exact absurd ((same _ _).mp first) (unrouted _ _)
  · intro empty
    rw [agrees_iff_of_empty empty]
    rintro topic ⟨holder, level⟩ routed rfl
    exact unrouted topic level routed

end Files

/-- What a connection changes: the registry gets the client or does not, and the subscription
file of its directory is emptied or not. -/
structure Connects (currentDir : Bytes) (s : Broker) (clid : ClientID) (emptied enrolled : Prop)
    (next : Broker) : Prop where
  ascending : Clients.Ascending next.clients
  files : ∀ {directory store}, next.stores directory = some store → Stored store
  router : next.router = s.router
  registered : ∀ other, next.Registered other ↔ (enrolled ∧ other = clid) ∨ s.Registered other
  empty : emptied → ∀ other,
    ClientStore.directory currentDir other = ClientStore.directory currentDir clid →
      next.stored currentDir other = some []
  kept : ∀ other, (emptied →
    ClientStore.directory currentDir other ≠ ClientStore.directory currentDir clid) →
      next.stored currentDir other = s.stored currentDir other

section Connections

variable {currentDir : Bytes} {s next : Broker} {srvVar : ServerVariable} {answers : Answers}
  {now : Nat}

/-- A connection that changes nothing but logs. -/
theorem Logs.connects (logs : s.Logs next) {clid : ClientID} {emptied enrolled : Prop}
    (notEmptied : ¬ emptied) (notEnrolled : ¬ enrolled) :
    Connects currentDir s clid emptied enrolled next where
  ascending := logs.sound.ascending
  files := logs.sound.stored
  router := logs.router
  registered other := by
    rw [Registered, logs.clients]
    exact (or_iff_right fun enrolls => notEnrolled enrolls.1).symm
  empty isEmptied := absurd isEmptied notEmptied
  kept other _ := logs.stored other

theorem Leaves.connects (leaves : s.Leaves currentDir srvVar answers now next) :
    Connects currentDir s srvVar.clid (s.Makes currentDir srvVar answers now)
      (s.Makes currentDir srvVar answers now ∨ s.Takes currentDir srvVar answers now) next := by
  cases leaves with
  | @made between next mdata makes logs enrolls =>
    refine ⟨enrolls.sound.ascending, enrolls.sound.stored, enrolls.router.trans logs.router,
      fun other => ?_, fun _ other same => ?_, fun other different => ?_⟩
    · rw [enrolls.registered, Registered, show (setStore _ between _ _).clients = s.clients from
        logs.clients]
      exact or_congr_left (and_iff_right (.inl makes)).symm
    · rw [stored, storeOf, enrolls.stores]
      exact stored_setStore_of_eq _ same
    · rw [stored, storeOf, enrolls.stores]
      exact (stored_setStore_of_ne _ (different makes)).trans (logs.stored other)
  | @taken between next takes logs enrolls =>
    have makesNot : ¬ s.Makes currentDir srvVar answers now := fun makes =>
      (makes.fresh takes.unclean).2 takes.resumes
    refine ⟨enrolls.sound.ascending, enrolls.sound.stored, enrolls.router.trans logs.router,
      fun other => ?_, fun makes => absurd makes makesNot, fun other _ => ?_⟩
    · rw [enrolls.registered, Registered, logs.clients]
      exact or_congr_left (and_iff_right (.inr takes)).symm
    · rw [stored, storeOf, enrolls.stores]
      exact logs.stored other
  | neither makesNot takesNot logs =>
    exact logs.connects makesNot (not_or.mpr ⟨makesNot, takesNot⟩)

/-- What is left of a connection is what its handling leaves. -/
theorem connect_eq (currentDir : Bytes) (s : Broker) (read : FirstRead) (answers : Answers)
    (now : Nat) :
    ∃ accepting, (s.connect currentDir read answers now).2 =
      { (establishConnection currentDir ⟨s.accessTotal⟩ read answers now
          { s with accessTotal := s.accessTotal + 1 }).2 with accepting } := by
  rcases went : establishConnection currentDir ⟨s.accessTotal⟩ read answers now
    { s with accessTotal := s.accessTotal + 1 } with ⟨outcome, after⟩
  rw [connect, went]
  cases outcome with
  | ok | err => exact ⟨after.accepting, rfl⟩
  | panic => exact ⟨false, rfl⟩

/-- The number of connections and the accept loop are no part of what a connection changes. -/
theorem Connects.of_counted {accessTotal : UInt32} {accepting : Bool} {clid : ClientID}
    {emptied enrolled : Prop}
    (connects : Connects currentDir { s with accessTotal } clid emptied enrolled next) :
    Connects currentDir s clid emptied enrolled { next with accepting } :=
  ⟨connects.ascending, connects.files, connects.router, connects.registered, connects.empty,
    connects.kept⟩

theorem connect_of_request (sound : s.Sound) (work : answers.Work) {octets rest : Bytes}
    (fits : octets.length ≤ 256) {packet : ConnectPacket}
    (decoded : ConnectPacket.decode octets = .ok (packet, rest)) :
    let srvVar := (collect packet .default).1
    Connects currentDir s srvVar.clid (s.Makes currentDir srvVar answers now)
      (s.Makes currentDir srvVar answers now ∨ s.Takes currentDir srvVar answers now)
      (s.connect currentDir (.received octets fits) answers now).2 := by
  intro srvVar
  obtain ⟨accepting, left⟩ := connect_eq currentDir s (.received octets fits) answers now
  have request : readRequest (.received octets fits) = .ok packet := by
    rw [readRequest_received, decoded]
    rfl
  have counted := sound.counted (s.accessTotal + 1)
  have makes : Makes currentDir { s with accessTotal := s.accessTotal + 1 } srvVar answers now ↔
      s.Makes currentDir srvVar answers now :=
    ⟨fun ⟨vacant, bounded, fresh⟩ => ⟨vacant, bounded, fresh⟩,
      fun ⟨vacant, bounded, fresh⟩ => ⟨vacant, bounded, fresh⟩⟩
  have takes : Takes currentDir { s with accessTotal := s.accessTotal + 1 } srvVar answers now ↔
      s.Takes currentDir srvVar answers now :=
    ⟨fun ⟨vacant, unclean, resumes⟩ => ⟨vacant, unclean, resumes⟩,
      fun ⟨vacant, unclean, resumes⟩ => ⟨vacant, unclean, resumes⟩⟩
  have connects := (@startSession_leaves currentDir _ ⟨s.accessTotal⟩ srvVar answers now
    (collect packet .default).2 counted work).connects
  rw [left, ← makes, ← takes]
  rw [establishConnection, request]
  exact connects.of_counted

theorem connect_of_none (sound : s.Sound) {read : FirstRead}
    (none : ∀ packet, readRequest read ≠ .ok packet) (clid : ClientID) :
    Connects currentDir s clid False False (s.connect currentDir read answers now).2 := by
  obtain ⟨accepting, left⟩ := connect_eq currentDir s read answers now
  rw [left, (establishConnection_of_none currentDir _ ⟨s.accessTotal⟩ answers now none).2]
  exact (sound.counted _).logs_self.connects id id |>.of_counted

end Connections

/-- What every event keeps: a topic is bound to its owner, which is registered. -/
structure WellRouted (owner : Str → ClientID) (s : Broker) : Prop where
  ascending : Clients.Ascending s.clients
  files : ∀ {directory store}, s.stores directory = some store → Stored store
  intact : s.router.Intact
  owned : ∀ {topic subscriber}, s.router.route topic = some subscriber →
    subscriber.clid = owner topic
  bound : ∀ {topic subscriber}, s.router.route topic = some subscriber →
    s.Registered subscriber.clid

/-- What events in step keep. -/
structure Consistent (currentDir : Bytes) (owner : Str → ClientID) (s : Broker) : Prop
    extends WellRouted owner s where
  agree : s.Agree currentDir

section Steps

variable {currentDir : Bytes} {owner : Str → ClientID} {s next : Broker}

theorem route_new (stores : List Bytes → Option SessionStore) {topic : Str}
    {subscriber : SubscriberInstance} : (new stores).router.route topic ≠ some subscriber := by
  intro routed
  have free : (new stores).router.route topic = none :=
    (Trie.getVal_eq rfl Child.distinct_new topic).trans (Child.valueAt_new _)
  rw [free] at routed
  cases routed

theorem consistent_new {stores : List Bytes → Option SessionStore}
    (files : ∀ {directory store}, stores directory = some store → Stored store) :
    Consistent currentDir owner (new stores) where
  ascending := .nil
  files := files
  intact := Trie.intact_new
  owned routed := absurd routed (route_new stores)
  bound routed := absurd routed (route_new stores)
  agree := by
    rintro clid ⟨client, member, _⟩
    cases member

/-- With more clients and the same router the routes stay in order. -/
theorem WellRouted.frame (routed : WellRouted owner s) (router : next.router = s.router)
    (ascending : Clients.Ascending next.clients)
    (files : ∀ {directory store}, next.stores directory = some store → Stored store)
    (registered : ∀ clid, s.Registered clid → next.Registered clid) : WellRouted owner next := by
  refine ⟨ascending, files, by rw [router]; exact routed.intact, fun found => ?_,
    fun found => ?_⟩ <;> rw [router] at found
  · exact routed.owned found
  · exact registered _ (routed.bound found)

/-- After a connection all clients agree exactly when it left file and router in step. -/
theorem Consistent.agree_connects_iff (consistent : Consistent currentDir owner s)
    {clid : ClientID} {emptied enrolled : Prop}
    (connects : Connects currentDir s clid emptied enrolled next) :
    next.Agree currentDir ↔
      (emptied → ∀ topic subscriber, s.router.route topic = some subscriber →
        ClientStore.directory currentDir subscriber.clid ≠
          ClientStore.directory currentDir clid) ∧
      (enrolled ∧ ¬ emptied → s.Registered clid ∨ s.stored currentDir clid = some []) := by
  have routes : next.router = s.router := connects.router
  have unrouted {other : ClientID} (unregistered : ¬ s.Registered other) (topic : Str)
      (level : ServiceLevel) : s.router.route topic ≠ some { clid := other, maxQos := level } :=
    fun routed => unregistered (consistent.bound routed)
  constructor
  · intro agree
    constructor
    · intro isEmptied topic subscriber routed same
      have registered := (connects.registered _).mpr (.inr (consistent.bound routed))
      have agrees := (agrees_iff_of_empty (connects.empty isEmptied _ same)).mp
        (agree _ registered)
      rw [routes] at agrees
      exact agrees topic subscriber routed rfl
    · rintro ⟨isEnrolled, notEmptied⟩
      by_cases registered : s.Registered clid
      · exact .inl registered
      · have agrees := agree clid ((connects.registered _).mpr (.inl ⟨isEnrolled, rfl⟩))
        rw [agrees_iff_of_unrouted (by rw [routes]; exact unrouted registered),
          connects.kept clid fun isEmptied => absurd isEmptied notEmptied] at agrees
        exact .inr agrees
  · rintro ⟨vacated, restored⟩ other isRegistered
    by_cases touched : emptied ∧
        ClientStore.directory currentDir other = ClientStore.directory currentDir clid
    · rw [agrees_iff_of_empty (connects.empty touched.1 other touched.2), routes]
      rintro topic subscriber routed rfl
      exact vacated touched.1 topic subscriber routed touched.2
    · have sameFile := connects.kept other fun isEmptied same => touched ⟨isEmptied, same⟩
      by_cases registered : s.Registered other
      · exact (consistent.agree other registered).frame sameFile fun _ _ => by rw [routes]
      · obtain ⟨isEnrolled, rfl⟩ := ((connects.registered other).mp isRegistered).resolve_right
          registered
        have notEmptied : ¬ emptied := fun isEmptied => touched ⟨isEmptied, rfl⟩
        rw [agrees_iff_of_unrouted (by rw [routes]; exact unrouted registered), sameFile]
        exact (restored ⟨isEnrolled, notEmptied⟩).resolve_left registered

theorem WellRouted.connects (routed : WellRouted owner s) {clid : ClientID}
    {emptied enrolled : Prop} (connects : Connects currentDir s clid emptied enrolled next) :
    WellRouted owner next :=
  routed.frame connects.router connects.ascending connects.files fun other registered =>
    (connects.registered other).mpr (.inr registered)

/-- A connection leaves the routes in order, and all clients agreeing exactly when it is in
step. -/
theorem Consistent.connect (consistent : Consistent currentDir owner s) {read : FirstRead}
    {answers : Answers} {now : Nat} (work : answers.Work)
    (stepped : s.step currentDir (.connect read answers now) = some next) :
    WellRouted owner next ∧
      (next.Agree currentDir ↔ s.InStep currentDir (.operate (.connect read answers now))) := by
  obtain ⟨accepting, rfl⟩ := step_connect stepped
  have sound : s.Sound := ⟨accepting, consistent.ascending, consistent.files⟩
  have unchanged (none : ∀ packet, readRequest read ≠ .ok packet) :
      WellRouted owner (s.connect currentDir read answers now).2 ∧
        (s.connect currentDir read answers now).2.Agree currentDir := by
    have connects := @connect_of_none currentDir s answers now sound read none (owner ⟨[], rfl⟩)
    exact ⟨consistent.connects connects, (consistent.agree_connects_iff connects).mpr
      ⟨False.elim, fun enrolled => enrolled.1.elim⟩⟩
  cases read with
  | timedOut | failed error =>
    obtain ⟨routed, agree⟩ := unchanged fun packet request => by cases request
    exact ⟨routed, iff_of_true agree trivial⟩
  | received octets fits =>
    cases decoded : ConnectPacket.decode octets with
    | ok result =>
      obtain ⟨packet, rest⟩ := result
      have connects := @connect_of_request currentDir s answers now sound work octets rest fits
        packet decoded
      refine ⟨consistent.connects connects, (consistent.agree_connects_iff connects).trans ?_⟩
      have taken : (s.Makes currentDir (collect packet .default).1 answers now ∨
          s.Takes currentDir (collect packet .default).1 answers now) ∧
            ¬ s.Makes currentDir (collect packet .default).1 answers now ↔
          s.Takes currentDir (collect packet .default).1 answers now := by
        refine ⟨fun ⟨either, makesNot⟩ => either.resolve_left makesNot, fun takes => ⟨.inr takes, ?_⟩⟩
        exact fun makes => (makes.fresh takes.unclean).2 takes.resumes
      rw [taken]
      constructor
      · intro inStep other left again
        rw [decoded, Outcome.ok.injEq, Prod.mk.injEq] at again
        exact again.1 ▸ inStep
      · exact fun inStep => inStep packet rest decoded
    | err error | panic =>
      obtain ⟨routed, agree⟩ := unchanged fun packet request => by
        rw [readRequest_received, decoded] at request
        cases request
      refine ⟨routed, iff_of_true agree fun packet rest request => ?_⟩
      rw [decoded] at request
      cases request

/-- Where a request leaves the router, whatever becomes of the file. -/
theorem WellRouted.subscribeTopics_routes (routed : WellRouted owner s) {clid : ClientID}
    {list : List Subscribe} {iteration : IterationOrder}
    (subscribed : s.subscribeTopics currentDir clid list iteration none = some next) :
    next.clients = s.clients ∧
      (∀ {directory store}, next.stores directory = some store → Stored store) ∧
      next.router.Intact ∧
      (∀ topic, next.router.route topic =
        (s.router.route topic).or ((asked topic list).head?.map fun maxQos => ⟨clid, maxQos⟩)) ∧
      ∀ other, ClientStore.directory currentDir other ≠ ClientStore.directory currentDir clid →
        next.stored currentDir other = s.stored currentDir other := by
  obtain ⟨router, granted, intact, values⟩ := RouterTree.subscribe_spec routed.intact clid list
  have routes : ∀ topic, router.route topic =
      (s.router.route topic).or ((asked topic list).head?.map fun maxQos => ⟨clid, maxQos⟩) := by
    intro topic
    rw [← RouterTree.bindAll_eq_asked]
    exact congrFun values topic
  simp only [subscribeTopics, granted, Option.bind_eq_bind, Option.bind_some] at subscribed
  cases present : s.storeOf currentDir clid with
  | none =>
    rw [present] at subscribed
    cases subscribed
    exact ⟨rfl, routed.files, intact, routes, fun _ _ => rfl⟩
  | some store =>
    simp only [present] at subscribed
    split at subscribed
    · cases subscribed
      refine ⟨rfl, fun {directory files} found => ?_, intact, routes, fun other different =>
        stored_setStore_of_ne _ different⟩
      rw [setStore_stores] at found
      by_cases same : directory = ClientStore.directory currentDir clid
      · rw [same, Function.update_self] at found
        have stored : Stored store := routed.files present
        rw [← Option.some.inj found]
        exact ⟨stored.log, stored.settings⟩
      · rw [Function.update_of_ne same] at found
        exact routed.files found
    · cases subscribed
      exact ⟨rfl, routed.files, intact, routes, fun _ _ => rfl⟩

/-- Where a request leaves the file of a client that agreed before. -/
theorem Agrees.subscribeTopics_file {clid : ClientID} {list : List Subscribe}
    {iteration : IterationOrder} (agrees : s.Agrees currentDir clid)
    (subscribed : s.subscribeTopics currentDir clid list iteration none = some next) :
    ∃ map entries, s.stored currentDir clid = some map ∧
      (∀ topic level, Assoc.get topic map = some level ↔
        s.router.route topic = some ⟨clid, level⟩) ∧
      next.stored currentDir clid = (getSubscribed (writeSubscribed entries)).toOption ∧
      (Assoc.keys entries).Nodup ∧ (Assoc.keys (bindTopics map list)).Nodup ∧
      ∀ topic, Assoc.get topic entries = Assoc.get topic (bindTopics map list) := by
  obtain ⟨map, storedMap, same⟩ := agrees
  obtain ⟨store, found, readStore⟩ := Option.bind_eq_some_iff.mp storedMap
  have read := Outcome.toOption_eq_some.mp readStore
  have mapNodup := (getSubscribed_bounds read).1
  have mergedNodup := mergeTopics_nodup mapNodup list
  have perm := iteration.perm (mergeTopics map list)
  have written : ClientStore.subscribe store.subscribed list iteration =
      .ok (writeSubscribed (iteration.order (mergeTopics map list))) := by
    simp [ClientStore.subscribe, read]
  simp only [subscribeTopics, found, written, Option.bind_eq_bind, Option.bind_eq_some_iff]
    at subscribed
  obtain ⟨granted, _, saved⟩ := subscribed
  cases saved
  refine ⟨map, iteration.order (mergeTopics map list), storedMap, same,
    stored_setStore_of_eq _ rfl, Assoc.keys_perm_nodup perm mergedNodup,
    bindTopics_nodup mapNodup list, fun topic => ?_⟩
  rw [Assoc.get_perm perm mergedNodup, get_mergeTopics fun _ => rfl]

/-- Which level the router holds for the client that asks, after its request. -/
theorem WellRouted.routed_iff (routed : WellRouted owner s) {clid : ClientID}
    {list : List Subscribe} (owned : ∀ sub ∈ list, owner sub.topic = clid) {topic : Str}
    (member : topic ∈ list.map Subscribe.topic) (level : ServiceLevel) :
    (s.router.route topic).or ((asked topic list).head?.map fun maxQos => ⟨clid, maxQos⟩) =
        some { clid, maxQos := level } ↔
      ((s.router.route topic).map SubscriberInstance.maxQos).or (asked topic list).head? =
        some level := by
  cases current : s.router.route topic with
  | none => simp
  | some subscriber =>
    obtain ⟨sub, subIn, rfl⟩ := List.mem_map.mp member
    have mine : subscriber.clid = clid := (routed.owned current).trans (owned sub subIn)
    cases subscriber
    cases mine
    simp

/-- After a request the client agrees exactly when its file has followed. -/
theorem Consistent.agrees_subscribe_iff (consistent : Consistent currentDir owner s)
    {clid : ClientID} {list : List Subscribe} {iteration : IterationOrder}
    (registered : s.Registered clid) (owned : ∀ sub ∈ list, owner sub.topic = clid)
    (subscribed : s.subscribeTopics currentDir clid list iteration none = some next) :
    next.Agrees currentDir clid ↔ s.Follows currentDir clid list := by
  obtain ⟨_, _, _, routes, _⟩ := consistent.subscribeTopics_routes subscribed
  obtain ⟨map, entries, storedMap, same, file, entriesNodup, boundNodup, lookups⟩ :=
    (consistent.agree clid registered).subscribeTopics_file subscribed
  have perm := Assoc.perm_of_get entriesNodup boundNodup lookups
  have absent : ∀ {topic}, topic ∉ list.map Subscribe.topic → ∀ level,
      (Assoc.get topic (bindTopics map list) = some level ↔
        next.router.route topic = some ⟨clid, level⟩) := by
    intro topic notAsked level
    rw [get_bindTopics, routes, asked_eq_nil_iff.mpr notAsked]
    simpa using same topic level
  have lastAsked : ∀ {topic}, topic ∈ list.map Subscribe.topic →
      Assoc.get topic (bindTopics map list) = (asked topic list).getLast? := by
    intro topic member
    rw [get_bindTopics]
    obtain ⟨last, isLast⟩ := Option.isSome_iff_exists.mp
      (List.getLast?_isSome.mpr (asked_ne_nil member))
    rw [isLast, Option.some_or]
  have routedLevel : ∀ {topic}, topic ∈ list.map Subscribe.topic → ∀ level,
      (next.router.route topic = some ⟨clid, level⟩ ↔
        ((s.router.route topic).map SubscriberInstance.maxQos).or (asked topic list).head? =
          some level) := by
    intro topic member level
    rw [routes]
    exact consistent.toWellRouted.routed_iff owned member level
  constructor
  · rintro ⟨read, storedRead, agrees⟩
    rw [file] at storedRead
    have readOk := Outcome.toOption_eq_some.mp storedRead
    obtain ⟨readNodup, readStorable⟩ := getSubscribed_bounds readOk
    have sameKeys : ∀ topic, topic ∈ Assoc.keys (bindTopics map list) ↔
        topic ∈ Assoc.keys read := by
      intro topic
      rw [← Assoc.get_isSome_iff, ← Assoc.get_isSome_iff]
      by_cases member : topic ∈ list.map Subscribe.topic
      · obtain ⟨level, isLevel⟩ := Option.isSome_iff_exists.mp
          (show (((s.router.route topic).map SubscriberInstance.maxQos).or
            (asked topic list).head?).isSome by simp [asked_ne_nil member])
        have isRead := (agrees topic level).mpr ((routedLevel member level).mpr isLevel)
        rw [lastAsked member, isRead]
        exact iff_of_true (List.getLast?_isSome.mpr (asked_ne_nil member)) rfl
      · rw [show Assoc.get topic (bindTopics map list) = Assoc.get topic read from
          Option.ext fun level => (absent member level).trans (agrees topic level).symm]
    have storable : Storable (bindTopics map list) :=
      readStorable.of_keys boundNodup readNodup sameKeys
    obtain ⟨again, readAgain, lookedUp⟩ :=
      (getSubscribed_write_iff entriesNodup).mpr (storable.of_perm perm)
    obtain rfl : read = again := by simpa [readOk] using readAgain
    refine ⟨fun other isOther => ?_, fun topic member => ?_⟩
    · obtain rfl : map = other := by simpa [storedMap] using isOther
      exact storable
    · apply Option.ext
      intro level
      rw [← lastAsked member, ← lookups, ← lookedUp, agrees, routedLevel member]
  · rintro ⟨storable, levels⟩
    obtain ⟨read, readOk, readSame⟩ :=
      (getSubscribed_write_iff entriesNodup).mpr ((storable map storedMap).of_perm perm)
    refine ⟨read, by rw [file, readOk]; rfl, fun topic level => ?_⟩
    rw [readSame, lookups]
    by_cases member : topic ∈ list.map Subscribe.topic
    · rw [lastAsked member, routedLevel member, levels topic member]
    · exact absent member level


/-- After a request all clients agree exactly when the file of the client has followed and no
other client has it. -/
theorem Consistent.agree_subscribe_iff (consistent : Consistent currentDir owner s)
    {clid : ClientID} {list : List Subscribe} {iteration : IterationOrder}
    (registered : s.Registered clid) (owned : ∀ sub ∈ list, owner sub.topic = clid)
    (subscribed : s.subscribeTopics currentDir clid list iteration none = some next) :
    next.Agree currentDir ↔ s.Follows currentDir clid list ∧
      (list ≠ [] → ∀ other, s.Registered other → other ≠ clid →
        ClientStore.directory currentDir other ≠ ClientStore.directory currentDir clid) := by
  obtain ⟨clients, _, _, routes, others⟩ := consistent.subscribeTopics_routes subscribed
  have sameRegistered : ∀ other, next.Registered other ↔ s.Registered other := by
    intro other
    rw [Registered, clients, Registered]
  rw [← consistent.agrees_subscribe_iff registered owned subscribed]
  constructor
  · intro agree
    refine ⟨agree clid ((sameRegistered clid).mpr registered), ?_⟩
    intro nonempty other isOther different sameDirectory
    -- A topic that was asked for is routed to the client, and so both clients read it in the file.
    obtain ⟨sub, member⟩ := List.exists_mem_of_ne_nil list nonempty
    have topicIn : sub.topic ∈ list.map Subscribe.topic := List.mem_map.mpr ⟨sub, member, rfl⟩
    obtain ⟨level, isLevel⟩ := Option.isSome_iff_exists.mp
      (show (((s.router.route sub.topic).map SubscriberInstance.maxQos).or
        (asked sub.topic list).head?).isSome by simp [asked_ne_nil topicIn])
    have routed : next.router.route sub.topic = some ⟨clid, level⟩ := by
      rw [routes]
      exact (consistent.toWellRouted.routed_iff owned topicIn level).mpr isLevel
    obtain ⟨map, read, same⟩ := agree clid ((sameRegistered clid).mpr registered)
    obtain ⟨otherMap, otherRead, otherSame⟩ := agree other ((sameRegistered other).mpr isOther)
    rw [stored_eq, sameDirectory, ← stored_eq, read, Option.some.injEq] at otherRead
    have otherRouted := (otherSame sub.topic level).mp
      (otherRead ▸ (same sub.topic level).mpr routed)
    rw [routed, Option.some.injEq, SubscriberInstance.mk.injEq] at otherRouted
    exact different otherRouted.1.symm
  · rintro ⟨agrees, apart⟩ other isRegistered
    have isOther := (sameRegistered other).mp isRegistered
    by_cases mine : other = clid
    · rw [mine]
      exact agrees
    · have sameRoutes : ∀ topic level, next.router.route topic = some ⟨other, level⟩ ↔
          s.router.route topic = some ⟨other, level⟩ := by
        intro topic level
        rw [routes]
        cases s.router.route topic with
        | some subscriber => simp
        | none => simp [Ne.symm mine]
      by_cases sameDirectory :
          ClientStore.directory currentDir other = ClientStore.directory currentDir clid
      · have nothing : list = [] := by
          by_contra nonempty
          exact apart nonempty other isOther mine sameDirectory
        -- Both clients agreed with the one file before, and nothing was asked for.
        obtain ⟨map, read, same⟩ := agrees
        obtain ⟨before, beforeRead, beforeSame⟩ := consistent.agree clid registered
        obtain ⟨otherMap, otherRead, otherSame⟩ := consistent.agree other isOther
        rw [stored_eq, sameDirectory, ← stored_eq, beforeRead, Option.some.injEq] at otherRead
        refine ⟨map, by rw [stored_eq, sameDirectory, ← stored_eq, read], fun topic level => ?_⟩
        rw [same, sameRoutes, ← otherSame, ← otherRead, beforeSame, routes, nothing]
        simp [asked]
      · exact (consistent.agree other isOther).frame (others other sameDirectory) sameRoutes

/-- A request leaves the routes in order. -/
theorem WellRouted.subscribe (routed : WellRouted owner s) {clid : ClientID}
    {list : List Subscribe} {iteration : IterationOrder} (registered : s.Registered clid)
    (owned : ∀ sub ∈ list, owner sub.topic = clid)
    (subscribed : s.subscribeTopics currentDir clid list iteration none = some next) :
    WellRouted owner next := by
  obtain ⟨clients, files, intact, routes, _⟩ := routed.subscribeTopics_routes subscribed
  have holders : ∀ {topic subscriber}, next.router.route topic = some subscriber →
      s.router.route topic = some subscriber ∨ subscriber.clid = clid ∧ owner topic = clid := by
    intro topic subscriber found
    rw [routes, Option.or_eq_some_iff] at found
    rcases found with before | ⟨_, added⟩
    · exact .inl before
    · obtain ⟨level, isFirst, rfl⟩ := Option.map_eq_some_iff.mp added
      have member : topic ∈ list.map Subscribe.topic := by
        by_contra absent
        simp [asked_eq_nil_iff.mpr absent] at isFirst
      obtain ⟨sub, subIn, rfl⟩ := List.mem_map.mp member
      exact .inr ⟨rfl, owned sub subIn⟩
  refine ⟨clients ▸ routed.ascending, files, intact, fun found => ?_, fun found => ?_⟩
  · rcases holders found with before | ⟨mine, owns⟩
    · exact routed.owned before
    · exact mine.trans owns.symm
  · rw [Registered, clients]
    rcases holders found with before | ⟨mine, _⟩
    · exact routed.bound before
    · exact mine ▸ registered

theorem registered_modify (idx : Nat) (session : Session) (clid : ClientID) :
    Registered { s with clients := s.clients.modify idx fun client => { client with session } } clid ↔
      s.Registered clid := by
  simp only [Registered, ← List.mem_map, Clients.map_clid_modify]

/-- From a consistent broker an event leads to a well-routed one, and to agreement exactly when
it is in step. -/
theorem Consistent.happen (consistent : Consistent currentDir owner s) {event : Event}
    (given : s.Given owner event) (happened : s.happen currentDir event = some next) :
    WellRouted owner next ∧ (next.Agree currentDir ↔ s.InStep currentDir event) := by
  cases event with
  | restart =>
    cases happened
    have fresh : Consistent currentDir owner (new s.stores) := consistent_new consistent.files
    exact ⟨fresh.toWellRouted, iff_of_true fresh.agree trivial⟩
  | operate operation =>
    cases operation with
    | connect read answers now => exact consistent.connect given happened
    | subscribe clid list iteration torn =>
      obtain ⟨rfl, registered, owned⟩ := given
      exact ⟨consistent.subscribe registered owned happened,
        consistent.agree_subscribe_iff registered owned happened⟩
    | log clid wall =>
      obtain ⟨store, present, rfl⟩ := Option.map_eq_some_iff.mp happened
      have stored : Stored store := consistent.files present
      refine ⟨consistent.frame rfl consistent.ascending (fun {directory files} found => ?_)
        fun _ registered => registered, iff_of_true (fun other registered => ?_) trivial⟩
      · rw [setStore_stores] at found
        by_cases same : directory = ClientStore.directory currentDir clid
        · rw [same, Function.update_self] at found
          rw [← Option.some.inj found]
          exact stored.logSession _
        · rw [Function.update_of_ne same] at found
          exact consistent.files found
      · refine (consistent.agree other registered).frame ?_ fun _ _ => Iff.rfl
        by_cases same :
            ClientStore.directory currentDir other = ClientStore.directory currentDir clid
        · rw [stored_setStore_of_eq _ same, stored_eq, same, show s.stores _ = some store from present]
          rfl
        · exact stored_setStore_of_ne _ same
    | session idx session =>
      cases happened
      refine ⟨consistent.frame rfl (consistent.ascending.modify_session idx session)
        consistent.files fun clid registered => ?_,
        iff_of_true (fun clid registered => ?_) trivial⟩
      · exact (registered_modify idx session clid).mpr registered
      · exact (consistent.agree clid ((registered_modify idx session clid).mp registered)).frame rfl
          fun _ _ => Iff.rfl

end Steps

/-- Events in step keep the broker consistent, and any other event makes the router and a file
differ. -/
theorem exactGuard (currentDir : Bytes) (owner : Str → ClientID) :
    (histories currentDir owner).ExactGuard (InStep currentDir) (Consistent currentDir owner)
      (Agree currentDir) where
  initial valid := by
    obtain ⟨stores, rfl, files⟩ := valid
    exact consistent_new fun found => files _ _ found
  preserved consistent inStep happened :=
    have after := consistent.happen happened.1 happened.2
    ⟨after.1, after.2.mpr inStep⟩
  sound consistent := consistent.agree
  sharp consistent outOfStep happened := mt (consistent.happen happened.1 happened.2).2.mp outOfStep

/-- In every history in which every topic has one client, the router and the files of all
registered clients agree all along exactly when all events keep them in step. -/
theorem agree_iff_inStep {currentDir : Bytes} {owner : Str → ClientID}
    {trail : List (Broker × Event)} {s : Broker} (run : (histories currentDir owner).Run trail s) :
    System.Run.AllStates (Agree currentDir) trail s ↔
      System.Run.AllSteps (InStep currentDir) trail :=
  (exactGuard currentDir owner).safe_iff_guarded run

/-- A run goes on with an event. -/
theorem run_happen {currentDir : Bytes} {owner : Str → ClientID} {trail : List (Broker × Event)}
    {s next : Broker} (run : (histories currentDir owner).Run trail s) (event : Event)
    (given : s.Given owner event) (happened : s.happen currentDir event = some next) :
    (histories currentDir owner).Run (trail ++ [(s, event)]) next :=
  .step run ⟨given, happened⟩

/-- The client "a" connects. -/
def connectsAs (cleanStart : Bool) (now : Nat) : Operation :=
  .connect (.received [0x10, 0x0E, 0x00, 0x04, 0x4D, 0x51, 0x54, 0x54, 0x05,
    if cleanStart then 0x20 else 0x00, 0x00, 0x3C, 0x00, 0x00, 0x01, 0x61]
      (Nat.le_of_ble_eq_true rfl))
    ⟨.ok (), .ok (), .made, .ok (), .listed⟩ now

/-- A client connects, subscribes, leaves, is restored, and comes back with a clean start after
a restart of the broker. -/
theorem agree_iff_inStep_returns :
    let topic : Str := ⟨[0x74], by decide⟩
    let clid : ClientID := .new ⟨[0x61], by decide⟩
    ∃ trail s, (histories [0x2F] fun _ => clid).Run trail s ∧
      trail.map Prod.snd = [.operate (connectsAs true 5),
        .operate (.subscribe clid [⟨topic, .qos1⟩] .listed none),
        .operate (.log clid ⟨7, .disconnectByServer 1000⟩),
        .operate (.session 0 ⟨4, 0, 60⟩), .operate (connectsAs false 9), .restart,
        .operate (connectsAs true 20)] ∧
      System.Run.AllStates (Agree [0x2F]) trail s := by
  intro topic clid
  have empty : (histories [0x2F] fun _ => clid).Run [] (new fun _ => none) :=
    .initial ⟨_, rfl, nofun⟩
  have work : Answers.Work ⟨.ok (), .ok (), .made, .ok (), .listed⟩ := ⟨rfl, rfl, rfl⟩
  have connected := run_happen empty (.operate (connectsAs true 5)) work rfl
  have subscribed := run_happen connected (.operate (.subscribe clid [⟨topic, .qos1⟩] .listed none))
    ⟨rfl, ⟨_, List.mem_singleton.mpr rfl, rfl⟩, fun _ _ => rfl⟩ rfl
  have logged := run_happen subscribed (.operate (.log clid ⟨7, .disconnectByServer 1000⟩))
    ⟨_, List.mem_singleton.mpr rfl, rfl⟩ rfl
  have dead := run_happen logged (.operate (.session 0 ⟨4, 0, 60⟩)) trivial rfl
  have restored := run_happen dead (.operate (connectsAs false 9)) work rfl
  have restarted := run_happen restored .restart trivial rfl
  have again := run_happen restarted (.operate (connectsAs true 20)) work rfl
  refine ⟨_, _, again, rfl, (agree_iff_inStep again).mpr ?_⟩
  rintro entry (_ | ⟨_, _ | ⟨_, _ | ⟨_, _ | ⟨_, _ | ⟨_, _ | ⟨_, _ | ⟨_, impossible⟩⟩⟩⟩⟩⟩⟩)
  · intro packet rest decoded
    cases decoded
    exact ⟨fun _ _ _ routed => absurd routed (route_new _), fun takes => absurd takes.unclean (by decide)⟩
  · refine ⟨⟨fun map isMap => ?_, fun other member => ?_⟩, fun _ other isOther different => ?_⟩
    · obtain rfl : [] = map := Option.some.inj isMap
      exact ⟨by decide, by decide⟩
    · obtain rfl := List.mem_singleton.mp member
      rfl
    · obtain ⟨client, member, rfl⟩ := isOther
      obtain rfl := List.mem_singleton.mp member
      exact absurd rfl different
  · trivial
  · trivial
  · intro packet rest decoded
    cases decoded
    refine ⟨fun makes => absurd ?_ (makes.fresh rfl).2,
      fun _ => .inl ⟨_, List.mem_singleton.mpr rfl, rfl⟩⟩
    refine ⟨_, rfl, rfl, rfl, ⟨[⟨5, .clientCreated⟩], ⟨7, .disconnectByServer 1000⟩, 1000, rfl,
      aligned_of_short (by decide), .inr rfl, by decide⟩, ?_⟩
    exact ⟨[(topic, .qos1)], [], List.forall_mem_singleton.mpr (by decide), by decide, by decide⟩
  · trivial
  · intro packet rest decoded
    cases decoded
    exact ⟨fun _ _ _ routed => absurd routed (route_new _), fun takes => absurd takes.unclean (by decide)⟩
  · cases impossible

/-- A client asks for one level and then for another: the file keeps the second and the
router the first. -/
theorem file_ahead_of_router :
    let topic : Str := ⟨[0x74], by decide⟩
    let clid : ClientID := .new ⟨[0x61], by decide⟩
    ∃ s, (histories [0x2F] fun _ => clid).Reachable s ∧ s.Registered clid ∧
      s.stored [0x2F] clid = some [(topic, .qos1)] ∧
      s.router.route topic = some ⟨clid, .qos0⟩ ∧ ¬ s.Agree [0x2F] := by
  intro topic clid
  have empty : (histories [0x2F] fun _ => clid).Run [] (new fun _ => none) :=
    .initial ⟨_, rfl, nofun⟩
  have work : Answers.Work ⟨.ok (), .ok (), .made, .ok (), .listed⟩ := ⟨rfl, rfl, rfl⟩
  have connected := run_happen empty (.operate (connectsAs true 5)) work rfl
  have subscribed := run_happen connected (.operate (.subscribe clid [⟨topic, .qos0⟩] .listed none))
    ⟨rfl, ⟨_, List.mem_singleton.mpr rfl, rfl⟩, fun _ _ => rfl⟩ rfl
  have again := run_happen subscribed (.operate (.subscribe clid [⟨topic, .qos1⟩] .listed none))
    ⟨rfl, ⟨_, List.mem_singleton.mpr rfl, rfl⟩, fun _ _ => rfl⟩ rfl
  refine ⟨_, ⟨_, again⟩, ⟨_, List.mem_singleton.mpr rfl, rfl⟩, rfl, rfl, fun agree => ?_⟩
  obtain ⟨map, read, same⟩ := agree clid ⟨_, List.mem_singleton.mpr rfl, rfl⟩
  obtain rfl : [(topic, .qos1)] = map := Option.some.inj read
  have differs := (same topic .qos0).mpr rfl
  cases differs

end Sipusu.Connection.Broker
