import Sipusu.Foundation.PartialMap
import Sipusu.Foundation.Simulation
import Sipusu.MessageBroker.Client.RestoreAbort

/-!
# The life of a session

What a session directory is for, and that `ClientStore` keeps it: settings that stay as they
were created, a map of subscriptions, and whether the session is in use or left behind until
it expires. A call of the store is a step of this session as long as the subscriptions fit
into the reader's buffer and the log is read at ends of lines.
-/

namespace Sipusu.MessageBroker

open Sipusu.Foundation Sipusu.Protocol.V5

/-- A session as it is meant. -/
structure SessionSpec where
  settings : MetaData
  wanted : PartialMap Str ServiceLevel
  /-- Until when it can be restored; nothing while it is in use. -/
  offline : Option UInt64

/-- What happens to a session, with what a restore returns. -/
inductive SessionEvent where
  | created (settings : MetaData)
  | subscribed (topics : List Subscribe)
  | unsubscribed (topics : List Str)
  | disconnected (expiration : UInt64)
  | restored (now : Nat) (settings : MetaData) (subs : List Subscribe)
  | refused (now : Nat)
  | aborted

namespace SessionEvent

/-- A restore that succeeds. -/
def restores : SessionEvent → Bool
  | .restored .. => true
  | _ => false

/-- A disconnection. -/
def disconnects : SessionEvent → Bool
  | .disconnected _ => true
  | _ => false

end SessionEvent

namespace SessionSpec

/-- The topics of a request are bound one after another. -/
def bindTopics (wanted : PartialMap Str ServiceLevel) (topics : List Subscribe) :
    PartialMap Str ServiceLevel :=
  topics.foldl (fun wanted sub => Function.update wanted sub.topic (some sub.maxQos)) wanted

/-- Topics are unbound. -/
def removeTopics (wanted : PartialMap Str ServiceLevel) (topics : List Str) :
    PartialMap Str ServiceLevel :=
  fun topic => if topic ∈ topics then none else wanted topic

/-- The list has exactly the subscriptions, each once. -/
def Lists (subs : List Subscribe) (wanted : PartialMap Str ServiceLevel) : Prop :=
  (subs.map Subscribe.topic).Nodup ∧
    ∀ topic level, ⟨topic, level⟩ ∈ subs ↔ wanted topic = some level

/-- The session can be restored. -/
def Resumes (spec : SessionSpec) (now : Nat) : Prop :=
  ∃ expiration, spec.offline = some expiration ∧ now < expiration.toNat

/-- What may happen, and what becomes of the session. No call aborts. -/
inductive Step : Option SessionSpec → SessionEvent → Option SessionSpec → Prop where
  | created {before settings} :
      Step before (.created settings) (some ⟨settings, PartialMap.empty, none⟩)
  | subscribed {spec topics} : Step (some spec) (.subscribed topics)
      (some { spec with wanted := bindTopics spec.wanted topics })
  | unsubscribed {spec topics} : Step (some spec) (.unsubscribed topics)
      (some { spec with wanted := removeTopics spec.wanted topics })
  | disconnected {spec expiration} : Step (some spec) (.disconnected expiration)
      (some { spec with offline := some expiration })
  | restored {spec now subs} (resumes : spec.Resumes now) (listed : Lists subs spec.wanted) :
      Step (some spec) (.restored now spec.settings subs) (some { spec with offline := none })
  | missing {now} : Step none (.refused now) none
  | refused {spec now} (stays : ¬ spec.Resumes now) : Step (some spec) (.refused now) (some spec)

/-- All histories of a session. -/
def system : System (Option SessionSpec) SessionEvent where
  Initial spec := spec = none
  Step := Step

/-- Every restore has a disconnection of its own before it. -/
theorem restored_le_disconnected {history : List (Option SessionSpec × SessionEvent)}
    {spec : Option SessionSpec} (run : system.Run history spec) :
    ((history.map Prod.snd).countP SessionEvent.restores) +
        (if (spec.bind SessionSpec.offline).isSome then 1 else 0) ≤
      (history.map Prod.snd).countP SessionEvent.disconnects := by
  induction run with
  | initial valid =>
    rw [valid]
    exact Nat.le_refl 0
  | @step history before event after prior transition inductionHypothesis =>
    rw [List.map_append, List.countP_append, List.countP_append]
    cases transition with
    | restored resumes listed =>
      obtain ⟨expiration, offline, _⟩ := resumes
      simpa [SessionEvent.restores, SessionEvent.disconnects, offline] using inductionHypothesis
    | disconnected =>
      simp only [List.map_singleton, List.countP_singleton, SessionEvent.restores,
        SessionEvent.disconnects, Option.bind_some, Option.isSome_some, if_true]
      simp only [Bool.false_eq_true, if_false]
      omega
    | created =>
      simp only [List.map_singleton, List.countP_singleton, SessionEvent.restores,
        SessionEvent.disconnects, Option.bind_some, Option.isSome_none, Bool.false_eq_true, if_false]
      omega
    | subscribed | unsubscribed | missing | refused =>
      simpa [SessionEvent.restores, SessionEvent.disconnects] using inductionHypothesis

end SessionSpec

/-- A call on the directory of a client. -/
inductive SessionCall where
  /-- `Client::new`. -/
  | create (keepAlive : UInt16) (exprInterval : UInt32) (protocolLevel : UInt8) (limit : Limiter)
      (now : Nat)
  | subscribe (topics : List Subscribe) (iteration : IterationOrder)
  | unsubscribe (topics : List Str) (iteration : IterationOrder)
  /-- `log_session` at the end of the client's task. -/
  | disconnect (time expiration : UInt64) (byServer : Bool)
  | restore (iteration : IterationOrder) (now : Nat)

namespace SessionCall

/-- What is logged at the end of a task. -/
def endEvent (expiration : UInt64) (byServer : Bool) : EventType :=
  if byServer then .disconnectByServer expiration else .clientDisconnected expiration

/-- What a call does, and the directory after it. Only `create` and `restore` are called where
there is none. -/
def perform (store : Option SessionStore) : SessionCall → Option (SessionEvent × Option SessionStore)
  | .create keepAlive exprInterval protocolLevel limit now =>
      let mdata := Client.metaData keepAlive exprInterval protocolLevel limit
      some (.created mdata, some (SessionStore.new mdata now))
  | .subscribe topics iteration => store.map fun store =>
      match ClientStore.subscribe store.subscribed topics iteration with
      | .ok subscribed => (.subscribed topics, some { store with subscribed })
      | _ => (.aborted, some store)
  | .unsubscribe topics iteration => store.map fun store =>
      match ClientStore.unsubscribe store.subscribed topics iteration with
      | .ok subscribed => (.unsubscribed topics, some { store with subscribed })
      | _ => (.aborted, some store)
  | .disconnect time expiration byServer => store.map fun store =>
      (.disconnected expiration, some (store.logSession [⟨time, endEvent expiration byServer⟩]))
  | .restore iteration now =>
      let event := match SessionStore.restore store iteration now with
        | .ok (restored, _) => .restored now restored.mdata restored.subs
        | .err _ => .refused now
        | .panic => .aborted
      some (event, store.map fun store => store.afterRestore now)

/-- All histories of the directory of a client that was never there. -/
def system : System (Option SessionStore) SessionCall :=
  .ofStep none fun store call => (perform store call).map Prod.snd

/-- What a call does. -/
def event (store : Option SessionStore) (call : SessionCall) : Option SessionEvent :=
  (perform store call).map Prod.fst

/-- The condition on calls: the subscriptions fit into one buffer of their reader, without
newlines, and a restore finds a log that its reader cuts at ends of lines. -/
def Guarded (store : Option SessionStore) : SessionCall → Prop
  | .subscribe topics _ => ∀ dir ∈ store, ∀ map, getSubscribed dir.subscribed = .ok map →
      Storable (mergeTopics map topics)
  | .restore _ _ => ∀ dir ∈ store, LogReadable dir.session
  | _ => True

/-- Until when the last event of a log leaves a session behind. -/
def offlineUntil : EventType → Option UInt64
  | .clientCreated | .clientRestored => none
  | .clientDisconnected expiration | .disconnectByServer expiration => some expiration

/-- The directory holds the session. -/
structure Represents (store : SessionStore) (spec : SessionSpec) : Prop where
  log : ∃ wall last, store.session = writeWall (wall ++ [last]) ∧
    offlineUntil last.value = spec.offline
  metadata : store.metadata = spec.settings.serialize
  plain : spec.settings.userProperties = []
  subscribed : ∃ map, getSubscribed store.subscribed = .ok map ∧
    ∀ topic, Assoc.get topic map = spec.wanted topic

/-- The directory holds the session, or neither is there. -/
def Holds : Option SessionStore → Option SessionSpec → Prop
  | none, none => True
  | some store, some spec => Represents store spec
  | _, _ => False

section Steps

variable {store : SessionStore} {spec : SessionSpec}

theorem get_mergeTopics {map : Subscriptions} {wanted : PartialMap Str ServiceLevel}
    (same : ∀ topic, Assoc.get topic map = wanted topic) (topics : List Subscribe) (topic : Str) :
    Assoc.get topic (mergeTopics map topics) = SessionSpec.bindTopics wanted topics topic := by
  induction topics generalizing map wanted with
  | nil => exact same topic
  | cons sub rest inductionHypothesis =>
    refine inductionHypothesis fun other => ?_
    change _ = Function.update wanted sub.topic (some sub.maxQos) other
    rw [get_mergeTopic]
    by_cases own : other = sub.topic
    · rw [own, Assoc.get_insert_self, Function.update_self]
    · rw [Assoc.get_insert_ne own, Function.update_of_ne own, same]

/-- What is written back reads back. -/
theorem reads_back {map : Subscriptions} (nodup : (Assoc.keys map).Nodup) (storable : Storable map)
    (iteration : IterationOrder) :
    ∃ again, getSubscribed (writeSubscribed (iteration.order map)) = .ok again ∧
      ∀ topic, Assoc.get topic again = Assoc.get topic map := by
  have perm := iteration.perm map
  obtain ⟨again, read, same⟩ := (getSubscribed_write_iff (Assoc.keys_perm_nodup perm nodup)).mpr
    (storable.of_perm perm)
  exact ⟨again, read, fun topic => (same topic).trans (Assoc.get_perm perm nodup topic)⟩

theorem Represents.subscribe (represents : Represents store spec) (topics : List Subscribe)
    (iteration : IterationOrder) (fits : ∀ map, getSubscribed store.subscribed = .ok map →
      Storable (mergeTopics map topics)) :
    ∃ subscribed, ClientStore.subscribe store.subscribed topics iteration = .ok subscribed ∧
      Represents { store with subscribed }
        { spec with wanted := SessionSpec.bindTopics spec.wanted topics } := by
  obtain ⟨map, read, same⟩ := represents.subscribed
  have nodup := mergeTopics_nodup (getSubscribed_bounds read).1 topics
  obtain ⟨again, readAgain, sameAgain⟩ := reads_back nodup (fits map read) iteration
  refine ⟨writeSubscribed (iteration.order (mergeTopics map topics)), ?_, represents.log,
    represents.metadata, represents.plain, again, readAgain, fun topic => ?_⟩
  · simp [ClientStore.subscribe, read]
  · rw [sameAgain, get_mergeTopics same]

/-- Fewer subscriptions fit as well. -/
theorem removeTopics_storable {map : Subscriptions} (storable : Storable map) (topics : List Str) :
    Storable (removeTopics map topics) := by
  induction topics generalizing map with
  | nil => exact storable
  | cons topic rest inductionHypothesis =>
    refine inductionHypothesis ⟨fun other member => ?_, ?_⟩
    · obtain ⟨entry, kept, same⟩ := List.mem_map.mp member
      exact storable.unbroken other (same ▸ List.mem_map_of_mem (List.mem_filter.mp kept).1)
    · exact (recordsSize_remove topic map).trans storable.fits

theorem Represents.unsubscribe (represents : Represents store spec) (topics : List Str)
    (iteration : IterationOrder) :
    ∃ subscribed, ClientStore.unsubscribe store.subscribed topics iteration = .ok subscribed ∧
      Represents { store with subscribed }
        { spec with wanted := SessionSpec.removeTopics spec.wanted topics } := by
  obtain ⟨map, read, same⟩ := represents.subscribed
  obtain ⟨mapNodup, storable⟩ := getSubscribed_bounds read
  have nodup := removeTopics_nodup mapNodup topics
  obtain ⟨again, readAgain, sameAgain⟩ :=
    reads_back nodup (removeTopics_storable storable topics) iteration
  refine ⟨writeSubscribed (iteration.order (removeTopics map topics)), ?_, represents.log,
    represents.metadata, represents.plain, again, readAgain, fun topic => ?_⟩
  · simp [ClientStore.unsubscribe, read]
  · rw [sameAgain, removeTopics, Assoc.get_foldl_remove, same]
    rfl

/-- Another event at the end of the log. -/
theorem Represents.logged (represents : Represents store spec) (entry : WALL) :
    Represents (store.logSession [entry]) { spec with offline := offlineUntil entry.value } := by
  obtain ⟨wall, last, log, _⟩ := represents.log
  refine ⟨⟨wall ++ [last], entry, ?_, rfl⟩, represents.metadata, represents.plain,
    represents.subscribed⟩
  change store.session ++ writeWall [entry] = _
  rw [log, ← writeWall_append]

/-- What the last event says to a restore. -/
theorem decideRestore_ok_iff (value : EventType) (now : Nat) :
    decideRestore value now = .ok () ↔
      ∃ expiration, offlineUntil value = some expiration ∧ now < expiration.toNat := by
  rw [decideRestore_eq_ok_iff]
  cases value <;> simp [offlineUntil]

/-- The subscriptions are returned in some order. -/
theorem Represents.listed (represents : Represents store spec) (iteration : IterationOrder) :
    ∃ subs, ClientStore.restoreSubscribed store.subscribed iteration = .ok subs ∧
      SessionSpec.Lists subs spec.wanted := by
  obtain ⟨map, read, same⟩ := represents.subscribed
  have faithful : ClientStore.Faithful ⟨store.subscribed, map⟩ :=
    ⟨(getSubscribed_bounds read).1, map, read, fun _ => rfl⟩
  obtain ⟨subs, restored, nodup, listed⟩ := faithful.restores iteration
  exact ⟨subs, restored, nodup, fun topic level => (listed topic level).trans (by rw [same])⟩

/-- A restore returns the session that can be restored, and refuses any other. -/
theorem Represents.restore (represents : Represents store spec) (readable : LogReadable store.session)
    (iteration : IterationOrder) (now : Nat) :
    (spec.Resumes now ∧ ∃ subs after, SessionStore.restore (some store) iteration now =
        .ok (⟨spec.settings, subs⟩, after) ∧ SessionSpec.Lists subs spec.wanted ∧
        Represents (store.afterRestore now) { spec with offline := none }) ∨
      (¬ spec.Resumes now ∧ (∃ error, SessionStore.restore (some store) iteration now = .err error) ∧
        store.afterRestore now = store) := by
  obtain ⟨wall, last, log, offline⟩ := represents.log
  have nonempty : wall ++ [last] ≠ [] := List.append_ne_nil_of_right_ne_nil _ (List.cons_ne_nil _ _)
  have aligned := (logReadable_iff nonempty).mp (log ▸ readable)
  have decides : restoreSession store.session now = decideRestore last.value now := by
    rw [log, restoreSession_of_aligned aligned nonempty, List.getLast_concat]
  have resumes := decideRestore_ok_iff last.value now
  rw [offline] at resumes
  cases decided : decideRestore last.value now with
  | ok value =>
    obtain ⟨subs, restored, listed⟩ := represents.listed iteration
    have metadata : SessionStore.restoreMetadata store.metadata = .ok spec.settings := by
      rw [represents.metadata]
      exact restoreMetadata_serialize represents.plain
    have session : restoreSession store.session now = .ok () := decides.trans decided
    refine .inl ⟨resumes.mp decided, subs, _,
      SessionStore.restore_of_parts session metadata restored, listed, ?_⟩
    rw [SessionStore.afterRestore, session]
    exact represents.logged ⟨UInt64.ofNat now, .clientRestored⟩
  | err error =>
    have session : restoreSession store.session now = .err error := decides.trans decided
    refine .inr ⟨fun again => ?_, ⟨error, ?_⟩, ?_⟩
    · have went := resumes.mpr again
      rw [decided] at went
      cases went
    · rw [SessionStore.restore, session]
      rfl
    · rw [SessionStore.afterRestore, session]
  | panic => exact absurd decided (decideRestore_ne_panic last.value now)

theorem represents_new (mdata : MetaData) (plain : mdata.userProperties = []) (now : Nat) :
    Represents (SessionStore.new mdata now) ⟨mdata, PartialMap.empty, none⟩ :=
  ⟨⟨[], ⟨UInt64.ofNat now, .clientCreated⟩, rfl, rfl⟩, rfl, plain, [], rfl, fun _ => rfl⟩

theorem offlineUntil_endEvent (expiration : UInt64) (byServer : Bool) :
    offlineUntil (endEvent expiration byServer) = some expiration := by
  cases byServer <;> rfl

end Steps

/-- A guarded call is a step of the session. -/
theorem Holds.step {store after : Option SessionStore} {spec : Option SessionSpec} {call : SessionCall}
    {said : SessionEvent} (holds : Holds store spec) (guarded : Guarded store call)
    (performed : perform store call = some (said, after)) :
    ∃ onward, SessionSpec.Step spec said onward ∧ Holds after onward := by
  cases call with
  | create keepAlive exprInterval protocolLevel limit now =>
    cases performed
    exact ⟨_, .created, represents_new _ rfl now⟩
  | subscribe topics iteration =>
    cases store with
    | none => cases performed
    | some store =>
      cases spec with
      | none => exact holds.elim
      | some spec =>
        obtain ⟨subscribed, stored, represents⟩ :=
          Represents.subscribe holds topics iteration (guarded store rfl)
        simp only [perform, Option.map_some, stored, Option.some.injEq, Prod.mk.injEq] at performed
        obtain ⟨rfl, rfl⟩ := performed
        exact ⟨_, .subscribed, represents⟩
  | unsubscribe topics iteration =>
    cases store with
    | none => cases performed
    | some store =>
      cases spec with
      | none => exact holds.elim
      | some spec =>
        obtain ⟨subscribed, stored, represents⟩ := Represents.unsubscribe holds topics iteration
        simp only [perform, Option.map_some, stored, Option.some.injEq, Prod.mk.injEq] at performed
        obtain ⟨rfl, rfl⟩ := performed
        exact ⟨_, .unsubscribed, represents⟩
  | disconnect time expiration byServer =>
    cases store with
    | none => cases performed
    | some store =>
      cases spec with
      | none => exact holds.elim
      | some spec =>
        cases performed
        have logged := Represents.logged holds ⟨time, endEvent expiration byServer⟩
        rw [offlineUntil_endEvent] at logged
        exact ⟨_, .disconnected, logged⟩
  | restore iteration now =>
    cases store with
    | none =>
      cases spec with
      | none =>
        cases performed
        exact ⟨none, .missing, trivial⟩
      | some spec => exact holds.elim
    | some store =>
      cases spec with
      | none => exact holds.elim
      | some spec =>
        rcases Represents.restore holds (guarded store rfl) iteration now with
          ⟨resumes, subs, left, restored, listed, represents⟩ | ⟨stays, ⟨error, refused⟩, same⟩
        · simp only [perform, Option.map_some, restored, Option.some.injEq, Prod.mk.injEq]
            at performed
          obtain ⟨rfl, rfl⟩ := performed
          exact ⟨_, .restored resumes listed, represents⟩
        · simp only [perform, Option.map_some, refused, same, Option.some.injEq, Prod.mk.injEq]
            at performed
          obtain ⟨rfl, rfl⟩ := performed
          exact ⟨_, .refused stays, holds⟩

/-- A restore that is refused leaves the directory as it is. -/
theorem Holds.refused {store : Option SessionStore} {spec : Option SessionSpec}
    {iteration : IterationOrder} {now : Nat} (holds : Holds store spec)
    (guarded : Guarded store (.restore iteration now))
    (said : event store (.restore iteration now) = some (.refused now)) :
    perform store (.restore iteration now) = some (.refused now, store) := by
  cases store with
  | none => rfl
  | some store =>
    cases spec with
    | none => exact holds.elim
    | some spec =>
      rcases Represents.restore holds (guarded store rfl) iteration now with
        ⟨_, subs, left, restored, _⟩ | ⟨_, ⟨error, refused⟩, same⟩
      · simp [event, perform, restored] at said
      · simp only [perform, refused, Option.map_some, same]

theorem simulation : System.Simulation system SessionSpec.system Guarded event Holds where
  initial valid := by
    rw [valid]
    exact ⟨none, rfl, trivial⟩
  step := by
    intro store call next spec holds guarded stepped
    obtain ⟨⟨said, after⟩, performed, rfl⟩ := Option.map_eq_some_iff.mp stepped
    obtain ⟨onward, transition, still⟩ := holds.step guarded performed
    exact .inr ⟨said, onward, by rw [event, performed]; rfl, transition, still⟩

/-- Guarded calls keep a session in the directory. -/
theorem holds_invariant :
    system.GuardedInvariant Guarded fun store => ∃ spec, Holds store spec where
  initial valid := by
    rw [valid]
    exact ⟨none, trivial⟩
  preserved holds guarded stepped := by
    obtain ⟨spec, holds⟩ := holds
    obtain ⟨⟨said, after⟩, performed, rfl⟩ := Option.map_eq_some_iff.mp stepped
    obtain ⟨onward, _, still⟩ := holds.step guarded performed
    exact ⟨onward, still⟩

/-- In every history of guarded calls the directory is the session that is meant: no call
aborts, a restore succeeds exactly from a disconnection until its expiry and returns the
settings of the creation and the subscriptions of all requests since, one that is refused leaves
the directory as it is, and no disconnection is used for two restores. -/
theorem session_refines {trail : List (Option SessionStore × SessionCall)}
    {store : Option SessionStore} (run : system.Run trail store)
    (guarded : System.Run.AllSteps Guarded trail) :
    ∃ history spec, SessionSpec.system.Run history spec ∧
      history.map Prod.snd = System.emitted event trail ∧ Holds store spec ∧
      (∀ {before iteration now}, (before, .restore iteration now) ∈ trail →
        event before (.restore iteration now) = some (.refused now) →
        perform before (.restore iteration now) = some (.refused now, before)) ∧
      (System.emitted event trail).countP SessionEvent.restores ≤
        (System.emitted event trail).countP SessionEvent.disconnects := by
  obtain ⟨history, spec, abstract, labels, holds⟩ := simulation.of_run run guarded
  refine ⟨history, spec, abstract, labels, holds, fun listed said => ?_, ?_⟩
  · obtain ⟨own, there⟩ := (holds_invariant.allStates run guarded).1 _ listed
    exact there.refused (guarded _ listed) said
  · rw [← labels]
    exact (Nat.le_add_right _ _).trans (SessionSpec.restored_le_disconnected abstract)

/-- A session that subscribes to one topic, is left behind and restored, and not once more. -/
theorem session_refines_once :
    let topic : Str := ⟨[0x74], by decide⟩
    let calls : List SessionCall := [.create 60 100 5 ⟨none, none, none⟩ 0,
      .subscribe [⟨topic, .qos1⟩] .listed, .disconnect 90 200 false, .restore .listed 150,
      .restore .listed 160]
    let trail := System.trailOf (fun store call => (perform store call).map Prod.snd) none calls
    ∃ history spec dir, SessionSpec.system.Run history spec ∧
      history.map Prod.snd = System.emitted event trail ∧
      (System.emitted event trail).countP SessionEvent.restores = 1 ∧
      perform (some dir) (.restore .listed 160) = some (.refused 160, some dir) := by
  intro topic calls trail
  have ran : ((System.execute (fun store call => (perform store call).map Prod.snd) none
      calls).map Option.isSome) = some true := by
    decide
  obtain ⟨store, executed, _⟩ := Option.map_eq_some_iff.mp ran
  have guarded : System.Run.AllSteps Guarded (System.trailOf
      (fun store call => (perform store call).map Prod.snd) none calls) := by
    rintro entry (_ | ⟨_, _ | ⟨_, _ | ⟨_, _ | ⟨_, _ | ⟨_, impossible⟩⟩⟩⟩⟩)
    · trivial
    · rintro dir same map read
      cases same
      cases read
      exact ⟨by decide, by decide⟩
    · trivial
    · rintro dir same
      cases same
      exact ⟨[⟨0, .clientCreated⟩, ⟨90, .clientDisconnected 200⟩], List.cons_ne_nil _ _, rfl,
        aligned_of_short (by decide)⟩
    · rintro dir same
      cases same
      exact ⟨[⟨0, .clientCreated⟩, ⟨90, .clientDisconnected 200⟩, ⟨150, .clientRestored⟩],
        List.cons_ne_nil _ _, rfl, aligned_of_short (by decide)⟩
    · cases impossible
  obtain ⟨history, spec, run, labels, _, refused, _⟩ :=
    session_refines (System.run_of_execute executed) guarded
  have restores : (System.emitted event trail).countP SessionEvent.restores = 1 := by decide
  have last : ∃ dir, trail[4]? = some (some dir, .restore .listed 160) := ⟨_, rfl⟩
  obtain ⟨dir, last⟩ := last
  refine ⟨history, spec, dir, run, labels, restores, refused (List.mem_of_getElem? last) ?_⟩
  cases last
  rfl

end SessionCall
end Sipusu.MessageBroker
