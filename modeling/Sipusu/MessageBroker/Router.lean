import Sipusu.Ds.TrieMap
import Sipusu.MessageBroker.Client.Clobj
import Sipusu.Protocol.V5.Subsack
import Sipusu.Protocol.V5.Subscribe

/-!
# The topic router

`src/message_broker/router.rs`. `subscribe` grants every topic of a request and
does not look at what the trie's insertion answers, so a topic that is already
bound is granted as well and stays bound to whoever came first.
-/

namespace Sipusu.MessageBroker

open Sipusu.Foundation Sipusu.Ds Sipusu.Protocol.V5

/-- `struct SubscriberInstance`. -/
structure SubscriberInstance where
  clid : ClientID
  maxQos : ServiceLevel
deriving DecidableEq

instance : PartialEq SubscriberInstance where
  eq left right := PartialEq.eq left.clid right.clid
  ne left right := !PartialEq.eq left.clid right.clid

instance : LawfulPartialEq SubscriberInstance where
  ne_eq_not_eq _ _ := rfl

/-- `RouterTree`. -/
abbrev RouterTree := Trie SubscriberInstance

namespace RouterTree

/-- `TopicRouter::subscribe` from the result vector `res` on. -/
def subscribeLoop (router : RouterTree) (clid : ClientID) (res : List SubAckResult) :
    List Subscribe → Option (Except Malformed (List SubAckResult) × RouterTree)
  | [] => some (.ok res, router)
  | sub :: rest => do
      let (_, router) ← router.insert sub.topic { clid, maxQos := sub.maxQos }
      subscribeLoop router clid (res ++ [.ok sub.maxQos]) rest

/-- `TopicRouter::subscribe`. -/
def subscribe (router : RouterTree) (clid : ClientID) (subs : List Subscribe) :
    Option (Except Malformed (List SubAckResult) × RouterTree) :=
  router.subscribeLoop clid [] subs

/-- `TopicRouter::route`. -/
def route (router : RouterTree) (topic : Str) : Option SubscriberInstance := router.getVal topic

/-- What a request does to the bindings: each topic in turn, if it is still free. -/
def bindAll (clid : ClientID) (subs : List Subscribe) (map : PartialMap Str SubscriberInstance) :
    PartialMap Str SubscriberInstance :=
  subs.foldl (fun map sub => (map.insertNew sub.topic { clid, maxQos := sub.maxQos }).2) map

theorem subscribeLoop_spec {router : RouterTree} (intact : router.Intact) (clid : ClientID)
    (res : List SubAckResult) (subs : List Subscribe) :
    ∃ after, router.subscribeLoop clid res subs =
        some (.ok (res ++ subs.map fun sub => .ok sub.maxQos), after) ∧
      after.Intact ∧ after.getVal = bindAll clid subs router.getVal := by
  induction subs generalizing router res with
  | nil => exact ⟨router, by simp [subscribeLoop], intact, rfl⟩
  | cons sub rest inductionHypothesis =>
    obtain ⟨middle, inserted, middleIntact, values⟩ :=
      Trie.insert_spec intact sub.topic { clid, maxQos := sub.maxQos }
    obtain ⟨after, looped, afterIntact, afterValues⟩ :=
      inductionHypothesis middleIntact (res ++ [.ok sub.maxQos])
    refine ⟨after, ?_, afterIntact, ?_⟩
    · simp [subscribeLoop, inserted, looped]
    · rw [afterValues, values]
      rfl

/-- A request is always granted in full, and binds the topics that were free. -/
theorem subscribe_spec {router : RouterTree} (intact : router.Intact) (clid : ClientID)
    (subs : List Subscribe) :
    ∃ after, router.subscribe clid subs =
        some (.ok (subs.map fun sub => .ok sub.maxQos), after) ∧
      after.Intact ∧ after.getVal = bindAll clid subs router.getVal :=
  subscribeLoop_spec intact clid [] subs

/-- A client asks for one topic. -/
abbrev Request := ClientID × Subscribe

/-- Calls of `subscribe` one after another, with their results. -/
def run (router : RouterTree) : List (ClientID × List Subscribe) →
    Option (List (Except Malformed (List SubAckResult)) × RouterTree)
  | [] => some ([], router)
  | (clid, subs) :: rest => do
      let (reply, router) ← router.subscribe clid subs
      let (replies, router) ← run router rest
      some (reply :: replies, router)

/-- The single requests of a history of calls. -/
def requests (calls : List (ClientID × List Subscribe)) : List Request :=
  calls.flatMap fun call => call.2.map fun sub => (call.1, sub)

/-- The result entries of a history, each beside the client and the topic it is for. -/
def entries (calls : List (ClientID × List Subscribe))
    (replies : List (Except Malformed (List SubAckResult))) :
    List (ClientID × Str × SubAckResult) :=
  (calls.zip replies).flatMap fun call =>
    match call.2 with
    | .ok results => (call.1.2.zip results).map fun entry => (call.1.1, entry.1.topic, entry.2)
    | .error _ => []

/-- The latest entry returned to a client for a topic. -/
def latest (entries : List (ClientID × Str × SubAckResult)) (clid : ClientID) (topic : Str) :
    Option SubAckResult :=
  ((entries.filter fun entry => entry.1 = clid ∧ entry.2.1 = topic).getLast?).map fun entry =>
    entry.2.2

/-- The requests for one topic. -/
def onTopic (topic : Str) (requests : List Request) : List Request :=
  requests.filter fun request => request.2.topic = topic

/-- No topic is asked for by two clients. -/
def SoleSubscriber (requests : List Request) : Prop :=
  ∀ left ∈ requests, ∀ right ∈ requests, left.2.topic = right.2.topic → left.1 = right.1

/-- The last request for a topic asks for the level of the first. -/
def SteadyQos (requests : List Request) : Prop :=
  ∀ topic, ((onTopic topic requests).getLast?).map (fun request => request.2.maxQos) =
    ((onTopic topic requests).head?).map fun request => request.2.maxQos

/-- The instance a request would store. -/
def Request.instance (request : Request) : SubscriberInstance := ⟨request.1, request.2.maxQos⟩

theorem requests_cons (call : ClientID × List Subscribe) (rest : List (ClientID × List Subscribe)) :
    requests (call :: rest) = call.2.map (fun sub => (call.1, sub)) ++ requests rest := rfl

theorem onTopic_append (topic : Str) (left right : List Request) :
    onTopic topic (left ++ right) = onTopic topic left ++ onTopic topic right := by
  simp [onTopic]

/-- A topic stays bound to its first request. -/
theorem bindAll_eq (clid : ClientID) (subs : List Subscribe)
    (map : PartialMap Str SubscriberInstance) (topic : Str) :
    bindAll clid subs map topic =
      (map topic).or (((onTopic topic (subs.map fun sub => (clid, sub))).head?).map
        Request.instance) := by
  induction subs generalizing map with
  | nil => simp [bindAll, onTopic]
  | cons sub rest inductionHypothesis =>
    have step := inductionHypothesis (map.insertNew sub.topic ⟨clid, sub.maxQos⟩).2
    rw [PartialMap.insertNew_snd] at step
    change bindAll clid rest _ topic = _
    rw [step]
    by_cases same : topic = sub.topic
    · subst same
      cases bound : map sub.topic with
      | none => simp [onTopic, Request.instance]
      | some current => simp
    · have other : ¬ sub.topic = topic := Ne.symm same
      simp [same, other, onTopic]

theorem run_spec {router : RouterTree} (intact : router.Intact)
    (calls : List (ClientID × List Subscribe)) :
    ∃ after, router.run calls =
        some (calls.map fun call => .ok (call.2.map fun sub => .ok sub.maxQos), after) ∧
      after.Intact ∧ ∀ topic, after.route topic =
        (router.route topic).or (((onTopic topic (requests calls)).head?).map Request.instance) := by
  induction calls generalizing router with
  | nil => exact ⟨router, rfl, intact, fun topic => by simp [requests, onTopic]⟩
  | cons call rest inductionHypothesis =>
    obtain ⟨middle, granted, middleIntact, values⟩ := subscribe_spec intact call.1 call.2
    obtain ⟨after, ran, afterIntact, routes⟩ := inductionHypothesis middleIntact
    refine ⟨after, ?_, afterIntact, fun topic => ?_⟩
    · simp [run, granted, ran]
    · rw [routes, route, values, bindAll_eq, Option.or_assoc, requests_cons, onTopic_append,
        List.head?_append, Option.map_or, route]

/-- The entries of a history say `Ok` to every request with the level it asked for. -/
theorem entries_granted (calls : List (ClientID × List Subscribe)) :
    entries calls (calls.map fun call => .ok (call.2.map fun sub => .ok sub.maxQos)) =
      (requests calls).map fun request => (request.1, request.2.topic, .ok request.2.maxQos) := by
  have granted : ∀ subs : List Subscribe,
      subs.zip (subs.map fun sub => (.ok sub.maxQos : SubAckResult)) =
        subs.map fun sub => (sub, .ok sub.maxQos) := by
    intro subs
    induction subs with
    | nil => rfl
    | cons sub rest inductionHypothesis => simp [inductionHypothesis]
  induction calls with
  | nil => rfl
  | cons call rest inductionHypothesis =>
    simp only [entries, List.map_cons, List.zip_cons_cons, List.flatMap_cons, granted] at *
    rw [inductionHypothesis, requests_cons]
    simp

/-- The latest entry is the level last asked for. -/
theorem latest_granted (requests : List Request) (clid : ClientID) (topic : Str) :
    latest (requests.map fun request => (request.1, request.2.topic, .ok request.2.maxQos)) clid
        topic =
      (((onTopic topic requests).filter fun request => request.1 = clid).getLast?).map
        fun request => .ok request.2.maxQos := by
  simp [latest, onTopic, List.filter_map, List.getLast?_map, Function.comp_def]

/-- Every latest `Ok` entry of a client for a topic is what the topic routes to. -/
def EveryGrantEffective (calls : List (ClientID × List Subscribe))
    (replies : List (Except Malformed (List SubAckResult))) (router : RouterTree) : Prop :=
  ∀ clid topic level, latest (entries calls replies) clid topic = some (.ok level) →
    router.route topic = some { clid, maxQos := level }

/-- With one client on every topic, picking out its requests drops none. -/
theorem SoleSubscriber.filter_eq {requests : List Request} (sole : SoleSubscriber requests)
    {topic : Str} {request : Request} (member : request ∈ onTopic topic requests) :
    ((onTopic topic requests).filter fun other => other.1 = request.1) = onTopic topic requests := by
  simp only [onTopic, List.mem_filter, decide_eq_true_eq] at member
  rw [List.filter_eq_self]
  intro other otherMember
  simp only [onTopic, List.mem_filter, decide_eq_true_eq] at otherMember
  exact decide_eq_true (sole other otherMember.1 request member.1
    (otherMember.2.trans member.2.symm))

/-- Grants are effective exactly when no topic is asked for by two clients and no
client ends up asking for another level than it first asked for. -/
theorem grants_effective_iff (calls : List (ClientID × List Subscribe)) :
    ∃ replies router, run Trie.new calls = some (replies, router) ∧
      (EveryGrantEffective calls replies router ↔
        SoleSubscriber (requests calls) ∧ SteadyQos (requests calls)) := by
  obtain ⟨router, ran, _, routes⟩ := run_spec Trie.intact_new calls
  refine ⟨_, router, ran, ?_⟩
  have unbound : ∀ topic, route Trie.new topic = none := fun topic =>
    (Trie.getVal_eq rfl Child.distinct_new topic).trans (Child.valueAt_new _)
  simp only [unbound, Option.none_or] at routes
  simp only [EveryGrantEffective, entries_granted, latest_granted, routes, Option.map_eq_some_iff]
  generalize requests calls = requests
  constructor
  · intro effective
    have sole : SoleSubscriber requests := by
      have holder : ∀ request ∈ requests, ∃ first,
          (onTopic request.2.topic requests).head? = some first ∧ first.1 = request.1 := by
        intro request member
        have mine : request ∈ (onTopic request.2.topic requests).filter
            fun other => other.1 = request.1 := by simp [onTopic, member]
        obtain ⟨last, isLast⟩ := Option.isSome_iff_exists.mp
          (List.getLast?_isSome.mpr (List.ne_nil_of_mem mine))
        obtain ⟨first, isFirst, same⟩ := effective _ _ _ ⟨last, isLast, rfl⟩
        exact ⟨first, isFirst, congrArg SubscriberInstance.clid same⟩
      rintro left leftIn right rightIn sameTopic
      obtain ⟨first, isFirst, leftHolds⟩ := holder left leftIn
      obtain ⟨again, isAgain, rightHolds⟩ := holder right rightIn
      rw [sameTopic, isAgain, Option.some.injEq] at isFirst
      rw [← leftHolds, ← rightHolds, isFirst]
    refine ⟨sole, fun topic => ?_⟩
    rcases List.eq_nil_or_concat (onTopic topic requests) with empty | ⟨others, last, concat⟩
    · simp [empty]
    · have isLast : (onTopic topic requests).getLast? = some last := by simp [concat]
      have member : last ∈ onTopic topic requests := List.mem_of_getLast? isLast
      obtain ⟨first, isFirst, same⟩ := effective last.1 topic last.2.maxQos
        ⟨last, by rw [sole.filter_eq member, isLast], rfl⟩
      rw [isLast, isFirst]
      exact congrArg some (congrArg SubscriberInstance.maxQos same).symm
  · rintro ⟨sole, steady⟩ clid topic level ⟨last, isLast, sameLevel⟩
    have mine := List.mem_of_getLast? isLast
    simp only [List.mem_filter, decide_eq_true_eq] at mine
    obtain ⟨member, rfl⟩ := mine
    rw [sole.filter_eq member] at isLast
    have levels := steady topic
    rw [isLast, Option.map_some, eq_comm, Option.map_eq_some_iff] at levels
    obtain ⟨first, isFirst, firstLevel⟩ := levels
    refine ⟨first, isFirst, ?_⟩
    have firstIn : first ∈ onTopic topic requests := List.mem_of_head? isFirst
    simp only [onTopic, List.mem_filter, decide_eq_true_eq] at member firstIn
    have sameClient := sole first firstIn.1 last member.1 (firstIn.2.trans member.2.symm)
    simp only [Except.ok.injEq] at sameLevel
    simp [Request.instance, sameClient, firstLevel, sameLevel]

/-- A second client is granted a topic that the first one keeps. -/
theorem grant_without_effect :
    let topic : Str := ⟨[0x74], by decide⟩
    let a : ClientID := .new ⟨[0x61], by decide⟩
    let b : ClientID := .new ⟨[0x62], by decide⟩
    let calls := [(a, [⟨topic, .qos0⟩]), (b, [⟨topic, .qos1⟩])]
    ∃ replies router, run Trie.new calls = some (replies, router) ∧
      latest (entries calls replies) b topic = some (.ok .qos1) ∧
      router.route topic = some ⟨a, .qos0⟩ ∧ ¬ EveryGrantEffective calls replies router := by
  intro topic a b calls
  obtain ⟨router, ran, _, routes⟩ := run_spec Trie.intact_new calls
  have unbound : route Trie.new topic = none :=
    (Trie.getVal_eq rfl Child.distinct_new topic).trans (Child.valueAt_new _)
  have different : a ≠ b := by
    intro same
    have sameId : a.id = b.id := congrArg ClientID.id same
    revert sameId
    decide
  have routed : router.route topic = some ⟨a, .qos0⟩ := by
    rw [routes, unbound]
    rfl
  have granted : latest (entries calls
      (calls.map fun call => .ok (call.2.map fun sub => .ok sub.maxQos))) b topic =
        some (.ok .qos1) := by
    rw [entries_granted, latest_granted]
    simp [calls, requests, onTopic, different]
  refine ⟨_, router, ran, granted, routed, fun effective => ?_⟩
  have selected := effective b topic .qos1 granted
  rw [routed, Option.some.injEq, SubscriberInstance.mk.injEq] at selected
  exact different selected.1

end RouterTree
end Sipusu.MessageBroker
