import Sipusu.MessageBroker.Client.Storage
import Sipusu.MessageBroker.Router

/-!
# What a request asks for

A request may ask for several levels on one topic. The router is bound to the first of them,
the subscription file to the last.
-/

namespace Sipusu.MessageBroker

open Sipusu.Foundation Sipusu.Ds Sipusu.Protocol.V5

/-- The sizes of the records only depend on the topics. -/
theorem recordsSize_eq_keys (entries : Subscriptions) :
    recordsSize entries = ((Assoc.keys entries).map fun topic => 2 + topic.len).sum := by
  simp [recordsSize, Assoc.keys, Function.comp_def]

/-- Whether a file can hold a map only depends on its topics. -/
theorem Storable.of_keys {left right : Subscriptions} (leftNodup : (Assoc.keys left).Nodup)
    (rightNodup : (Assoc.keys right).Nodup)
    (sameKeys : ∀ topic, topic ∈ Assoc.keys left ↔ topic ∈ Assoc.keys right)
    (storable : Storable right) : Storable left where
  unbroken topic member := storable.unbroken topic ((sameKeys topic).mp member)
  fits := by
    have perm : (Assoc.keys left).Perm (Assoc.keys right) :=
      (List.perm_ext_iff_of_nodup leftNodup rightNodup).mpr sameKeys
    rw [recordsSize_eq_keys, (perm.map _).sum_nat, ← recordsSize_eq_keys]
    exact storable.fits

/-- The levels a request asks for on one topic, in its order. -/
def asked (topic : Str) (list : List Subscribe) : List ServiceLevel :=
  (list.filter fun sub => sub.topic = topic).map Subscribe.maxQos

theorem asked_eq_nil_iff {topic : Str} {list : List Subscribe} :
    asked topic list = [] ↔ topic ∉ list.map Subscribe.topic := by
  simp [asked]

theorem asked_ne_nil {topic : Str} {list : List Subscribe}
    (member : topic ∈ list.map Subscribe.topic) : asked topic list ≠ [] :=
  fun empty => asked_eq_nil_iff.mp empty member

/-- A file is bound to the last level asked for. -/
theorem get_bindTopics (wanted : Subscriptions) (list : List Subscribe) (topic : Str) :
    Assoc.get topic (bindTopics wanted list) =
      (asked topic list).getLast?.or (Assoc.get topic wanted) := by
  induction list generalizing wanted with
  | nil => rfl
  | cons sub rest inductionHypothesis =>
    have step := inductionHypothesis (Assoc.insert sub.topic sub.maxQos wanted)
    change Assoc.get topic (bindTopics _ rest) = _
    rw [step]
    by_cases same : sub.topic = topic
    · subst same
      simp only [Assoc.get_insert_self, asked, List.filter_cons_of_pos, decide_true, List.map_cons,
        List.getLast?_cons]
      cases (List.map Subscribe.maxQos (rest.filter fun other => other.topic = sub.topic)).getLast? <;>
        rfl
    · rw [Assoc.get_insert_ne (Ne.symm same)]
      simp [asked, same]

namespace RouterTree

/-- The router is bound to the first level asked for, unless the topic was bound. -/
theorem bindAll_eq_asked (clid : ClientID) (list : List Subscribe)
    (map : PartialMap Str SubscriberInstance) (topic : Str) :
    bindAll clid list map topic =
      (map topic).or ((asked topic list).head?.map fun maxQos => ⟨clid, maxQos⟩) := by
  rw [bindAll_eq]
  congr 1
  simp only [onTopic, asked, List.filter_map, List.head?_map, Option.map_map, Function.comp_def,
    Request.instance]

end RouterTree

end Sipusu.MessageBroker
