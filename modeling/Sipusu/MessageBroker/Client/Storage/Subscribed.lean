import Sipusu.Foundation.Assoc
import Sipusu.Foundation.Runs
import Sipusu.Protocol.V5.Subscribe

/-!
# The subscription file

The `subscribed` part of `src/message_broker/client/storage.rs`. A record is an
octet for the level, the topic and a newline. Every call reads the file into a
map, changes the map and writes all of it back. The reader's buffer is empty
after its first 1024 octets, so it never sees the rest of a longer file.
-/

namespace Sipusu.MessageBroker

open Sipusu.Foundation Sipusu.Protocol.V5

/-- The map that `get_subscribed` fills. -/
abbrev Subscriptions := List (Str × ServiceLevel)

/-- A way to iterate over a hash map. -/
structure IterationOrder where
  order : Subscriptions → Subscriptions
  perm : ∀ map, (order map).Perm map

/-- The order of the list that stands for the map. -/
def IterationOrder.listed : IterationOrder := ⟨id, .refl⟩

/-- The error for a topic that is not UTF-8, up to the position its text names. -/
def invalidTopic : IoError := ⟨.invalidData, "invalid utf-8 sequence"⟩

def invalidQos : IoError := ⟨.invalidData, "Invalid QoS"⟩

/-- The octets before the next newline, and those behind it. -/
def splitRecord : Bytes → Option (Bytes × Bytes)
  | [] => none
  | byte :: rest =>
      if byte = 0x0A then some ([], rest)
      else (splitRecord rest).map fun split => (byte :: split.1, split.2)

/-- The `for` loop of `get_subscribed` over what one read returned, from a record's
start on. A newline in the place of the level makes the topic's slice end before it
starts. -/
def readRecords : Nat → Subscriptions → Bytes → Outcome IoError Subscriptions
  | 0, map, _ => .ok map
  | fuel + 1, map, buffer =>
      match splitRecord buffer with
      | none => .ok map
      | some ([], _) => .panic
      | some (level :: topic, rest) =>
          match Str.fromUtf8? topic, ServiceLevel.tryFrom level with
          | none, _ => .err invalidTopic
          | some _, none => .err invalidQos
          | some k, some v => readRecords fuel (Assoc.insert k v map) rest

/-- The length of the buffer of `get_subscribed`. -/
def subscribedBuffer : Nat := 1024

/-- The `while` loop of `get_subscribed`, with the length of the buffer that is left.
`reserve` makes room behind the buffer but does not lengthen it. -/
def getSubscribedLoop : Nat → Nat → Subscriptions → Bytes → Outcome IoError Subscriptions
  | 0, _, map, _ => .ok map
  | fuel + 1, length, map, file => do
      let n := min length file.length
      if n = 0 then return map
      let map ← readRecords n map (file.take n)
      if n ≠ subscribedBuffer then return map
      getSubscribedLoop fuel (length - n) map (file.drop n)

/-- `get_subscribed`, on the content of the file. -/
def getSubscribed (file : Bytes) : Outcome IoError Subscriptions :=
  getSubscribedLoop (subscribedBuffer + 1) subscribedBuffer [] file

/-- One record of `write_subscribed`. -/
def record (entry : Str × ServiceLevel) : Bytes := entry.2.code :: entry.1.bytes ++ [0x0A]

/-- What `write_subscribed` writes, for the entries in the order it meets them. -/
def writeSubscribed (entries : Subscriptions) : Bytes := entries.flatMap record

/-- One turn of the loop of `ClientStore::subscribe`. -/
def mergeTopic (map : Subscriptions) (sub : Subscribe) : Subscriptions :=
  match Assoc.get sub.topic map with
  | some v => if sub.maxQos ≠ v then Assoc.set sub.topic sub.maxQos map else map
  | none => Assoc.insert sub.topic sub.maxQos map

/-- The loop of `ClientStore::subscribe` over the topics of a request. -/
def mergeTopics (map : Subscriptions) (topics : List Subscribe) : Subscriptions :=
  topics.foldl mergeTopic map

/-- The loop of `ClientStore::unsubscribe`. -/
def removeTopics (map : Subscriptions) (topics : List Str) : Subscriptions :=
  topics.foldl (fun map topic => Assoc.remove topic map) map

namespace ClientStore

/-- `ClientStore::subscribe`: the file's new content. -/
def subscribe (file : Bytes) (topics : List Subscribe) (iteration : IterationOrder) :
    Outcome IoError Bytes := do
  let map ← getSubscribed file
  return writeSubscribed (iteration.order (mergeTopics map topics))

/-- `ClientStore::unsubscribe`: the file's new content. -/
def unsubscribe (file : Bytes) (topics : List Str) (iteration : IterationOrder) :
    Outcome IoError Bytes := do
  let map ← getSubscribed file
  return writeSubscribed (iteration.order (removeTopics map topics))

/-- The part of `ClientStore::restore` that reads the subscriptions. -/
def restoreSubscribed (file : Bytes) (iteration : IterationOrder) :
    Outcome IoError (List Subscribe) := do
  let map ← getSubscribed file
  return (iteration.order map).map fun entry => ⟨entry.1, entry.2⟩

end ClientStore

section Reading

/-- The octets the records of a map take. -/
def recordsSize (entries : Subscriptions) : Nat :=
  (entries.map fun entry => 2 + entry.1.len).sum

/-- What a subscription file can hold: topics without newlines, in at most one buffer. -/
structure Storable (entries : Subscriptions) : Prop where
  unbroken : ∀ topic ∈ Assoc.keys entries, 0x0A ∉ topic.bytes
  fits : recordsSize entries ≤ subscribedBuffer

theorem splitRecord_eq {buffer front rest : Bytes}
    (split : splitRecord buffer = some (front, rest)) :
    buffer = front ++ 0x0A :: rest ∧ 0x0A ∉ front := by
  induction buffer generalizing front with
  | nil => cases split
  | cons byte buffer inductionHypothesis =>
    simp only [splitRecord] at split
    split at split
    · simp only [Option.some.injEq, Prod.mk.injEq] at split
      obtain ⟨rfl, rfl⟩ := split
      exact ⟨by simp [*], List.not_mem_nil⟩
    · obtain ⟨⟨inner, left⟩, found, same⟩ := Option.map_eq_some_iff.mp split
      simp only [Prod.mk.injEq] at same
      obtain ⟨rfl, rfl⟩ := same
      obtain ⟨rfl, unbroken⟩ := inductionHypothesis found
      refine ⟨rfl, fun member => ?_⟩
      rcases List.mem_cons.mp member with same | later
      · exact absurd same.symm ‹_›
      · exact unbroken later

theorem splitRecord_append {front : Bytes} (unbroken : 0x0A ∉ front) (rest : Bytes) :
    splitRecord (front ++ 0x0A :: rest) = some (front, rest) := by
  induction front with
  | nil => rfl
  | cons byte front inductionHypothesis =>
    rw [List.mem_cons, not_or] at unbroken
    simp [splitRecord, Ne.symm unbroken.1, inductionHypothesis unbroken.2]

/-- A record of a topic without newlines ends where it was written to end. -/
theorem splitRecord_record {entry : Str × ServiceLevel} (unbroken : 0x0A ∉ entry.1.bytes)
    (rest : Bytes) :
    splitRecord (record entry ++ rest) = some (entry.2.code :: entry.1.bytes, rest) := by
  have single : 0x0A ∉ entry.2.code :: entry.1.bytes := by
    rw [List.mem_cons, not_or]
    exact ⟨by cases entry.2 <;> decide, unbroken⟩
  have line := splitRecord_append single rest
  rwa [List.append_cons, ← record] at line

theorem recordsSize_nil : recordsSize [] = 0 := rfl

theorem recordsSize_cons (entry : Str × ServiceLevel) (entries : Subscriptions) :
    recordsSize (entry :: entries) = 2 + entry.1.len + recordsSize entries := by
  simp [recordsSize]

theorem length_le_recordsSize (entries : Subscriptions) : entries.length ≤ recordsSize entries := by
  induction entries with
  | nil => exact Nat.le_refl _
  | cons entry rest inductionHypothesis =>
    rw [recordsSize_cons, List.length_cons]
    omega

theorem recordsSize_perm {left right : Subscriptions} (perm : left.Perm right) :
    recordsSize left = recordsSize right :=
  (perm.map _).sum_nat

theorem recordsSize_remove (topic : Str) (entries : Subscriptions) :
    recordsSize (Assoc.remove topic entries) ≤ recordsSize entries := by
  induction entries with
  | nil => exact Nat.le_refl _
  | cons entry rest inductionHypothesis =>
    obtain ⟨other, level⟩ := entry
    rw [Assoc.remove_cons, recordsSize_cons]
    split
    · omega
    · rw [recordsSize_cons]
      omega

theorem recordsSize_insert (topic : Str) (level : ServiceLevel) (entries : Subscriptions) :
    recordsSize (Assoc.insert topic level entries) ≤ 2 + topic.len + recordsSize entries := by
  have removed := recordsSize_remove topic entries
  rw [Assoc.insert, recordsSize_cons]
  exact Nat.add_le_add_left removed _

theorem keys_insert_unbroken {topic : Str} {level : ServiceLevel} {entries : Subscriptions}
    (unbroken : ∀ other ∈ Assoc.keys entries, 0x0A ∉ other.bytes) (single : 0x0A ∉ topic.bytes) :
    ∀ other ∈ Assoc.keys (Assoc.insert topic level entries), 0x0A ∉ other.bytes := by
  rintro other member
  rcases List.mem_cons.mp member with rfl | kept
  · exact single
  · obtain ⟨entry, isKept, rfl⟩ := List.mem_map.mp kept
    exact unbroken _ (List.mem_map_of_mem (List.mem_of_mem_filter isKept))

/-- What the loop over records has in its map when it returns: no topic with a newline,
and no more than the octets it was given. -/
theorem readRecords_bounds {fuel : Nat} {map final : Subscriptions} {buffer : Bytes}
    (nodup : (Assoc.keys map).Nodup) (unbroken : ∀ topic ∈ Assoc.keys map, 0x0A ∉ topic.bytes)
    (result : readRecords fuel map buffer = .ok final) :
    (Assoc.keys final).Nodup ∧ (∀ topic ∈ Assoc.keys final, 0x0A ∉ topic.bytes) ∧
      recordsSize final ≤ recordsSize map + buffer.length := by
  induction fuel generalizing map buffer with
  | zero =>
    cases result
    exact ⟨nodup, unbroken, Nat.le_add_right _ _⟩
  | succ fuel inductionHypothesis =>
    simp only [readRecords] at result
    split at result
    · cases result
      exact ⟨nodup, unbroken, Nat.le_add_right _ _⟩
    · cases result
    · rename_i level octets rest split
      obtain ⟨rfl, single⟩ := splitRecord_eq split
      cases topicRead : Str.fromUtf8? octets with
      | none => simp [topicRead] at result
      | some topic =>
        cases levelRead : ServiceLevel.tryFrom level with
        | none => simp [topicRead, levelRead] at result
        | some granted =>
          simp only [topicRead, levelRead] at result
          have isTopic : octets = topic.bytes := Str.fromUtf8?_eq_some.mp topicRead
          rw [List.mem_cons, not_or, isTopic] at single
          obtain ⟨finalNodup, finalUnbroken, size⟩ := inductionHypothesis
            (Assoc.keys_insert_nodup nodup) (keys_insert_unbroken unbroken single.2) result
          refine ⟨finalNodup, finalUnbroken, Nat.le_trans size ?_⟩
          have grown := recordsSize_insert topic granted map
          have octetsLength : octets.length = topic.len := by rw [isTopic, Str.len]
          simp only [List.length_append, List.length_cons, octetsLength]
          omega

/-- What ends without a newline is no record. -/
theorem splitRecord_of_unbroken {part : Bytes} (unbroken : 0x0A ∉ part) : splitRecord part = none := by
  induction part with
  | nil => rfl
  | cons byte part inductionHypothesis =>
    rw [List.mem_cons, not_or] at unbroken
    simp [splitRecord, Ne.symm unbroken.1, inductionHypothesis unbroken.2]

/-- The loop over records on a file of records, the last of which may be cut short. -/
theorem readRecords_write {entries : Subscriptions}
    (unbroken : ∀ topic ∈ Assoc.keys entries, 0x0A ∉ topic.bytes) {part : Bytes}
    (ended : 0x0A ∉ part) {fuel : Nat} (enough : entries.length ≤ fuel) (map : Subscriptions) :
    readRecords fuel map (writeSubscribed entries ++ part) =
      .ok (entries.foldl (fun map entry => Assoc.insert entry.1 entry.2 map) map) := by
  induction entries generalizing fuel map with
  | nil =>
    cases fuel with
    | zero => rfl
    | succ fuel =>
      rw [writeSubscribed, List.flatMap_nil, List.nil_append, readRecords,
        splitRecord_of_unbroken ended]
      rfl
  | cons entry rest inductionHypothesis =>
    obtain ⟨topic, level⟩ := entry
    obtain ⟨fuel, rfl⟩ : ∃ turns, fuel = turns + 1 := ⟨fuel - 1, by simp at enough; omega⟩
    have split : splitRecord (writeSubscribed ((topic, level) :: rest) ++ part) =
        some (level.code :: topic.bytes, writeSubscribed rest ++ part) := by
      rw [writeSubscribed, List.flatMap_cons, List.append_assoc]
      exact splitRecord_record (unbroken topic List.mem_cons_self) _
    simp only [readRecords, split, Str.fromUtf8?_bytes, ServiceLevel.tryFrom_code]
    exact inductionHypothesis (fun other member => unbroken other (List.mem_cons_of_mem _ member))
      (by simp at enough; omega) _

/-- Only the first buffer of a file is ever read. -/
theorem getSubscribed_eq (file : Bytes) :
    getSubscribed file =
      readRecords (file.take subscribedBuffer).length [] (file.take subscribedBuffer) := by
  have bufferSize : subscribedBuffer = 1024 := rfl
  have exhausted : ∀ fuel map rest, getSubscribedLoop fuel 0 map rest = .ok map := by
    intro fuel map rest
    cases fuel <;> simp [getSubscribedLoop]
  rw [getSubscribed, getSubscribedLoop, List.length_take]
  by_cases empty : min subscribedBuffer file.length = 0
  · have noFile : file.take subscribedBuffer = [] := List.length_eq_zero_iff.mp (by simpa using empty)
    simp [empty, readRecords]
  · simp only [empty, if_false]
    have same : file.take (min subscribedBuffer file.length) = file.take subscribedBuffer := by
      rw [← List.take_eq_take_min]
    rw [same]
    cases readRecords (min subscribedBuffer file.length) [] (file.take subscribedBuffer) with
    | ok map =>
      by_cases full : min subscribedBuffer file.length = subscribedBuffer
      · simp [full, exhausted]
      · simp [full]
    | err error => rfl
    | panic => rfl

theorem getSubscribed_bounds {file : Bytes} {map : Subscriptions}
    (result : getSubscribed file = .ok map) : (Assoc.keys map).Nodup ∧ Storable map := by
  rw [getSubscribed_eq] at result
  have noKeys : (Assoc.keys ([] : Subscriptions)).Nodup := List.nodup_nil
  obtain ⟨nodup, unbroken, size⟩ := readRecords_bounds noKeys (by simp [Assoc.keys]) result
  refine ⟨nodup, unbroken, Nat.le_trans size ?_⟩
  rw [recordsSize_nil, Nat.zero_add]
  exact List.length_take_le _ _

theorem length_writeSubscribed (entries : Subscriptions) :
    (writeSubscribed entries).length = recordsSize entries := by
  induction entries with
  | nil => rfl
  | cons entry rest inductionHypothesis =>
    rw [recordsSize_cons, ← inductionHypothesis]
    simp [writeSubscribed, record, Str.len]
    omega

/-- A written map reads back exactly when the file can hold it. -/
theorem getSubscribed_write_iff {entries : Subscriptions} (nodup : (Assoc.keys entries).Nodup) :
    (∃ map, getSubscribed (writeSubscribed entries) = .ok map ∧
      ∀ topic, Assoc.get topic map = Assoc.get topic entries) ↔ Storable entries := by
  constructor
  · rintro ⟨map, result, same⟩
    obtain ⟨mapNodup, unbroken, fits⟩ := getSubscribed_bounds result
    have perm := Assoc.perm_of_get mapNodup nodup same
    refine ⟨fun topic member => unbroken topic ?_, ?_⟩
    · exact (perm.map Prod.fst).mem_iff.mpr member
    · rw [← recordsSize_perm perm]
      exact fits
  · rintro ⟨unbroken, fits⟩
    have whole : (writeSubscribed entries).take subscribedBuffer = writeSubscribed entries := by
      rw [List.take_of_length_le]
      rw [length_writeSubscribed]
      exact fits
    have enough : entries.length ≤ (writeSubscribed entries).length := by
      rw [length_writeSubscribed]
      exact length_le_recordsSize entries
    have read := getSubscribed_eq (writeSubscribed entries)
    have records := readRecords_write unbroken List.not_mem_nil enough []
    rw [List.append_nil] at records
    rw [whole, records] at read
    refine ⟨_, read, fun topic => ?_⟩
    rw [Assoc.get_foldl_insert nodup]
    simp

/-- The first octets of what is written are the first records and a part of the next one. -/
theorem take_writeSubscribed {entries : Subscriptions}
    (unbroken : ∀ topic ∈ Assoc.keys entries, 0x0A ∉ topic.bytes) (count : Nat) :
    ∃ kept part, (writeSubscribed entries).take count = writeSubscribed kept ++ part ∧
      kept <+: entries ∧ 0x0A ∉ part := by
  induction entries generalizing count with
  | nil => exact ⟨[], [], List.take_nil, List.prefix_refl _, List.not_mem_nil⟩
  | cons entry rest inductionHypothesis =>
    obtain ⟨first, others⟩ := List.forall_mem_cons.mp unbroken
    rw [writeSubscribed, List.flatMap_cons, List.take_append]
    rcases Nat.lt_or_ge count (record entry).length with inside | past
    · refine ⟨[], (record entry).take count, ?_, List.nil_prefix, fun newline => ?_⟩
      · rw [Nat.sub_eq_zero_of_le inside.le, List.take_zero, List.append_nil, writeSubscribed,
          List.flatMap_nil, List.nil_append]
      · -- The newline is the record's last octet, which is not reached.
        rw [record, List.length_append, List.length_singleton] at inside
        rw [record, List.take_append_of_le_length (Nat.le_of_lt_succ inside)] at newline
        rcases List.mem_cons.mp (List.mem_of_mem_take newline) with same | inTopic
        · exact absurd same (by cases entry.2 <;> decide)
        · exact first inTopic
    · obtain ⟨kept, part, same, front, ended⟩ :=
        inductionHypothesis others (count - (record entry).length)
      refine ⟨entry :: kept, part, ?_, List.cons_prefix_cons.mpr ⟨rfl, front⟩, ended⟩
      rw [List.take_of_length_le past, ← writeSubscribed, same, writeSubscribed, writeSubscribed,
        List.flatMap_cons, List.append_assoc]

/-- A map of which only the first octets are written reads back as a part of it. -/
theorem getSubscribed_take_write {entries : Subscriptions} (nodup : (Assoc.keys entries).Nodup)
    (storable : Storable entries) (count : Nat) :
    ∃ map, getSubscribed ((writeSubscribed entries).take count) = .ok map ∧
      ∀ topic level, Assoc.get topic map = some level → Assoc.get topic entries = some level := by
  obtain ⟨kept, part, same, front, ended⟩ := take_writeSubscribed storable.unbroken count
  have keptKeys : (Assoc.keys kept).Sublist (Assoc.keys entries) := front.sublist.map _
  have size : ((writeSubscribed entries).take count).length ≤ subscribedBuffer :=
    (List.length_take_le' _ _).trans ((length_writeSubscribed entries).trans_le storable.fits)
  have enough : kept.length ≤ ((writeSubscribed entries).take count).length := by
    rw [same, List.length_append, length_writeSubscribed]
    exact (length_le_recordsSize kept).trans (Nat.le_add_right _ _)
  have read := getSubscribed_eq ((writeSubscribed entries).take count)
  rw [List.take_of_length_le size, same] at read
  rw [same] at enough
  rw [readRecords_write (fun topic member => storable.unbroken topic (keptKeys.subset member))
    ended enough] at read
  rw [same]
  refine ⟨_, read, fun topic level bound => ?_⟩
  rw [Assoc.get_foldl_insert (keptKeys.nodup nodup), Assoc.get_nil, Option.or_none,
    ← Assoc.mem_iff_get (keptKeys.nodup nodup)] at bound
  exact (Assoc.mem_iff_get nodup).mp (front.subset bound)

theorem Storable.of_perm {left right : Subscriptions} (perm : left.Perm right)
    (storable : Storable right) : Storable left where
  unbroken topic member := storable.unbroken topic ((perm.map Prod.fst).mem_iff.mp member)
  fits := by
    rw [recordsSize_perm perm]
    exact storable.fits

end Reading

section Merging

theorem get_mergeTopic (map : Subscriptions) (sub : Subscribe) (topic : Str) :
    Assoc.get topic (mergeTopic map sub) =
      Assoc.get topic (Assoc.insert sub.topic sub.maxQos map) := by
  unfold mergeTopic
  cases bound : Assoc.get sub.topic map with
  | none => rfl
  | some level =>
    by_cases same : topic = sub.topic
    · subst same
      by_cases changed : sub.maxQos = level
      · simp [changed, bound]
      · simp [changed, Assoc.get_set_self bound]
    · by_cases changed : sub.maxQos = level
      · simp [changed, same]
      · simp [changed, same]

theorem mergeTopic_nodup {map : Subscriptions} (nodup : (Assoc.keys map).Nodup) (sub : Subscribe) :
    (Assoc.keys (mergeTopic map sub)).Nodup := by
  unfold mergeTopic
  split
  · split
    · rw [Assoc.keys_set]
      exact nodup
    · exact nodup
  · exact Assoc.keys_insert_nodup nodup

theorem mergeTopics_nodup {map : Subscriptions} (nodup : (Assoc.keys map).Nodup)
    (topics : List Subscribe) : (Assoc.keys (mergeTopics map topics)).Nodup := by
  induction topics generalizing map with
  | nil => exact nodup
  | cons sub rest inductionHypothesis => exact inductionHypothesis (mergeTopic_nodup nodup sub)

/-- The topics of a request bound one after another, the last level of each counting. -/
def bindTopics (wanted : Subscriptions) (topics : List Subscribe) : Subscriptions :=
  topics.foldl (fun wanted sub => Assoc.insert sub.topic sub.maxQos wanted) wanted

theorem bindTopics_nodup {wanted : Subscriptions} (nodup : (Assoc.keys wanted).Nodup)
    (topics : List Subscribe) : (Assoc.keys (bindTopics wanted topics)).Nodup := by
  induction topics generalizing wanted with
  | nil => exact nodup
  | cons sub rest inductionHypothesis => exact inductionHypothesis (Assoc.keys_insert_nodup nodup)

/-- Merging a request into a map binds its topics. -/
theorem get_mergeTopics {map wanted : Subscriptions}
    (same : ∀ topic, Assoc.get topic map = Assoc.get topic wanted) (topics : List Subscribe) :
    ∀ topic, Assoc.get topic (mergeTopics map topics) =
      Assoc.get topic (bindTopics wanted topics) := by
  induction topics generalizing map wanted with
  | nil => exact same
  | cons sub rest inductionHypothesis =>
    apply inductionHypothesis
    intro topic
    rw [get_mergeTopic]
    by_cases mine : topic = sub.topic
    · simp [mine]
    · simp [mine, same]

theorem removeTopics_nodup {map : Subscriptions} (nodup : (Assoc.keys map).Nodup)
    (topics : List Str) : (Assoc.keys (removeTopics map topics)).Nodup :=
  Assoc.keys_foldl_remove_nodup nodup

theorem get_removeTopics {map wanted : Subscriptions}
    (same : ∀ topic, Assoc.get topic map = Assoc.get topic wanted) (topics : List Str) :
    ∀ topic, Assoc.get topic (removeTopics map topics) =
      Assoc.get topic (removeTopics wanted topics) := by
  intro topic
  rw [removeTopics, removeTopics, Assoc.get_foldl_remove, Assoc.get_foldl_remove, same]

end Merging

namespace ClientStore

/-- A call on the subscriptions of one session. -/
inductive Call where
  | subscribe (topics : List Subscribe) (iteration : IterationOrder)
  | unsubscribe (topics : List Str) (iteration : IterationOrder)

/-- What a call makes of the file. -/
def Call.run (file : Bytes) : Call → Outcome IoError Bytes
  | .subscribe topics iteration => ClientStore.subscribe file topics iteration
  | .unsubscribe topics iteration => ClientStore.unsubscribe file topics iteration

/-- What a call means for the subscriptions. -/
def Call.apply (wanted : Subscriptions) : Call → Subscriptions
  | .subscribe topics _ => bindTopics wanted topics
  | .unsubscribe topics _ => removeTopics wanted topics

/-- The file of a session, and the subscriptions that its calls so far amount to. -/
structure SessionFile where
  file : Bytes
  wanted : Subscriptions

/-- A call that fails leaves the file as it was. -/
def SessionFile.step (s : SessionFile) (call : Call) : SessionFile :=
  { file := (call.run s.file).toOption.getD s.file, wanted := call.apply s.wanted }

/-- A session from its creation, which makes an empty file. -/
def sessionFile : System SessionFile Call := .ofStep ⟨[], []⟩ fun s call => some (s.step call)

/-- A restore returns exactly the subscriptions of the session. -/
def Restores (s : SessionFile) : Prop :=
  ∀ iteration, ∃ subs, restoreSubscribed s.file iteration = .ok subs ∧
    (subs.map Subscribe.topic).Nodup ∧
    ∀ topic level, ⟨topic, level⟩ ∈ subs ↔ Assoc.get topic s.wanted = some level

/-- The condition on calls: the file can hold the subscriptions after it. -/
def Guarded (s : SessionFile) (call : Call) : Prop := Storable (call.apply s.wanted)

/-- The file reads as the subscriptions of the session. -/
structure Faithful (s : SessionFile) : Prop where
  nodup : (Assoc.keys s.wanted).Nodup
  reads : ∃ map, getSubscribed s.file = .ok map ∧
    ∀ topic, Assoc.get topic map = Assoc.get topic s.wanted

theorem Faithful.restores {s : SessionFile} (faithful : Faithful s) : Restores s := by
  obtain ⟨map, read, same⟩ := faithful.reads
  have mapNodup := (getSubscribed_bounds read).1
  intro iteration
  have perm := iteration.perm map
  refine ⟨_, by rw [restoreSubscribed, read]; rfl, ?_, fun topic level => ?_⟩
  · have topics : ((iteration.order map).map fun entry => (⟨entry.1, entry.2⟩ : Subscribe)).map
        Subscribe.topic = Assoc.keys (iteration.order map) := by
      simp [Assoc.keys, Function.comp_def]
    rw [topics]
    exact Assoc.keys_perm_nodup perm mapNodup
  · rw [← same, ← Assoc.mem_iff_get mapNodup, ← perm.mem_iff]
    simp

/-- A session whose restore is right has a file that reads as its subscriptions. -/
theorem Restores.reads {s : SessionFile} (restores : Restores s) :
    ∃ map, getSubscribed s.file = .ok map ∧
      ∀ topic, Assoc.get topic map = Assoc.get topic s.wanted := by
  obtain ⟨subs, restored, _, listed⟩ := restores .listed
  obtain ⟨map, read, isSubs⟩ := Outcome.bind_eq_ok.mp restored
  have mapNodup := (getSubscribed_bounds read).1
  refine ⟨map, read, fun topic => Option.ext fun level => ?_⟩
  simp only [Outcome.pure_eq, Outcome.ok.injEq] at isSubs
  rw [← listed, ← isSubs, ← Assoc.mem_iff_get mapNodup]
  simp [IterationOrder.listed]

/-- After a call on a faithful file, the file holds the new subscriptions in some
order. -/
theorem Faithful.step {s : SessionFile} (faithful : Faithful s) (call : Call) :
    ∃ entries, (s.step call).file = writeSubscribed entries ∧ (Assoc.keys entries).Nodup ∧
      (Assoc.keys (call.apply s.wanted)).Nodup ∧
      ∀ topic, Assoc.get topic entries = Assoc.get topic (call.apply s.wanted) := by
  obtain ⟨map, read, same⟩ := faithful.reads
  have mapNodup := (getSubscribed_bounds read).1
  have written : ∀ (iteration : IterationOrder) (changed : Subscriptions),
      (Assoc.keys changed).Nodup → (Assoc.keys (iteration.order changed)).Nodup ∧
        ∀ topic, Assoc.get topic (iteration.order changed) = Assoc.get topic changed :=
    fun iteration changed nodup => ⟨Assoc.keys_perm_nodup (iteration.perm changed) nodup,
      Assoc.get_perm (iteration.perm changed) nodup⟩
  cases call with
  | subscribe topics iteration =>
    obtain ⟨nodup, lookups⟩ := written iteration _ (mergeTopics_nodup mapNodup topics)
    refine ⟨iteration.order (mergeTopics map topics), ?_, nodup,
      bindTopics_nodup faithful.nodup topics, fun topic => ?_⟩
    · simp [SessionFile.step, Call.run, ClientStore.subscribe, read, Outcome.toOption]
    · rw [lookups, get_mergeTopics same]
      rfl
  | unsubscribe topics iteration =>
    obtain ⟨nodup, lookups⟩ := written iteration _ (removeTopics_nodup mapNodup topics)
    refine ⟨iteration.order (removeTopics map topics), ?_, nodup,
      removeTopics_nodup faithful.nodup topics, fun topic => ?_⟩
    · simp [SessionFile.step, Call.run, ClientStore.unsubscribe, read, Outcome.toOption]
    · rw [lookups, get_removeTopics same]
      rfl

/-- Guarded calls keep the file faithful, and any other call makes the next restore
wrong. -/
theorem exactGuard : sessionFile.ExactGuard Guarded Faithful Restores where
  initial valid := by
    rw [valid]
    exact ⟨List.nodup_nil, [], rfl, fun _ => rfl⟩
  preserved {s call next} faithful guarded stepped := by
    cases stepped
    obtain ⟨entries, file, nodup, wantedNodup, lookups⟩ := faithful.step call
    have storable : Storable entries := guarded.of_perm (Assoc.perm_of_get nodup wantedNodup lookups)
    obtain ⟨map, read, same⟩ := (getSubscribed_write_iff nodup).mpr storable
    refine ⟨wantedNodup, map, ?_, fun topic => (same topic).trans (lookups topic)⟩
    rw [file]
    exact read
  sound faithful := faithful.restores
  sharp {s call next} faithful unguarded stepped := by
    cases stepped
    obtain ⟨entries, file, nodup, wantedNodup, lookups⟩ := faithful.step call
    intro restores
    obtain ⟨map, read, same⟩ := restores.reads
    rw [file] at read
    have storable : Storable entries := (getSubscribed_write_iff nodup).mp
      ⟨map, read, fun topic => (same topic).trans (lookups topic).symm⟩
    exact unguarded (storable.of_perm (Assoc.perm_of_get nodup wantedNodup lookups).symm)

/-- In every session, every restore after any of its calls returns exactly the
subscriptions those calls amount to, exactly when after every call these have no
newline in a topic and fit into one buffer. -/
theorem subscriptions_restored_iff {trail : List (SessionFile × Call)} {s : SessionFile}
    (run : sessionFile.Run trail s) :
    System.Run.AllStates Restores trail s ↔ System.Run.AllSteps Guarded trail :=
  exactGuard.safe_iff_guarded run

/-- A session that subscribes to one topic and unsubscribes again. -/
theorem subscriptions_restored_iff_once :
    let topic : Str := ⟨[0x61], by decide⟩
    let calls : List Call := [.subscribe [⟨topic, .qos1⟩] .listed, .unsubscribe [topic] .listed]
    ∃ s, sessionFile.Run
        (System.trailOf (fun s call => some (SessionFile.step s call)) ⟨[], []⟩ calls) s ∧
      System.Run.AllStates Restores
        (System.trailOf (fun s call => some (SessionFile.step s call)) ⟨[], []⟩ calls) s := by
  intro topic calls
  have run : sessionFile.Run
      (System.trailOf (fun s call => some (SessionFile.step s call)) ⟨[], []⟩ calls) _ :=
    System.run_of_execute rfl
  refine ⟨_, run, (subscriptions_restored_iff run).mpr ?_⟩
  rintro entry (_ | ⟨_, _ | ⟨_, impossible⟩⟩)
  · exact ⟨by decide, by decide⟩
  · exact ⟨by decide, by decide⟩
  · cases impossible

/-- A topic with a newline is stored as two records, and the second one has no level. -/
theorem newline_topic_lost :
    let topic : Str := ⟨[0x61, 0x0A, 0x62], by decide⟩
    ∃ s, sessionFile.Reachable s ∧ s.wanted = [(topic, .qos1)] ∧
      restoreSubscribed s.file .listed = .err invalidQos ∧ ¬ Restores s := by
  intro topic
  have executed : System.execute (fun s call => some (SessionFile.step s call)) ⟨[], []⟩
      [.subscribe [⟨topic, .qos1⟩] .listed] =
      some ⟨[0x01, 0x61, 0x0A, 0x62, 0x0A], [(topic, .qos1)]⟩ := rfl
  have failed : restoreSubscribed [0x01, 0x61, 0x0A, 0x62, 0x0A] .listed = .err invalidQos := by
    decide
  refine ⟨_, System.reachable_of_execute executed, rfl, failed, fun restores => ?_⟩
  obtain ⟨subs, restored, _⟩ := restores .listed
  rw [failed] at restored
  cases restored

end ClientStore

end Sipusu.MessageBroker
