import Sipusu.MessageBroker.Client.Restore

/-!
# When a restore aborts

A restore returns, is refused or aborts by what the files of the session hold: lines that
cross a multiple of the log reader's buffer abort it, and so does a blank record among the
subscriptions, which a topic with two newlines in a row leaves there.
-/

namespace Sipusu.MessageBroker

open Sipusu.Foundation Sipusu.Protocol.V5

/-- Records of topics without newlines. -/
def Unbroken (entries : Subscriptions) : Prop := ∀ entry ∈ entries, 0x0A ∉ entry.1.bytes

/-- Whole records, and then a blank line, in what is read of a subscription file. -/
def BlankRecord (file : Bytes) : Prop :=
  ∃ entries rest, Unbroken entries ∧
    file.take subscribedBuffer = writeSubscribed entries ++ 0x0A :: rest

/-- Whole records, and then nothing that ends, in what is read of a subscription file. -/
def WholeRecords (file : Bytes) : Prop :=
  ∃ entries tail, Unbroken entries ∧
    file.take subscribedBuffer = writeSubscribed entries ++ tail ∧ 0x0A ∉ tail

/-- Every piece of the log that the reader takes ends with a line. -/
def LogReadable (session : Bytes) : Prop :=
  ∃ wall, wall ≠ [] ∧ session = writeWall wall ∧ Aligned wall

/-- The last line of a readable log is a disconnection that has not expired yet. -/
def Resumable (session : Bytes) (now : Nat) : Prop :=
  ∃ wall last expiration, session = writeWall (wall ++ [last]) ∧ Aligned (wall ++ [last]) ∧
    (last.value = .clientDisconnected expiration ∨ last.value = .disconnectByServer expiration) ∧
    now < expiration.toNat

/-- What the files of a session are made of: log lines, and the metadata that `Client::new`
wrote. -/
structure Stored (store : SessionStore) : Prop where
  log : ∃ wall, wall ≠ [] ∧ store.session = writeWall wall
  settings : ∃ mdata : MetaData, mdata.userProperties = [] ∧
    mdata.keepAliveInterval.toNat ≤ 43690 ∧ store.metadata = mdata.serialize

theorem Stored.logSession {store : SessionStore} (stored : Stored store) (wall : List WALL) :
    Stored (store.logSession wall) := by
  obtain ⟨⟨earlier, nonempty, isLog⟩, settings⟩ := stored
  refine ⟨⟨earlier ++ wall, List.append_ne_nil_of_left_ne_nil nonempty wall, ?_⟩, settings⟩
  rw [SessionStore.logSession, isLog, writeWall_append]

section Records

theorem newline_not_mem_of_splitRecord {buffer : Bytes} (open_ : splitRecord buffer = none) :
    0x0A ∉ buffer := by
  induction buffer with
  | nil => exact List.not_mem_nil
  | cons byte buffer inductionHypothesis =>
    simp only [splitRecord] at open_
    split at open_
    · cases open_
    · rw [Option.map_eq_none_iff] at open_
      rw [List.mem_cons, not_or]
      exact ⟨Ne.symm ‹_›, inductionHypothesis open_⟩

/-- What the loop over records stops at: octets without a newline, a blank line, or a line that
is no record. -/
inductive Stuck (buffer : Bytes) : Prop where
  | unended (open_ : 0x0A ∉ buffer)
  | blank {rest} (split : buffer = 0x0A :: rest)
  | malformed {front rest} (split : buffer = front ++ 0x0A :: rest) (single : 0x0A ∉ front)
      (nonempty : front ≠ []) (noRecord : ∀ entry : Str × ServiceLevel,
        front ≠ entry.2.code :: entry.1.bytes)

theorem stuck_or_record (buffer : Bytes) :
    Stuck buffer ∨ ∃ entry rest, 0x0A ∉ entry.1.bytes ∧ buffer = record entry ++ rest := by
  cases found : splitRecord buffer with
  | none => exact .inl (.unended (newline_not_mem_of_splitRecord found))
  | some parts =>
    obtain ⟨front, rest⟩ := parts
    obtain ⟨split, single⟩ := splitRecord_eq found
    by_cases wellFormed : ∃ entry : Str × ServiceLevel, front = entry.2.code :: entry.1.bytes
    · obtain ⟨entry, rfl⟩ := wellFormed
      rw [List.mem_cons, not_or] at single
      exact .inr ⟨entry, rest, single.2,
        by rw [split, record, List.append_assoc, List.singleton_append]⟩
    · cases front with
      | nil => exact .inl (.blank split)
      | cons level topic =>
        exact .inl (.malformed split single (List.cons_ne_nil level topic)
          fun entry same => wellFormed ⟨entry, same⟩)

theorem not_stuck_record {entry : Str × ServiceLevel} (unbroken : 0x0A ∉ entry.1.bytes)
    (rest : Bytes) : ¬ Stuck (record entry ++ rest) := by
  have line := splitRecord_record unbroken rest
  intro stuck
  cases stuck with
  | unended open_ => simp [record] at open_
  | blank split =>
    rw [split, splitRecord, if_pos rfl] at line
    cases line
  | malformed split single _ noRecord =>
    rw [split, splitRecord_append single, Option.some.injEq, Prod.mk.injEq] at line
    exact noRecord entry line.1

/-- Octets are whole records, and then something that the loop stops at. -/
theorem exists_stuck (buffer : Bytes) :
    ∃ entries tail, Unbroken entries ∧ buffer = writeSubscribed entries ++ tail ∧ Stuck tail := by
  induction size : buffer.length using Nat.strongRecOn generalizing buffer with
  | ind length inductionHypothesis =>
    rcases stuck_or_record buffer with stuck | ⟨entry, rest, unbroken, rfl⟩
    · exact ⟨[], buffer, nofun, rfl, stuck⟩
    · have shorter : rest.length < length := by
        rw [← size, record, List.length_append, List.length_append, List.length_singleton]
        omega
      obtain ⟨entries, tail, others, rfl, stuck⟩ := inductionHypothesis _ shorter rest rfl
      exact ⟨entry :: entries, tail, List.forall_mem_cons.mpr ⟨unbroken, others⟩,
        by rw [writeSubscribed, writeSubscribed, List.flatMap_cons, List.append_assoc], stuck⟩

/-- There is only one way to see them so. -/
theorem stuck_unique {entries others : Subscriptions} {tail other : Bytes}
    (unbroken : Unbroken entries) (othersUnbroken : Unbroken others) (stuck : Stuck tail)
    (otherStuck : Stuck other)
    (same : writeSubscribed entries ++ tail = writeSubscribed others ++ other) : tail = other := by
  induction entries generalizing others with
  | nil =>
    cases others with
    | nil => exact same
    | cons entry others =>
      rw [writeSubscribed, List.flatMap_nil, List.nil_append, writeSubscribed, List.flatMap_cons,
        List.append_assoc] at same
      rw [same] at stuck
      exact absurd stuck (not_stuck_record (othersUnbroken entry List.mem_cons_self) _)
  | cons entry entries inductionHypothesis =>
    obtain ⟨first, rest⟩ := List.forall_mem_cons.mp unbroken
    rw [writeSubscribed, List.flatMap_cons, List.append_assoc] at same
    cases others with
    | nil =>
      rw [writeSubscribed, List.flatMap_nil, List.nil_append] at same
      rw [← same] at otherStuck
      exact absurd otherStuck (not_stuck_record first _)
    | cons next others =>
      obtain ⟨nextUnbroken, othersUnbroken⟩ := List.forall_mem_cons.mp othersUnbroken
      have line := splitRecord_record first (List.flatMap record entries ++ tail)
      rw [same, writeSubscribed, List.flatMap_cons, List.append_assoc,
        splitRecord_record nextUnbroken, Option.some.injEq, Prod.mk.injEq] at line
      exact inductionHypothesis rest othersUnbroken line.2.symm

/-- The loop goes through whole records. -/
theorem readRecords_append {entries : Subscriptions} (unbroken : Unbroken entries) (tail : Bytes)
    {fuel : Nat} (enough : (writeSubscribed entries ++ tail).length ≤ fuel) (map : Subscriptions) :
    ∃ left final, tail.length ≤ left ∧
      readRecords fuel map (writeSubscribed entries ++ tail) = readRecords left final tail := by
  induction entries generalizing fuel map with
  | nil => exact ⟨fuel, map, enough, rfl⟩
  | cons entry entries inductionHypothesis =>
    obtain ⟨first, rest⟩ := List.forall_mem_cons.mp unbroken
    have split : writeSubscribed (entry :: entries) ++ tail =
        record entry ++ (writeSubscribed entries ++ tail) := by
      rw [writeSubscribed, List.flatMap_cons, List.append_assoc, ← writeSubscribed]
    have line : 0 < (record entry).length := by simp [record]
    rw [split, List.length_append] at enough
    cases fuel with
    | zero => omega
    | succ fuel =>
      have fewer : (writeSubscribed entries ++ tail).length ≤ fuel := by omega
      obtain ⟨left, final, stillEnough, goesOn⟩ :=
        inductionHypothesis rest fewer (Assoc.insert entry.1 entry.2 map)
      refine ⟨left, final, stillEnough, ?_⟩
      rw [split, readRecords, splitRecord_record first]
      simp only [Str.fromUtf8?_bytes, ServiceLevel.tryFrom_code]
      exact goesOn

/-- How the loop stops. -/
inductive Stops (tail : Bytes) : Outcome IoError Subscriptions → Prop where
  | returns {final} (open_ : 0x0A ∉ tail) : Stops tail (.ok final)
  | aborts {rest} (split : tail = 0x0A :: rest) : Stops tail .panic
  | refuses {error} (closed : 0x0A ∈ tail) (filled : ∀ rest, tail ≠ 0x0A :: rest) :
      Stops tail (.err error)

theorem readRecords_stuck {tail : Bytes} (stuck : Stuck tail) {fuel : Nat}
    (enough : tail.length ≤ fuel) (map : Subscriptions) :
    Stops tail (readRecords fuel map tail) := by
  cases stuck with
  | unended open_ =>
    cases fuel with
    | zero => exact .returns open_
    | succ fuel =>
      have none : splitRecord tail = none := by
        cases found : splitRecord tail with
        | none => rfl
        | some parts =>
          obtain ⟨rfl, _⟩ := splitRecord_eq found
          simp at open_
      rw [readRecords, none]
      exact .returns open_
  | @blank rest split =>
    subst split
    cases fuel with
    | zero => cases enough
    | succ fuel => exact .aborts rfl
  | @malformed front rest split single nonempty noRecord =>
    subst split
    obtain ⟨level, topic, rfl⟩ := List.exists_cons_of_ne_nil nonempty
    have closed : 0x0A ∈ level :: topic ++ 0x0A :: rest := by simp
    have filled : ∀ left, level :: topic ++ 0x0A :: rest ≠ 0x0A :: left := by
      intro left same
      rw [List.cons_append, List.cons.injEq] at same
      exact single (same.1 ▸ List.mem_cons_self)
    cases fuel with
    | zero => cases enough
    | succ fuel =>
      rw [readRecords, splitRecord_append single]
      cases topicRead : Str.fromUtf8? topic with
      | none => simpa only [topicRead] using .refuses closed filled
      | some k =>
        cases levelRead : ServiceLevel.tryFrom level with
        | none => simpa only [topicRead, levelRead] using .refuses closed filled
        | some v =>
          refine absurd ?_ (noRecord (k, v))
          rw [ServiceLevel.code_of_tryFrom levelRead, Str.fromUtf8?_eq_some.mp topicRead]

/-- The loop reads whole records up to what it stops at. -/
theorem readRecords_stops (buffer : Bytes) :
    ∃ entries tail, Unbroken entries ∧ buffer = writeSubscribed entries ++ tail ∧ Stuck tail ∧
      Stops tail (readRecords buffer.length [] buffer) := by
  obtain ⟨entries, tail, unbroken, rfl, stuck⟩ := exists_stuck buffer
  obtain ⟨left, final, enough, same⟩ := readRecords_append unbroken tail (Nat.le_refl _) []
  exact ⟨entries, tail, unbroken, rfl, stuck, same ▸ readRecords_stuck stuck enough final⟩

theorem getSubscribed_eq_panic_iff (file : Bytes) :
    getSubscribed file = .panic ↔ BlankRecord file := by
  obtain ⟨entries, tail, unbroken, split, stuck, stops⟩ :=
    readRecords_stops (file.take subscribedBuffer)
  rw [getSubscribed_eq]
  constructor
  · intro aborted
    rw [aborted] at stops
    obtain ⟨⟩ | ⟨rfl⟩ | ⟨⟩ := stops
    exact ⟨entries, _, unbroken, split⟩
  · rintro ⟨others, rest, othersUnbroken, same⟩
    obtain rfl := stuck_unique unbroken othersUnbroken stuck (.blank rfl) (split.symm.trans same)
    generalize readRecords _ _ _ = outcome at stops
    cases stops with
    | returns open_ => exact absurd List.mem_cons_self open_
    | aborts => rfl
    | refuses _ filled => exact absurd rfl (filled rest)

theorem getSubscribed_eq_ok_iff (file : Bytes) :
    (∃ map, getSubscribed file = .ok map) ↔ WholeRecords file := by
  obtain ⟨entries, tail, unbroken, split, stuck, stops⟩ :=
    readRecords_stops (file.take subscribedBuffer)
  rw [getSubscribed_eq]
  constructor
  · rintro ⟨map, returned⟩
    rw [returned] at stops
    obtain ⟨open_⟩ | ⟨⟩ | ⟨⟩ := stops
    exact ⟨entries, tail, unbroken, split, open_⟩
  · rintro ⟨others, other, othersUnbroken, same, open_⟩
    obtain rfl := stuck_unique unbroken othersUnbroken stuck (.unended open_)
      (split.symm.trans same)
    generalize readRecords _ _ _ = outcome at stops
    cases stops with
    | returns => exact ⟨_, rfl⟩
    | aborts split => exact absurd (split ▸ List.mem_cons_self) open_
    | refuses closed _ => exact absurd closed open_

end Records

section Log

variable {wall : List WALL}

/-- The lines of a readable log are read off its octets. -/
theorem eq_of_aligned {other : List WALL} (aligned : Aligned other)
    (same : writeWall wall = writeWall other) : wall = other := by
  have read := readWall_of_aligned aligned
  rw [← same] at read
  by_cases whole : Aligned wall
  · rw [readWall_of_aligned whole] at read
    exact Outcome.ok.inj read
  · rw [readWall_of_not_aligned whole] at read
    cases read

theorem logReadable_iff (nonempty : wall ≠ []) : LogReadable (writeWall wall) ↔ Aligned wall := by
  constructor
  · rintro ⟨other, _, same, aligned⟩
    rwa [eq_of_aligned aligned same]
  · intro aligned
    exact ⟨wall, nonempty, rfl, aligned⟩

theorem decideRestore_eq_ok_iff {last : EventType} {now : Nat} :
    decideRestore last now = .ok () ↔ ∃ expiration, (last = .clientDisconnected expiration ∨
      last = .disconnectByServer expiration) ∧ now < expiration.toNat := by
  cases last with
  | clientCreated | clientRestored => simp [decideRestore]
  | clientDisconnected u | disconnectByServer u =>
    rw [decideRestore]
    by_cases expired : now ≥ u.toNat
    · simp [expired]
    · simp [expired, Nat.lt_of_not_le expired]

theorem decideRestore_ne_panic (last : EventType) (now : Nat) : decideRestore last now ≠ .panic := by
  cases last with
  | clientCreated | clientRestored => exact Outcome.err_ne_panic _
  | clientDisconnected u | disconnectByServer u =>
    rw [decideRestore]
    split
    · exact Outcome.err_ne_panic _
    · exact Outcome.ok_ne_panic _

theorem restoreSession_eq_panic_iff (nonempty : wall ≠ []) (now : Nat) :
    restoreSession (writeWall wall) now = .panic ↔ ¬ LogReadable (writeWall wall) := by
  rw [logReadable_iff nonempty]
  by_cases aligned : Aligned wall
  · rw [restoreSession_of_aligned aligned nonempty]
    exact iff_of_false (decideRestore_ne_panic _ _) (not_not.mpr aligned)
  · exact iff_of_true (restoreSession_of_not_aligned aligned now) aligned

theorem restoreSession_eq_ok_iff (nonempty : wall ≠ []) (now : Nat) :
    restoreSession (writeWall wall) now = .ok () ↔ Resumable (writeWall wall) now := by
  by_cases aligned : Aligned wall
  · rw [restoreSession_of_aligned aligned nonempty, decideRestore_eq_ok_iff]
    constructor
    · rintro ⟨expiration, event, unexpired⟩
      have split := List.dropLast_concat_getLast nonempty
      exact ⟨wall.dropLast, wall.getLast nonempty, expiration, by rw [split], by rwa [split], event,
        unexpired⟩
    · rintro ⟨front, last, expiration, same, whole, event, unexpired⟩
      obtain rfl := eq_of_aligned whole same
      rw [List.getLast_append_singleton]
      exact ⟨expiration, event, unexpired⟩
  · rw [restoreSession_of_not_aligned aligned]
    refine iff_of_false nofun ?_
    rintro ⟨front, last, expiration, same, whole, _⟩
    rw [eq_of_aligned whole same] at aligned
    exact aligned whole

end Log

section Restoring

variable {store : SessionStore} {conid : ConnectionID} {clid : ClientID}
  {iteration : IterationOrder} {now : Nat}

theorem Stored.restoreMetadata_eq (stored : Stored store) :
    ∃ mdata : MetaData, mdata.keepAliveInterval.toNat ≤ 43690 ∧
      SessionStore.restoreMetadata store.metadata = .ok mdata := by
  obtain ⟨mdata, none, bounded, file⟩ := stored.settings
  exact ⟨mdata, bounded, by rw [file, restoreMetadata_serialize none]⟩

/-- What a restore comes to, by the session part and then by the subscriptions. -/
theorem Stored.restore_eq (stored : Stored store) (iteration : IterationOrder) (now : Nat) :
    ∃ mdata : MetaData, mdata.keepAliveInterval.toNat ≤ 43690 ∧
      SessionStore.restore (some store) iteration now =
        restoreSession store.session now >>= fun _ =>
          ClientStore.restoreSubscribed store.subscribed iteration >>= fun subs =>
            .ok ({ mdata, subs }, store.logSession [⟨UInt64.ofNat now, .clientRestored⟩]) := by
  obtain ⟨mdata, bounded, read⟩ := stored.restoreMetadata_eq
  refine ⟨mdata, bounded, ?_⟩
  have files : (store.logSession [⟨UInt64.ofNat now, .clientRestored⟩]).metadata = store.metadata ∧
      (store.logSession [⟨UInt64.ofNat now, .clientRestored⟩]).subscribed = store.subscribed :=
    ⟨rfl, rfl⟩
  simp only [SessionStore.restore, files.1, files.2, read, Outcome.ok_bind, Outcome.pure_eq]

theorem restoreSubscribed_eq_panic_iff (file : Bytes) (iteration : IterationOrder) :
    ClientStore.restoreSubscribed file iteration = .panic ↔ BlankRecord file := by
  rw [← getSubscribed_eq_panic_iff, ClientStore.restoreSubscribed]
  cases getSubscribed file <;> simp

theorem restoreSubscribed_eq_ok_iff (file : Bytes) (iteration : IterationOrder) :
    (∃ subs, ClientStore.restoreSubscribed file iteration = .ok subs) ↔ WholeRecords file := by
  rw [← getSubscribed_eq_ok_iff, ClientStore.restoreSubscribed]
  cases getSubscribed file <;> simp

/-- A restore of a client aborts by its log, or by its subscriptions if the log lets it get
there. -/
theorem Stored.restore_eq_panic_iff (stored : Stored store) :
    Client.restore conid clid (some store) iteration now = .panic ↔
      ¬ LogReadable store.session ∨
        (Resumable store.session now ∧ BlankRecord store.subscribed) := by
  obtain ⟨mdata, bounded, whole⟩ := stored.restore_eq iteration now
  obtain ⟨wall, nonempty, isLog⟩ := stored.log
  have aborts := restoreSession_eq_panic_iff nonempty now
  have returns := restoreSession_eq_ok_iff nonempty now
  have records := restoreSubscribed_eq_panic_iff store.subscribed iteration
  rw [← isLog] at aborts returns
  rw [← aborts, ← returns, ← records, Client.restore, whole]
  cases restoreSession store.session now with
  | ok value =>
    cases ClientStore.restoreSubscribed store.subscribed iteration with
    | ok subs => simp [Session.allowance_eq bounded, Outcome.unwrap]
    | err error => simp
    | panic => simp
  | err error => simp
  | panic => simp

/-- A restore of a client goes through when its last disconnection has not expired and its
subscriptions are whole records. -/
theorem Stored.restore_eq_ok_iff (stored : Stored store) :
    (∃ result, Client.restore conid clid (some store) iteration now = .ok result) ↔
      Resumable store.session now ∧ WholeRecords store.subscribed := by
  obtain ⟨mdata, bounded, whole⟩ := stored.restore_eq iteration now
  obtain ⟨wall, nonempty, isLog⟩ := stored.log
  have returns := restoreSession_eq_ok_iff nonempty now
  have records := restoreSubscribed_eq_ok_iff store.subscribed iteration
  rw [← isLog] at returns
  rw [← returns, ← records, Client.restore, whole]
  cases restoreSession store.session now with
  | ok value =>
    cases ClientStore.restoreSubscribed store.subscribed iteration with
    | ok subs => simp [Session.allowance_eq bounded, Outcome.unwrap]
    | err error => simp
    | panic => simp
  | err error => simp
  | panic => simp

/-- The client that is restored keeps its identifier. -/
theorem restore_clid {restored : Client} {after : SessionStore} {before : Option SessionStore}
    (went : Client.restore conid clid before iteration now = .ok (restored, after)) :
    restored.clid = clid := by
  obtain ⟨_, _, went⟩ := Outcome.bind_eq_ok.mp went
  obtain ⟨_, _, same⟩ := Outcome.bind_eq_ok.mp went
  simp only [Outcome.pure_eq, Outcome.ok.injEq, Prod.mk.injEq] at same
  rw [← same.1, Client.ofMetaData]

end Restoring

end Sipusu.MessageBroker
