import Sipusu.Foundation.Runs
import Sipusu.MessageBroker.Client.ClidOrder

/-!
# The states of unacknowledged messages

`MessageCoordinator` of `src/message_broker/msg_state.rs`: for every client the packet
identifiers that are not done with. `create` looks for the client it is given, `resolve`
skips that client and searches all others.
-/

namespace Sipusu.MessageBroker

open Sipusu.Foundation

/-- `enum MsgState`. -/
inductive MsgState where
  | pubRec
  | pubRel
  | publish
deriving DecidableEq, Repr

/-- `MsgState::step`. -/
def MsgState.step : MsgState → Nat
  | .pubRec => 0
  | .pubRel => 1
  | .publish => 2

/-- `struct SaveState`. -/
structure SaveState where
  packetId : UInt16
  ack : MsgState
  expiredAt : UInt64
deriving DecidableEq, Repr

/-- `struct Map`. -/
structure Map where
  clid : ClientID
  val : List SaveState
deriving DecidableEq

/-- `enum MsgAckErrors`. -/
inductive MsgAckErrors where
  | notFound
  | alreadyExists
  | stateExpired
  | invalidResolveState
deriving DecidableEq, Repr

/-- `struct MessageCoordinator`: the data behind its lock. -/
structure MessageCoordinator where
  data : List Map
deriving DecidableEq

namespace MessageCoordinator

open ClientID (eq_iff_key eq_false_iff_key)

/-- `MessageCoordinator::new`. -/
def new : MessageCoordinator := ⟨[]⟩

/-- The loop of `MessageCoordinator::create`. -/
def createIn (clid : ClientID) (state : SaveState) :
    List Map → Outcome MsgAckErrors Unit × List Map
  | [] => (.ok (), [⟨clid, [state]⟩])
  | v :: rest =>
      if !PartialEq.eq v.clid clid then
        let result := createIn clid state rest
        (result.1, v :: result.2)
      else if v.val.any fun smv => smv.packetId = state.packetId then
        (.err .alreadyExists, v :: rest)
      else (.ok (), { v with val := v.val ++ [state] } :: rest)

/-- `MessageCoordinator::create` at the clock reading `now`. The end of the interval is
computed first: its overflow aborts in a build with overflow checks and wraps in others. -/
def create (overflowChecks : Bool) (s : MessageCoordinator) (clid : ClientID) (packetId : UInt16)
    (exprIntrvalSec now : UInt64) : Outcome MsgAckErrors Unit × MessageCoordinator :=
  if overflowChecks = true ∧ 2 ^ 64 ≤ now.toNat + exprIntrvalSec.toNat then (.panic, s)
  else
    let state := { packetId, ack := .pubRec, expiredAt := now + exprIntrvalSec }
    let result := createIn clid state s.data
    (result.1, ⟨result.2⟩)

/-- The loop of `MessageCoordinator::resolve` over the states of one client; `none` if it
runs to its end. -/
def resolveStates (packetId : UInt16) (ack : MsgState) (now : UInt64) :
    List SaveState → Option (Outcome MsgAckErrors Unit) × List SaveState
  | [] => (none, [])
  | smv :: rest =>
      if smv.packetId = packetId then
        if smv.ack.step + 1 = ack.step then
          if smv.expiredAt < now then (some (.err .stateExpired), smv :: rest)
          else (some (.ok ()), { smv with ack } :: rest)
        else (some (.err .invalidResolveState), smv :: rest)
      else
        let result := resolveStates packetId ack now rest
        (result.1, smv :: result.2)

/-- The loop of `MessageCoordinator::resolve` over the clients. The test that should skip the
others skips the client itself. The clock is read for each client whose states are searched,
but only the reading for the last of them is looked at. -/
def resolveIn (clid : ClientID) (packetId : UInt16) (ack : MsgState) (now : UInt64) :
    List Map → Outcome MsgAckErrors Unit × List Map
  | [] => (.err .notFound, [])
  | v :: rest =>
      if PartialEq.eq v.clid clid then
        let result := resolveIn clid packetId ack now rest
        (result.1, v :: result.2)
      else
        match resolveStates packetId ack now v.val with
        | (some answer, val) => (answer, { v with val } :: rest)
        | (none, _) =>
            let result := resolveIn clid packetId ack now rest
            (result.1, v :: result.2)

/-- `MessageCoordinator::resolve`. -/
def resolve (s : MessageCoordinator) (clid : ClientID) (packetId : UInt16) (ack : MsgState)
    (now : UInt64) : Outcome MsgAckErrors Unit × MessageCoordinator :=
  let result := resolveIn clid packetId ack now s.data
  (result.1, ⟨result.2⟩)

/-- The entry of a list of states for a packet identifier. -/
def findState (packetId : UInt16) (states : List SaveState) : Option SaveState :=
  states.find? fun state => state.packetId = packetId

/-- The entry of a client, known by what `==` looks at, for a packet identifier. -/
def findEntry (key : Nat × UInt32) (packetId : UInt16) (data : List Map) : Option SaveState :=
  (data.find? fun map => map.clid.key = key).bind fun map => findState packetId map.val

/-- The first entry for a packet identifier that another client has. -/
def findForeign (key : Nat × UInt32) (packetId : UInt16) (data : List Map) :
    Option (ClientID × SaveState) :=
  data.findSome? fun map =>
    if map.clid.key = key then none
    else (findState packetId map.val).map fun state => (map.clid, state)

/-- What an entry makes of an acknowledgement. -/
def judge (state : SaveState) (ack : MsgState) (now : UInt64) : Outcome MsgAckErrors Unit :=
  if state.ack.step + 1 = ack.step then
    if state.expiredAt < now then .err .stateExpired else .ok ()
  else .err .invalidResolveState

/-- No client is listed twice, and none has two entries for one packet identifier. -/
structure Consistent (data : List Map) : Prop where
  clids : (data.map fun map => map.clid.key).Nodup
  packetIds : ∀ map ∈ data, (map.val.map SaveState.packetId).Nodup

/-- An acknowledgement is written into the entry for a packet identifier. -/
def recordState (packetId : UInt16) (ack : MsgState) : List SaveState → List SaveState
  | [] => []
  | smv :: rest =>
      if smv.packetId = packetId then { smv with ack } :: rest
      else smv :: recordState packetId ack rest

/-- An acknowledgement is written into the entry of a client for a packet identifier. -/
def recordEntry (key : Nat × UInt32) (packetId : UInt16) (ack : MsgState) : List Map → List Map
  | [] => []
  | v :: rest =>
      if v.clid.key = key then { v with val := recordState packetId ack v.val } :: rest
      else v :: recordEntry key packetId ack rest

section Lookup

variable {key other : Nat × UInt32} {packetId id : UInt16} {ack : MsgState} {now : UInt64}

theorem findState_cons (packetId : UInt16) (smv : SaveState) (rest : List SaveState) :
    findState packetId (smv :: rest) =
      if smv.packetId = packetId then some smv else findState packetId rest := by
  rw [findState, List.find?_cons]
  by_cases here : smv.packetId = packetId
  · rw [decide_eq_true here, if_pos here]
  · rw [decide_eq_false here, if_neg here]
    rfl

theorem any_packetId (packetId : UInt16) (states : List SaveState) :
    (states.any fun smv => smv.packetId = packetId) = (findState packetId states).isSome :=
  List.isSome_find?.symm

theorem findEntry_cons (key : Nat × UInt32) (packetId : UInt16) (v : Map) (rest : List Map) :
    findEntry key packetId (v :: rest) =
      if v.clid.key = key then findState packetId v.val else findEntry key packetId rest := by
  rw [findEntry, List.find?_cons]
  by_cases here : v.clid.key = key
  · rw [decide_eq_true here, if_pos here]
    rfl
  · rw [decide_eq_false here, if_neg here]
    rfl

theorem findForeign_cons (key : Nat × UInt32) (packetId : UInt16) (v : Map) (rest : List Map) :
    findForeign key packetId (v :: rest) =
      if v.clid.key = key then findForeign key packetId rest
      else match findState packetId v.val with
        | some state => some (v.clid, state)
        | none => findForeign key packetId rest := by
  rw [findForeign, List.findSome?_cons]
  by_cases here : v.clid.key = key
  · rw [if_pos here, if_pos here]
    rfl
  · rw [if_neg here, if_neg here]
    cases findState packetId v.val <;> rfl

theorem findEntry_of_unlisted {data : List Map}
    (unlisted : key ∉ data.map fun map => map.clid.key) : findEntry key packetId data = none := by
  induction data with
  | nil => rfl
  | cons v rest inductionHypothesis =>
    rw [List.map_cons, List.mem_cons, not_or] at unlisted
    rw [findEntry_cons, if_neg (Ne.symm unlisted.1)]
    exact inductionHypothesis unlisted.2

/-- Where no client is listed twice, the first foreign entry is the entry of its client. -/
theorem findEntry_of_findForeign {data : List Map}
    (distinct : (data.map fun map => map.clid.key).Nodup) {clid : ClientID} {state : SaveState}
    (found : findForeign key packetId data = some (clid, state)) :
    clid.key ≠ key ∧ findEntry clid.key packetId data = some state := by
  induction data with
  | nil => cases found
  | cons v rest inductionHypothesis =>
    rw [List.map_cons, List.nodup_cons] at distinct
    have later (found : findForeign key packetId rest = some (clid, state)) :
        clid.key ≠ key ∧ findEntry clid.key packetId (v :: rest) = some state := by
      obtain ⟨different, listed⟩ := inductionHypothesis distinct.2 found
      have apart : v.clid.key ≠ clid.key := by
        intro same
        rw [findEntry_of_unlisted (same ▸ distinct.1)] at listed
        cases listed
      exact ⟨different, by rw [findEntry_cons, if_neg apart, listed]⟩
    rw [findForeign_cons] at found
    by_cases own : v.clid.key = key
    · rw [if_pos own] at found
      exact later found
    · rw [if_neg own] at found
      cases here : findState packetId v.val with
      | none =>
        rw [here] at found
        exact later found
      | some first =>
        rw [here, Option.some.injEq, Prod.mk.injEq] at found
        obtain ⟨rfl, rfl⟩ := found
        exact ⟨own, by rw [findEntry_cons, if_pos rfl, here]⟩

theorem findState_recordState (packetId id : UInt16) (ack : MsgState) (states : List SaveState) :
    findState id (recordState packetId ack states) =
      if id = packetId then (findState id states).map fun state => { state with ack }
      else findState id states := by
  induction states with
  | nil => simp [recordState, findState]
  | cons smv rest inductionHypothesis =>
    rw [recordState]
    by_cases here : smv.packetId = packetId
    · rw [if_pos here, findState_cons, findState_cons]
      by_cases same : id = packetId
      · have mine : smv.packetId = id := here.trans same.symm
        rw [if_pos same, if_pos mine, if_pos mine]
        rfl
      · have apart : smv.packetId ≠ id := fun equal => same (equal.symm.trans here)
        rw [if_neg same, if_neg apart, if_neg apart]
    · rw [if_neg here, findState_cons, findState_cons, inductionHypothesis]
      by_cases same : id = packetId
      · rw [if_pos same, if_pos same, same, if_neg here, if_neg here]
      · rw [if_neg same, if_neg same]

theorem packetIds_recordState (packetId : UInt16) (ack : MsgState) (states : List SaveState) :
    (recordState packetId ack states).map SaveState.packetId = states.map SaveState.packetId := by
  induction states with
  | nil => rfl
  | cons smv rest inductionHypothesis =>
    rw [recordState]
    split
    · rfl
    · rw [List.map_cons, inductionHypothesis, List.map_cons]

/-- Writing into an entry changes no other. -/
theorem findEntry_recordEntry (key other : Nat × UInt32) (packetId id : UInt16) (ack : MsgState)
    (data : List Map) :
    findEntry other id (recordEntry key packetId ack data) =
      if other = key ∧ id = packetId then
        (findEntry other id data).map fun state => { state with ack }
      else findEntry other id data := by
  induction data with
  | nil => simp [recordEntry, findEntry]
  | cons v rest inductionHypothesis =>
    rw [recordEntry]
    by_cases here : v.clid.key = key
    · rw [if_pos here, findEntry_cons, findEntry_cons]
      by_cases same : other = key
      · rw [if_pos (here.trans same.symm), if_pos (here.trans same.symm), findState_recordState]
        simp only [same, true_and]
      · have apart : v.clid.key ≠ other := fun equal => same (equal.symm.trans here)
        rw [if_neg apart, if_neg apart, if_neg fun both => same both.1]
    · rw [if_neg here, findEntry_cons, findEntry_cons, inductionHypothesis]
      by_cases mine : v.clid.key = other
      · have apart : ¬ (other = key ∧ id = packetId) := fun both => here (mine.trans both.1)
        rw [if_pos mine, if_pos mine, if_neg apart]
      · rw [if_neg mine, if_neg mine]

theorem keys_recordEntry (key : Nat × UInt32) (packetId : UInt16) (ack : MsgState)
    (data : List Map) :
    (recordEntry key packetId ack data).map (fun map => map.clid.key) =
      data.map fun map => map.clid.key := by
  induction data with
  | nil => rfl
  | cons v rest inductionHypothesis =>
    rw [recordEntry]
    split
    · rfl
    · rw [List.map_cons, inductionHypothesis, List.map_cons]

theorem Consistent.recordEntry {data : List Map} (consistent : Consistent data)
    (key : Nat × UInt32) (packetId : UInt16) (ack : MsgState) :
    Consistent (recordEntry key packetId ack data) := by
  induction data with
  | nil => exact consistent
  | cons v rest inductionHypothesis =>
    obtain ⟨clids, packetIds⟩ := consistent
    obtain ⟨first, others⟩ := List.forall_mem_cons.mp packetIds
    rw [MessageCoordinator.recordEntry]
    split
    · refine ⟨clids, List.forall_mem_cons.mpr ⟨?_, others⟩⟩
      rw [packetIds_recordState]
      exact first
    · obtain ⟨unlisted, distinct⟩ := List.nodup_cons.mp clids
      obtain ⟨restClids, restIds⟩ := inductionHypothesis ⟨distinct, others⟩
      refine ⟨?_, List.forall_mem_cons.mpr ⟨first, restIds⟩⟩
      rw [List.map_cons, keys_recordEntry]
      exact clids

end Lookup

section Calls

variable {clid : ClientID} {packetId : UInt16} {ack : MsgState} {now : UInt64}

/-- The inner loop judges the entry it looks for, and writes into it what it accepts. -/
theorem resolveStates_eq (packetId : UInt16) (ack : MsgState) (now : UInt64)
    (states : List SaveState) :
    resolveStates packetId ack now states =
      match findState packetId states with
      | none => (none, states)
      | some state => (some (judge state ack now),
          if judge state ack now = .ok () then recordState packetId ack states else states) := by
  induction states with
  | nil => rfl
  | cons smv rest inductionHypothesis =>
    rw [resolveStates, findState_cons, recordState]
    by_cases here : smv.packetId = packetId
    · simp only [if_pos here, judge]
      split
      · split
        · rfl
        · rfl
      · rfl
    · simp only [if_neg here, inductionHypothesis]
      cases findState packetId rest with
      | none => rfl
      | some state =>
        simp only
        split
        · rfl
        · rfl

/-- The outer loop judges the first entry for the packet identifier that another client has. -/
theorem resolveIn_eq {data : List Map} (distinct : (data.map fun map => map.clid.key).Nodup) :
    resolveIn clid packetId ack now data =
      match findForeign clid.key packetId data with
      | none => (.err .notFound, data)
      | some (other, state) => (judge state ack now,
          if judge state ack now = .ok () then recordEntry other.key packetId ack data else data) := by
  induction data with
  | nil => rfl
  | cons v rest inductionHypothesis =>
    rw [List.map_cons, List.nodup_cons] at distinct
    have onward : ∀ {other state}, findForeign clid.key packetId rest = some (other, state) →
        recordEntry other.key packetId ack (v :: rest) =
          v :: recordEntry other.key packetId ack rest := by
      intro other state found
      rw [recordEntry, if_neg]
      intro same
      have listed := (findEntry_of_findForeign distinct.2 found).2
      rw [← same, findEntry_of_unlisted distinct.1] at listed
      cases listed
    have skip : (let result := resolveIn clid packetId ack now rest
        (result.1, v :: result.2)) =
          match findForeign clid.key packetId rest with
          | none => (.err .notFound, v :: rest)
          | some (other, state) => (judge state ack now,
              if judge state ack now = .ok () then recordEntry other.key packetId ack (v :: rest)
              else v :: rest) := by
      rw [inductionHypothesis distinct.2]
      cases found : findForeign clid.key packetId rest with
      | none => rfl
      | some entry =>
        simp only [onward found]
        split
        · rfl
        · rfl
    rw [resolveIn, findForeign_cons]
    by_cases own : v.clid.key = clid.key
    · rw [if_pos (eq_iff_key.mpr own), if_pos own]
      exact skip
    · have other : ¬ PartialEq.eq v.clid clid = true := fun equal => own (eq_iff_key.mp equal)
      rw [if_neg other, if_neg own, resolveStates_eq]
      cases findState packetId v.val with
      | none => exact skip
      | some state =>
        simp only [recordEntry, if_true]
        split
        · rfl
        · rfl

theorem findState_append (packetId id : UInt16) (states : List SaveState) (state : SaveState)
    (isId : state.packetId = packetId) :
    findState id (states ++ [state]) =
      if id = packetId then (findState id states).or (some state) else findState id states := by
  induction states with
  | nil =>
    rw [List.nil_append, findState_cons, isId]
    by_cases same : id = packetId
    · rw [if_pos same, if_pos same.symm]
      rfl
    · rw [if_neg same, if_neg (Ne.symm same)]
  | cons smv rest inductionHypothesis =>
    rw [List.cons_append, findState_cons, findState_cons, inductionHypothesis]
    by_cases here : smv.packetId = id
    · rw [if_pos here, if_pos here]
      split
      · rfl
      · rfl
    · rw [if_neg here, if_neg here]

/-- An entry added behind the others of its client is found where there was none. -/
theorem findEntry_extended {v : Map} {state : SaveState} (own : v.clid.key = clid.key)
    (absent : findState state.packetId v.val = none) (rest : List Map) (key : Nat × UInt32)
    (id : UInt16) :
    findEntry key id ({ v with val := v.val ++ [state] } :: rest) =
      if key = clid.key ∧ id = state.packetId then some state else findEntry key id (v :: rest) := by
  rw [findEntry_cons, findEntry_cons]
  by_cases mine : v.clid.key = key
  · rw [if_pos mine, if_pos mine, findState_append _ id _ _ rfl]
    by_cases same : id = state.packetId
    · subst same
      rw [if_pos rfl, absent, if_pos ⟨mine.symm.trans own, rfl⟩]
      rfl
    · rw [if_neg same, if_neg fun both => same both.2]
  · have apart : ¬ (key = clid.key ∧ id = state.packetId) := fun both =>
      mine (own.trans both.1.symm)
    rw [if_neg mine, if_neg mine, if_neg apart]

/-- `create` refuses an entry that is there, and adds one that is not. -/
theorem createIn_cases (clid : ClientID) (state : SaveState) (data : List Map) :
    ((findEntry clid.key state.packetId data).isSome = true ∧
        createIn clid state data = (.err .alreadyExists, data)) ∨
      (findEntry clid.key state.packetId data = none ∧
        (createIn clid state data).1 = .ok () ∧
        ∀ key id, findEntry key id (createIn clid state data).2 =
          if key = clid.key ∧ id = state.packetId then some state else findEntry key id data) := by
  induction data with
  | nil =>
    refine .inr ⟨rfl, rfl, fun key id => ?_⟩
    -- The new client's list is an empty one with the entry added.
    have empty : findEntry key id [⟨clid, []⟩] = none := by
      rw [findEntry_cons]
      split <;> rfl
    have fresh : findEntry key id [⟨clid, [state]⟩] =
        if key = clid.key ∧ id = state.packetId then some state
        else findEntry key id [⟨clid, []⟩] := findEntry_extended (v := ⟨clid, []⟩) rfl rfl [] key id
    rw [createIn, fresh, empty]
    rfl
  | cons v rest inductionHypothesis =>
    rw [findEntry_cons, createIn]
    by_cases own : v.clid.key = clid.key
    · have equal : PartialEq.eq v.clid clid = true := eq_iff_key.mpr own
      rw [if_pos own, equal, Bool.not_true, if_neg Bool.false_ne_true, any_packetId]
      cases found : findState state.packetId v.val with
      | some before => exact .inl ⟨rfl, rfl⟩
      | none => exact .inr ⟨rfl, rfl, findEntry_extended own found rest⟩
    · have unequal : PartialEq.eq v.clid clid = false := eq_false_iff_key.mpr own
      rw [if_neg own, unequal, Bool.not_false, if_pos rfl]
      rcases inductionHypothesis with ⟨present, refused⟩ | ⟨absent, created, entries⟩
      · rw [refused]
        exact .inl ⟨present, rfl⟩
      · refine .inr ⟨absent, created, fun key id => ?_⟩
        rw [findEntry_cons, findEntry_cons, entries]
        by_cases mine : v.clid.key = key
        · have apart : ¬ (key = clid.key ∧ id = state.packetId) := fun both =>
            own (mine.trans both.1)
          rw [if_pos mine, if_pos mine, if_neg apart]
        · rw [if_neg mine, if_neg mine]

theorem keys_createIn (clid : ClientID) (state : SaveState) (data : List Map) :
    (createIn clid state data).2.map (fun map => map.clid.key) =
      if clid.key ∈ data.map fun map => map.clid.key then data.map fun map => map.clid.key
      else (data.map fun map => map.clid.key) ++ [clid.key] := by
  induction data with
  | nil => rfl
  | cons v rest inductionHypothesis =>
    rw [createIn]
    by_cases own : v.clid.key = clid.key
    · have listed : clid.key ∈ (v :: rest).map fun map => map.clid.key := by simp [own]
      rw [eq_iff_key.mpr own, Bool.not_true, if_neg Bool.false_ne_true, if_pos listed]
      split
      · rfl
      · rfl
    · rw [eq_false_iff_key.mpr own, Bool.not_false, if_pos rfl, List.map_cons, inductionHypothesis]
      by_cases later : clid.key ∈ rest.map fun map => map.clid.key
      · have listed : clid.key ∈ (v :: rest).map fun map => map.clid.key :=
          List.mem_cons_of_mem _ later
        rw [if_pos later, if_pos listed, List.map_cons]
      · have unlisted : clid.key ∉ (v :: rest).map fun map => map.clid.key := fun listed =>
          (List.mem_cons.mp listed).elim (Ne.symm own) later
        rw [if_neg later, if_neg unlisted, List.map_cons, List.cons_append]

theorem Consistent.createIn {data : List Map} (consistent : Consistent data) (clid : ClientID)
    (state : SaveState) : Consistent (createIn clid state data).2 := by
  obtain ⟨clids, packetIds⟩ := consistent
  constructor
  · rw [keys_createIn]
    split
    · exact clids
    · exact List.nodup_append.mpr ⟨clids, by simp, by grind⟩
  · clear clids
    induction data with
    | nil => simp [MessageCoordinator.createIn]
    | cons v rest inductionHypothesis =>
      obtain ⟨first, others⟩ := List.forall_mem_cons.mp packetIds
      rw [MessageCoordinator.createIn]
      split
      · exact List.forall_mem_cons.mpr ⟨first, inductionHypothesis others⟩
      · split
        · exact packetIds
        · refine List.forall_mem_cons.mpr ⟨?_, others⟩
          rename_i unlisted
          have fresh : state.packetId ∉ v.val.map SaveState.packetId := by
            simpa using unlisted
          rw [List.map_append, List.nodup_append]
          exact ⟨first, by simp, by grind⟩

end Calls

/-- A call, with the clock reading that it uses. -/
inductive Call where
  | create (clid : ClientID) (packetId : UInt16) (exprIntrvalSec now : UInt64)
  | resolve (clid : ClientID) (packetId : UInt16) (ack : MsgState) (now : UInt64)

/-- What a call returns, and the table after it. -/
def act (overflowChecks : Bool) (s : MessageCoordinator) :
    Call → Outcome MsgAckErrors Unit × MessageCoordinator
  | .create clid packetId exprIntrvalSec now =>
      s.create overflowChecks clid packetId exprIntrvalSec now
  | .resolve clid packetId ack now => s.resolve clid packetId ack now

/-- The entry of a client for a packet identifier. -/
def entryOf (s : MessageCoordinator) (clid : ClientID) (packetId : UInt16) : Option SaveState :=
  findEntry clid.key packetId s.data

/-- The first entry for a packet identifier that a client other than the given one has. -/
def foreignOf (s : MessageCoordinator) (clid : ClientID) (packetId : UInt16) :
    Option (ClientID × SaveState) :=
  findForeign clid.key packetId s.data

/-- One entry is changed and all others are left. -/
def Changes (before after : MessageCoordinator) (clid : ClientID) (packetId : UInt16)
    (state : SaveState) : Prop :=
  ∀ client id, after.entryOf client id =
    if client.key = clid.key ∧ id = packetId then some state else before.entryOf client id

/-- What one call can do. -/
inductive Effect (overflowChecks : Bool) (s : MessageCoordinator) :
    Call → Outcome MsgAckErrors Unit → MessageCoordinator → Prop where
  | aborts {clid packetId exprIntrvalSec now} (checked : overflowChecks = true)
      (overflow : 2 ^ 64 ≤ now.toNat + exprIntrvalSec.toNat) :
      Effect overflowChecks s (.create clid packetId exprIntrvalSec now) .panic s
  | «exists» {clid packetId exprIntrvalSec now}
      (present : (s.entryOf clid packetId).isSome = true) :
      Effect overflowChecks s (.create clid packetId exprIntrvalSec now) (.err .alreadyExists) s
  | creates {clid packetId exprIntrvalSec now after} (absent : s.entryOf clid packetId = none)
      (changes : Changes s after clid packetId
        { packetId, ack := .pubRec, expiredAt := now + exprIntrvalSec }) :
      Effect overflowChecks s (.create clid packetId exprIntrvalSec now) (.ok ()) after
  | missing {clid packetId ack now} (nobody : s.foreignOf clid packetId = none) :
      Effect overflowChecks s (.resolve clid packetId ack now) (.err .notFound) s
  | refuses {clid packetId ack now other state error}
      (found : s.foreignOf clid packetId = some (other, state))
      (refused : judge state ack now = .err error) :
      Effect overflowChecks s (.resolve clid packetId ack now) (.err error) s
  | advances {clid packetId ack now other state after}
      (found : s.foreignOf clid packetId = some (other, state))
      (granted : judge state ack now = .ok ())
      (changes : Changes s after other packetId { state with ack }) :
      Effect overflowChecks s (.resolve clid packetId ack now) (.ok ()) after

theorem judge_ne_panic (state : SaveState) (ack : MsgState) (now : UInt64) :
    judge state ack now ≠ .panic := by
  rw [judge]
  split
  · split
    · exact nofun
    · exact nofun
  · exact nofun

theorem judge_eq_ok_iff {state : SaveState} {ack : MsgState} {now : UInt64} :
    judge state ack now = .ok () ↔ state.ack.step + 1 = ack.step ∧ ¬ state.expiredAt < now := by
  rw [judge]
  split
  · split
    · simp [*]
    · simp [*]
  · simp [*]

/-- The entry that a foreign client has for a packet identifier is found under its name. -/
theorem Consistent.foreign {s : MessageCoordinator} (consistent : Consistent s.data)
    {clid other : ClientID} {packetId : UInt16} {state : SaveState}
    (found : s.foreignOf clid packetId = some (other, state)) :
    other.key ≠ clid.key ∧ s.entryOf other packetId = some state :=
  findEntry_of_findForeign consistent.clids found

theorem act_effect {s : MessageCoordinator} (consistent : Consistent s.data)
    (overflowChecks : Bool) (call : Call) :
    Effect overflowChecks s call (s.act overflowChecks call).1 (s.act overflowChecks call).2 := by
  cases call with
  | create clid packetId exprIntrvalSec now =>
    rw [act, create]
    split
    · exact .aborts (by tauto) (by tauto)
    · rcases createIn_cases clid ⟨packetId, .pubRec, now + exprIntrvalSec⟩ s.data with
        ⟨present, refused⟩ | ⟨absent, created, entries⟩
      · simp only [refused]
        exact .exists present
      · simp only [created]
        exact .creates absent fun client id => entries client.key id
  | resolve clid packetId ack now =>
    rw [act, resolve, resolveIn_eq consistent.clids]
    cases found : findForeign clid.key packetId s.data with
    | none => exact .missing found
    | some entry =>
      obtain ⟨other, state⟩ := entry
      cases verdict : judge state ack now with
      | panic => exact absurd verdict (judge_ne_panic state ack now)
      | err error =>
        simp only [verdict, reduceCtorEq, if_false]
        exact .refuses found verdict
      | ok _ =>
        simp only [verdict, if_true]
        refine .advances found verdict fun client id => ?_
        have listed := (consistent.foreign found).2
        simp only [entryOf, findEntry_recordEntry]
        split
        · rename_i mine
          rw [entryOf, ← mine.1, ← mine.2] at listed
          rw [listed]
          rfl
        · rfl

theorem Consistent.act {s : MessageCoordinator} (consistent : Consistent s.data)
    (overflowChecks : Bool) (call : Call) : Consistent (s.act overflowChecks call).2.data := by
  cases call with
  | create clid packetId exprIntrvalSec now =>
    rw [MessageCoordinator.act, create]
    split
    · exact consistent
    · exact consistent.createIn clid _
  | resolve clid packetId ack now =>
    rw [MessageCoordinator.act, resolve, resolveIn_eq consistent.clids]
    cases findForeign clid.key packetId s.data with
    | none => exact consistent
    | some entry =>
      simp only
      split
      · exact consistent.recordEntry _ _ _
      · exact consistent

end MessageCoordinator
end Sipusu.MessageBroker
