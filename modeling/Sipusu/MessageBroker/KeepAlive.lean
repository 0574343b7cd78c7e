import Sipusu.Foundation.Runs
import Sipusu.MessageBroker.SpawnClient

/-!
# Clients that respect their keep-alive

The task of a client, beside what the client sends: a packet at most `k` seconds after
the one before. The deadline counts from the clock at the head of the turn that receives
a packet, which is older than the packet by as long as that turn's read blocked.
-/

namespace Sipusu.MessageBroker

open Sipusu.Foundation Sipusu.Protocol

/-- A task under observation. The client has sent nothing after `quiet`, and its next
packet arrives by `due`; the deadline counts from `since`. -/
structure Watch where
  task : ClientTask
  clock : Nat
  quiet : Nat
  due : Nat
  since : Nat
  last : Option Turn

namespace Watch

/-- How long a session of the interval `k` lives without a packet. -/
def span (k : UInt16) : Nat := k.toNat + k.toNat / 2

/-- A client at its creation. -/
def created (k : UInt16) (client : Client) (now : Nat) : Watch :=
  { task := .spawn client [], clock := now, quiet := now, due := now + k.toNat, since := now,
    last := none }

/-- Packets that arrive one after another, each in time: when the last one came, and by
when the next one will. -/
def arrive (k : UInt16) (quiet due : Nat) : List Nat → Option (Nat × Nat)
  | [] => some (quiet, due)
  | arrival :: rest =>
      if quiet ≤ arrival ∧ arrival ≤ due then arrive k arrival (arrival + k.toNat) rest else none

/-- The loop is running, and its clock does not go back. -/
def Ready (s : Watch) (reading : Reading) : Prop :=
  (∀ turn, s.last = some turn → turn.continues = true) ∧ s.clock ≤ reading.t ∧
    reading.t ≤ reading.now

/-- The state after a turn, when the client was last heard at `quiet`. -/
def after (s : Watch) (reading : Reading) (quiet due : Nat) : Watch :=
  let (turn, task) := s.task.turn reading
  { task, clock := reading.now, quiet, due,
    since := if turn.packet?.isSome then reading.t + 1 else s.since,
    last := some turn }

/-- One turn. What a read returns has arrived by then; a read that times out has waited
for the deadline in vain. -/
inductive Step (k : UInt16) (s : Watch) (reading : Reading) : Watch → Prop where
  | packets {readed arrivals quiet due} (ready : s.Ready reading)
      (read : reading.read = .ok readed) (nonempty : readed ≠ [])
      (fits : readed.length ≤ s.task.buffer) (some : arrivals ≠ [])
      (inTime : arrive k s.quiet s.due arrivals = Option.some (quiet, due))
      (came : quiet ≤ reading.now) : Step k s reading (s.after reading quiet due)
  | silence (ready : s.Ready reading) (read : reading.read = .timedOut)
      (inTime : s.task.client.session.ttl ≤ s.due)
      (waited : s.task.client.session.ttl ≤ reading.now) :
      Step k s reading (s.after reading (max s.quiet s.task.client.session.ttl) s.due)
  | failure (ready : s.Ready reading) (read : reading.read = .failed) :
      Step k s reading (s.after reading s.quiet s.due)

/-- All runs of the task of a client that respects its keep-alive. -/
def respectful (k : UInt16) : System Watch Reading where
  Initial s := ∃ conid clid exprInterval protocolLevel limit now client,
    Client.new conid clid k exprInterval protocolLevel limit now = .ok client ∧
      s = created k client now
  Step := Step k

/-- The loop has not just found the client dead, nor skipped a packet it decoded. -/
def Kept (s : Watch) : Prop :=
  match s.last with
  | some (.dead _) | some (.skipped _) => False
  | _ => True

/-- The condition on turns: the clock at the head is within the span, and at least two
seconds before its end if a packet is decoded. -/
def Prompt (k : UInt16) (s : Watch) (reading : Reading) : Prop :=
  reading.t ≤ s.since + span k ∧
    ∀ readed packet rest, reading.read = .ok readed →
      ClientPacketV5.decode readed = .ok (packet, rest) → reading.t + 1 < s.since + span k

/-- What prompt turns keep. -/
structure Consistent (k : UInt16) (s : Watch) : Prop where
  interval : s.task.client.session.keepAlive = k
  deadline : s.task.client.session.ttl = s.since + span k
  kept : s.Kept

theorem created_consistent {k : UInt16} (least : 60 ≤ k.toNat) (bounded : k.toNat ≤ 43690)
    {conid : ConnectionID} {clid : ClientID} {exprInterval : UInt32} {protocolLevel : UInt8}
    {limit : Limiter} {now : Nat} {client : Client}
    (made : Client.new conid clid k exprInterval protocolLevel limit now = .ok client) :
    Consistent k (created k client now) := by
  rw [Client.new, Session.allowance_eq bounded] at made
  cases made
  have largest : max k Client.minKeepAlive = k := by
    have notBelow : Client.minKeepAlive ≤ k := UInt16.le_iff_toNat_le.mpr least
    rw [UInt16.max_def]
    split
    · exact UInt16.le_antisymm notBelow ‹k ≤ Client.minKeepAlive›
    · rfl
  exact ⟨largest, rfl, trivial⟩

section Turns

variable {k : UInt16} {s : Watch} {reading : Reading}

theorem after_eq {turn : Turn} {task : ClientTask} (turned : s.task.turn reading = (turn, task))
    (quiet due : Nat) :
    s.after reading quiet due =
      { task, clock := reading.now, quiet, due,
        since := if turn.packet?.isSome then reading.t + 1 else s.since, last := some turn } := by
  rw [after, turned]

/-- What `keep_alive` makes of a session with the interval and the deadline of a run. -/
theorem Consistent.keepAliveAt_eq (consistent : Consistent k s) (bounded : k.toNat ≤ 43690)
    (t : Nat) :
    s.task.client.keepAliveAt t =
      if s.since + span k ≤ t then .err Session.alreadyExpired
      else .ok { s.task.client with
        session := { s.task.client.session with ttl := t + span k } } := by
  obtain ⟨rfl, deadline, _⟩ := consistent
  rw [Client.keepAliveAt_eq bounded, deadline, span]

/-- A packet received in time moves the deadline to the span after the head of its turn. -/
theorem Consistent.after_dispatched (consistent : Consistent k s) (bounded : k.toNat ≤ 43690)
    {readed rest : Bytes} {packet : ClientPacketV5} (nonempty : readed ≠ [])
    (read : reading.read = .ok readed) (decoded : ClientPacketV5.decode readed = .ok (packet, rest))
    (ahead : reading.t + 1 < s.since + span k) (quiet due : Nat) :
    ∃ turn subscribed, (turn = .dispatched packet ∨ turn = .unsaved packet) ∧
      s.after reading quiet due =
        { task := { s.task with
            subscribed
            client := { s.task.client with
              session := { s.task.client.session with ttl := reading.t + 1 + span k } } },
          clock := reading.now, quiet, due, since := reading.t + 1, last := some turn } := by
  have early : reading.t ≤ s.task.client.session.ttl := by
    rw [consistent.deadline]
    omega
  have turned := ClientTask.turn_of_packet early nonempty read decoded
  rw [consistent.keepAliveAt_eq bounded, if_neg (Nat.not_le.mpr ahead)] at turned
  obtain ⟨turn, subscribed, saved, ended⟩ := ClientTask.save_cases { s.task with
    client := { s.task.client with
      session := { s.task.client.session with ttl := reading.t + 1 + span k } } }
    packet reading.iteration
  refine ⟨turn, subscribed, ended, (after_eq (turned.trans saved) quiet due).trans ?_⟩
  rcases ended with rfl | rfl <;> rfl

/-- A prompt turn keeps the deadline where it belongs. -/
theorem Consistent.after_of_prompt (consistent : Consistent k s) (bounded : k.toNat ≤ 43690)
    (nonempty : ∀ readed, reading.read = .ok readed → readed ≠ []) (prompt : Prompt k s reading)
    (quiet due : Nat) : Consistent k (s.after reading quiet due) := by
  obtain ⟨within, ahead⟩ := prompt
  have early : reading.t ≤ s.task.client.session.ttl := by rw [consistent.deadline]; exact within
  cases read : reading.read with
  | timedOut =>
    rw [after_eq (ClientTask.turn_of_timedOut early read)]
    exact ⟨consistent.interval, consistent.deadline, trivial⟩
  | failed =>
    rw [after_eq (ClientTask.turn_of_failed early read)]
    exact ⟨consistent.interval, consistent.deadline, trivial⟩
  | ok readed =>
    by_cases decodes : ∃ packet rest, ClientPacketV5.decode readed = .ok (packet, rest)
    · obtain ⟨packet, rest, decoded⟩ := decodes
      obtain ⟨turn, subscribed, ended, same⟩ := consistent.after_dispatched bounded
        (nonempty readed read) read decoded (ahead readed packet rest read decoded) quiet due
      rw [same]
      refine ⟨consistent.interval, rfl, ?_⟩
      rcases ended with rfl | rfl <;> trivial
    · have undecodable : ∀ packet rest, ClientPacketV5.decode readed ≠ .ok (packet, rest) :=
        fun packet rest decoded => decodes ⟨packet, rest, decoded⟩
      rw [after_eq (ClientTask.turn_of_undecodable early (nonempty readed read) read undecodable)]
      exact ⟨consistent.interval, consistent.deadline, trivial⟩

/-- Any other turn finds the client dead or skips a packet. -/
theorem Consistent.prompt_of_kept (consistent : Consistent k s) (bounded : k.toNat ≤ 43690)
    (nonempty : ∀ readed, reading.read = .ok readed → readed ≠ []) {quiet due : Nat}
    (kept : (s.after reading quiet due).Kept) : Prompt k s reading := by
  have within : reading.t ≤ s.since + span k := by
    by_contra late
    rw [← consistent.deadline, Nat.not_le] at late
    rw [after_eq (ClientTask.turn_of_late late)] at kept
    exact kept
  have early : reading.t ≤ s.task.client.session.ttl := by rw [consistent.deadline]; exact within
  refine ⟨within, fun readed packet rest read decoded => ?_⟩
  by_contra behind
  have turned := ClientTask.turn_of_packet early (nonempty readed read) read decoded
  rw [consistent.keepAliveAt_eq bounded, if_pos (Nat.not_lt.mp behind)] at turned
  rw [after_eq turned] at kept
  exact kept

/-- Every turn of a respectful run is one of a nonempty read, a timeout or a failure. -/
theorem Step.cases {next : Watch} (stepped : Step k s reading next) :
    (∀ readed, reading.read = .ok readed → readed ≠ []) ∧
      ∃ quiet due, next = s.after reading quiet due := by
  cases stepped with
  | packets ready read nonempty =>
    refine ⟨fun other isOther => ?_, _, _, rfl⟩
    rw [read, ReadResult.ok.injEq] at isOther
    exact isOther ▸ nonempty
  | silence ready read => exact ⟨fun _ isOk => by simp [read] at isOk, _, _, rfl⟩
  | failure ready read => exact ⟨fun _ isOk => by simp [read] at isOk, _, _, rfl⟩

end Turns

theorem exactGuard {k : UInt16} (least : 60 ≤ k.toNat) (bounded : k.toNat ≤ 43690) :
    (respectful k).ExactGuard (Prompt k) (Consistent k) Kept where
  initial := by
    rintro s ⟨conid, clid, exprInterval, protocolLevel, limit, now, client, made, rfl⟩
    exact created_consistent least bounded made
  preserved consistent prompt stepped := by
    obtain ⟨nonempty, quiet, due, rfl⟩ := Step.cases stepped
    exact consistent.after_of_prompt bounded nonempty prompt quiet due
  sound consistent := consistent.kept
  sharp consistent unprompt stepped := by
    obtain ⟨nonempty, quiet, due, rfl⟩ := Step.cases stepped
    exact fun kept => unprompt (consistent.prompt_of_kept bounded nonempty kept)

/-- A client that respects its keep-alive is never found dead and has no packet skipped
exactly in the runs whose turns are prompt. -/
theorem kept_iff_prompt {k : UInt16} (least : 60 ≤ k.toNat) (bounded : k.toNat ≤ 43690)
    {trail : List (Watch × Reading)} {s : Watch} (run : (respectful k).Run trail s) :
    System.Run.AllStates Kept trail s ↔ System.Run.AllSteps (Prompt k) trail :=
  (exactGuard least bounded).safe_iff_guarded run

/-- A client sends one packet, half a minute after its creation. -/
theorem kept_iff_prompt_once :
    let client : Client :=
      { conid := ⟨1⟩, clid := .new ⟨[0x61], by decide⟩, protocolLevel := 5,
        session := ⟨90, 0, 60⟩, limit := ⟨none, none, none⟩ }
    let trail := [(created 60 client 0, ⟨0, .ok [0xC0, 0x00], 30, .listed⟩)]
    ∃ s, (respectful 60).Run trail s ∧ System.Run.AllStates Kept trail s := by
  intro client trail
  have start : (respectful 60).Run [] (created 60 client 0) :=
    .initial ⟨_, _, _, _, _, 0, client, rfl, rfl⟩
  have ready : (created 60 client 0).Ready ⟨0, .ok [0xC0, 0x00], 30, .listed⟩ :=
    ⟨by simp [created], by decide, by decide⟩
  have inTime : arrive 60 0 60 [30] = some (30, 90) := rfl
  have run : (respectful 60).Run trail _ := .step start
    (.packets ready rfl (List.cons_ne_nil _ _) (by decide) (List.cons_ne_nil _ _) inTime (by decide))
  refine ⟨_, run, (kept_iff_prompt (by decide) (by decide) run).mpr ?_⟩
  change System.Run.AllSteps (Prompt 60) [_]
  rintro entry (_ | ⟨_, impossible⟩)
  · exact ⟨by decide, fun _ _ _ _ _ => by decide⟩
  · cases impossible

/-- A packet arrives a minute after the creation, and the next one is not yet due when
the loop finds the client dead. -/
theorem dead_before_due :
    ∃ s sevent, (respectful 60).Reachable s ∧ s.last = some (.dead sevent) ∧ s.clock < s.due ∧
      ¬ s.Kept := by
  let client : Client :=
    { conid := ⟨1⟩, clid := .new ⟨[0x61], by decide⟩, protocolLevel := 5,
      session := ⟨90, 0, 60⟩, limit := ⟨none, none, none⟩ }
  let received : Watch :=
    { task := .spawn { client with session := ⟨91, 0, 60⟩ } [], clock := 60, quiet := 60, due := 120,
      since := 1, last := some (.dispatched .pingReq) }
  let waited : Watch := { received with clock := 92, quiet := 91, last := some .timedOut }
  have made : Client.new ⟨1⟩ client.clid 60 0 5 ⟨none, none, none⟩ 0 = .ok client := rfl
  have start : (respectful 60).Run [] (created 60 client 0) :=
    .initial ⟨_, _, _, _, _, 0, client, made, rfl⟩
  have receive : Step 60 (created 60 client 0) ⟨0, .ok [0xC0, 0x00], 60, .listed⟩ received := by
    have consistent : Consistent 60 (created 60 client 0) :=
      created_consistent (by decide) (by decide) made
    have inTime : arrive 60 0 60 [60] = some (60, 120) := rfl
    have same : (created 60 client 0).after ⟨0, .ok [0xC0, 0x00], 60, .listed⟩ 60 120 =
        received := by
      have turned : (created 60 client 0).task.turn ⟨0, .ok [0xC0, 0x00], 60, .listed⟩ = _ :=
        ClientTask.turn_of_packet (by decide) (List.cons_ne_nil _ _) rfl rfl
      rw [consistent.keepAliveAt_eq (by decide), if_neg (by decide)] at turned
      exact after_eq turned 60 120
    rw [← same]
    exact .packets ⟨by simp [created], by decide, by decide⟩ rfl (List.cons_ne_nil _ _) (by decide)
      (List.cons_ne_nil _ _) inTime (by decide)
  have wait : Step 60 received ⟨60, .timedOut, 92, .listed⟩ waited := by
    have same : received.after ⟨60, .timedOut, 92, .listed⟩ 91 120 = waited :=
      after_eq (ClientTask.turn_of_timedOut (by decide) rfl) 91 120
    rw [← same]
    exact .silence ⟨by simp [received, Turn.continues], by decide, by decide⟩ rfl (by decide)
      (by decide)
  have find : Step 60 waited ⟨92, .timedOut, 92, .listed⟩ _ :=
    .silence ⟨by simp [waited, Turn.continues], by decide, by decide⟩ rfl (by decide) (by decide)
  rw [after_eq (ClientTask.turn_of_late (by decide))] at find
  exact ⟨_, _, ⟨_, .step (.step (.step start receive) wait) find⟩, rfl, by decide, id⟩

end Watch
end Sipusu.MessageBroker
